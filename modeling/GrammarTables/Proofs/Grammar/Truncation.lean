import GrammarTables.Grammar.Tables
import GrammarTables.Proofs.Grammar.RoundTrip
import GrammarTables.Proofs.Json.MoreText.Record
import GrammarTables.Proofs.Json.MoreText.Text

/-!
# Truncated and extended tables

A grammar ends with a bracket, so the same text with more behind it is read up
to the same place, and is refused for what is left. A text that was cut off
cannot be accepted either, as what was cut off would be left then.
-/

namespace GrammarTables

open Json (Decoder Field Layout blanks inside trimEnd)

/-! ## Decoders of rules and grammars -/

theorem Rule.settled_layout (room : Nat) {content : Decoder Rule} {member : Option (Decoder Rule)}
    (hc : content.Settled) (hm : ∀ d ∈ member, d.Settled) :
    (Rule.layout room content member).Settled := by
  refine List.forall_mem_cons.mpr ⟨Field.settled_ofRequired (.variant room), ?_⟩
  refine List.forall_mem_cons.mpr ⟨(Decoder.Settled.any room).optional.map Rule.setValue, ?_⟩
  refine List.forall_mem_cons.mpr ⟨Field.settled_ofOptional .string, ?_⟩
  refine List.forall_mem_cons.mpr ⟨Field.settled_ofOptional hc, ?_⟩
  refine List.forall_mem_cons.mpr ⟨Field.settled_ofDefault (.list hm), ?_⟩
  refine List.forall_mem_cons.mpr ⟨Field.settled_ofOptional .bool, ?_⟩
  refine List.forall_mem_cons.mpr ⟨Field.settled_ofOptional .string, ?_⟩
  exact List.forall_mem_singleton.mpr (Field.settled_ofOptional .string)

theorem Rule.settled_decoder (room : Nat) : (Rule.decoder room).Settled := by
  induction room using Nat.strong_induction_on with
  | _ room ih =>
    rw [Rule.decoder_eq]
    refine .record fun l hl => ?_
    cases room with
    | zero => cases hl
    | succ room =>
      have hcontent := ih room (Nat.lt_succ_self room)
      have hmember : ∀ d ∈ inside Rule.decoder room, d.Settled :=
        Json.forall_mem_inside fun r hr => ih r (Nat.lt_succ_of_lt hr)
      exact Option.mem_some.mp hl ▸ Rule.settled_layout room hcontent hmember

namespace Grammar

theorem settled_layout (room : Nat) : (layout room).Settled := by
  have rule (r : Nat) : ∀ d ∈ inside Rule.decoder r, d.Settled :=
    Json.forall_mem_inside fun r _ => Rule.settled_decoder r
  have name (r : Nat) : ∀ d ∈ inside (fun _ => Decoder.string) r, d.Settled :=
    Json.forall_mem_inside fun _ _ => .string
  have rules : ∀ d ∈ layout.rules room, d.Settled :=
    Json.forall_mem_inside fun r _ => .list (rule r)
  have names : (layout.names room).Settled := .list (name room)
  have nameLists : ∀ d ∈ layout.nameLists room, d.Settled :=
    Json.forall_mem_inside fun r _ => .list (name r)
  refine List.forall_mem_cons.mpr ⟨Field.settled_ofOptional .string, ?_⟩
  refine List.forall_mem_cons.mpr ⟨Field.settled_ofRequired .string, ?_⟩
  refine List.forall_mem_cons.mpr ⟨Field.settled_ofOptional .string, ?_⟩
  refine List.forall_mem_cons.mpr ⟨Field.settled_ofRequired (.nameMap (rule room)), ?_⟩
  refine List.forall_mem_cons.mpr ⟨Field.settled_ofOptional (.list (rule room)), ?_⟩
  refine List.forall_mem_cons.mpr ⟨Field.settled_ofOptional (.list (rule room)), ?_⟩
  refine List.forall_mem_cons.mpr ⟨Field.settled_ofOptional names, ?_⟩
  refine List.forall_mem_cons.mpr ⟨Field.settled_ofOptional (.list rules), ?_⟩
  refine List.forall_mem_cons.mpr ⟨Field.settled_ofOptional (.list nameLists), ?_⟩
  refine List.forall_mem_cons.mpr ⟨Field.settled_ofOptional (.nameMap rules), ?_⟩
  refine List.forall_mem_cons.mpr ⟨Field.settled_ofOptional .string, ?_⟩
  exact List.forall_mem_singleton.mpr (Field.settled_ofOptional names)

theorem closed_decoder (room : Nat) : (decoder room).Closed := by
  refine fun _ _ _ => Decoder.record_append fun l hl => ?_
  cases room with
  | zero => cases hl
  | succ room => exact Option.mem_some.mp hl ▸ settled_layout room

/-! ## Tables -/

/-- If a text is taken for tables, then no text that is cut off before its last character other than
blanks is, and none that goes on with anything but blanks. -/
theorem ofTables_altered {text : String} {g : Grammar} (h : ofTables text = .ok g) :
    (∀ front back, front ++ back = trimEnd text → back ≠ "" → ∃ f, ofTables front = .error f) ∧
    ∀ more : String, (∃ c ∈ more.toList, c ∉ blanks) → ∃ f, ofTables (text ++ more) = .error f :=
  have hd := closed_decoder Json.nestingLimit
  ⟨fun _ _ => hd.decode_cut h, fun _ => hd.decode_append h⟩

/-- A grammar without rules. -/
def withoutRules : Grammar where
  name := "words"
  rules := .empty

theorem ofTables_altered_withoutRules :
    ofTables withoutRules.tables = .ok withoutRules ∧ (∃ f, ofTables "" = .error f) ∧
      ∃ f, ofTables (withoutRules.tables ++ "x") = .error f := by
  have h : ofTables withoutRules.tables = .ok withoutRules :=
    (withoutRules.reads_toJson.decode Json.nestingLimit).read (by decide)
  obtain ⟨hcut, hmore⟩ := ofTables_altered h
  exact ⟨h, hcut "" (trimEnd withoutRules.tables) (by decide) (by decide),
    hmore "x" ⟨'x', by decide, by decide⟩⟩

end Grammar

end GrammarTables
