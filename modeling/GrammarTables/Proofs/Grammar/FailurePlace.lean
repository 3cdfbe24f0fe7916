import GrammarTables.Grammar.Tables
import GrammarTables.Proofs.Json.StopsIn.Record
import GrammarTables.Proofs.Json.StopsIn.Text
import GrammarTables.Proofs.Rule.RoundTrip

/-!
# The place of a fault in tables

Tables that are refused are refused at a place in their text, whatever is wrong with them: each
decoder that reads some part of a grammar stops in the text that it was given.
-/

namespace GrammarTables

open Json (Decoder Failure Field Layout Place inside)

/-! ## Decoders of rules and grammars -/

theorem Rule.stops_layout (room : Nat) {content : Decoder Rule} {member : Option (Decoder Rule)}
    (hc : content.Stops) (hm : ∀ d ∈ member, d.Stops) : (Rule.layout room content member).Stops := by
  refine List.forall_mem_cons.mpr ⟨Field.stops_ofRequired (.variant _ room), ?_⟩
  refine List.forall_mem_cons.mpr ⟨(Decoder.Stops.any room).optional.map Rule.setValue, ?_⟩
  refine List.forall_mem_cons.mpr ⟨Field.stops_ofOptional .string, ?_⟩
  refine List.forall_mem_cons.mpr ⟨Field.stops_ofOptional hc, ?_⟩
  refine List.forall_mem_cons.mpr ⟨Field.stops_ofDefault (.list hm), ?_⟩
  refine List.forall_mem_cons.mpr ⟨Field.stops_ofOptional .bool, ?_⟩
  refine List.forall_mem_cons.mpr ⟨Field.stops_ofOptional .string, ?_⟩
  exact List.forall_mem_singleton.mpr (Field.stops_ofOptional .string)

/-- By induction on the room, as the rules in a rule have less of it. -/
theorem Rule.stops_decoder (room : Nat) : (Rule.decoder room).Stops := by
  induction room using Nat.strong_induction_on with
  | _ room ih =>
    rw [Rule.decoder_eq]
    refine .record fun l hl => ?_
    cases room with
    | zero => cases hl
    | succ room =>
      have hcontent := ih room (Nat.lt_succ_self room)
      have hmember : ∀ d ∈ inside Rule.decoder room, d.Stops :=
        Json.forall_mem_inside fun r hr => ih r (Nat.lt_succ_of_lt hr)
      exact Option.mem_some.mp hl ▸ Rule.stops_layout room hcontent hmember

namespace Grammar

theorem stops_layout (room : Nat) : (layout room).Stops := by
  have rule (r : Nat) : ∀ d ∈ inside Rule.decoder r, d.Stops :=
    Json.forall_mem_inside fun r _ => Rule.stops_decoder r
  have name (r : Nat) : ∀ d ∈ inside (fun _ => Decoder.string) r, d.Stops :=
    Json.forall_mem_inside fun _ _ => .string
  have rules : ∀ d ∈ layout.rules room, d.Stops := Json.forall_mem_inside fun r _ => .list (rule r)
  have names : (layout.names room).Stops := .list (name room)
  have nameLists : ∀ d ∈ layout.nameLists room, d.Stops :=
    Json.forall_mem_inside fun r _ => .list (name r)
  refine List.forall_mem_cons.mpr ⟨Field.stops_ofOptional .string, ?_⟩
  refine List.forall_mem_cons.mpr ⟨Field.stops_ofRequired .string, ?_⟩
  refine List.forall_mem_cons.mpr ⟨Field.stops_ofOptional .string, ?_⟩
  refine List.forall_mem_cons.mpr ⟨Field.stops_ofRequired (.nameMap (rule room)), ?_⟩
  refine List.forall_mem_cons.mpr ⟨Field.stops_ofOptional (.list (rule room)), ?_⟩
  refine List.forall_mem_cons.mpr ⟨Field.stops_ofOptional (.list (rule room)), ?_⟩
  refine List.forall_mem_cons.mpr ⟨Field.stops_ofOptional names, ?_⟩
  refine List.forall_mem_cons.mpr ⟨Field.stops_ofOptional (.list rules), ?_⟩
  refine List.forall_mem_cons.mpr ⟨Field.stops_ofOptional (.list nameLists), ?_⟩
  refine List.forall_mem_cons.mpr ⟨Field.stops_ofOptional (.nameMap rules), ?_⟩
  refine List.forall_mem_cons.mpr ⟨Field.stops_ofOptional .string, ?_⟩
  exact List.forall_mem_singleton.mpr (Field.stops_ofOptional names)

theorem stops_decoder (room : Nat) : (decoder room).Stops := by
  refine .record fun l hl => ?_
  cases room with
  | zero => cases hl
  | succ room => exact Option.mem_some.mp hl ▸ stops_layout room

/-! ## Tables -/

/-- The message for tables that are refused ends in the place of the fault: the line and the column
behind so many of their bytes that just the unread ones are left. -/
theorem ofTables_error_place {text : String} {f : Failure} (h : ofTables text = .error f) :
    ∃ (read : Nat) (place : Place), read + f.unread = (Text.utf8 text).length ∧
      place.Behind ((Text.utf8 text).take read) ∧
      f.message text = f.problem.message ++ " at line " ++ toString place.line ++
        " column " ++ toString place.column := by
  have hle : f.unread ≤ (Text.utf8 text).length := by
    rw [← Json.bytes_toList]
    exact (stops_decoder Json.nestingLimit).decode h
  refine ⟨(Text.utf8 text).length - f.unread, Place.of text f.unread, Nat.sub_add_cancel hle, ?_, rfl⟩
  rw [Place.of, Json.toList_toUTF8]
  exact Place.behind_after _

/-- A list in the second line that has a number in the place of the schema's address. -/
def numberForSchema : String := "\n[7]\n"

/-- The number is read before its kind is refused. -/
def notASchema : Failure := ⟨.wrongType "integer `7`" "a string", 2⟩

theorem ofTables_numberForSchema :
    ofTables numberForSchema = .error notASchema ∧
    notASchema.message numberForSchema =
      "invalid type: integer `7`, expected a string at line 2 column 2" ∧
    ∃ (read : Nat) (place : Place), read + 2 = (Text.utf8 numberForSchema).length ∧
      place.Behind ((Text.utf8 numberForSchema).take read) ∧
      notASchema.message numberForSchema = notASchema.problem.message ++
        " at line " ++ toString place.line ++ " column " ++ toString place.column := by
  have h : ofTables numberForSchema = .error notASchema := rfl
  refine ⟨h, ?_, ofTables_error_place h⟩
  rw [Failure.message, Place.of, Json.toList_toUTF8]
  decide

end Grammar

end GrammarTables
