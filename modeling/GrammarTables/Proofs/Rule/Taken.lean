import GrammarTables.Proofs.Json.Taken.Record
import GrammarTables.Proofs.Rule.Denotes

/-!
# Which documents are rules

What a document has to be for its texts to be taken for a rule. How deep brackets may nest matters
only where something is read from them: members that are no fields may nest as they like.
-/

namespace GrammarTables

open Json (Clause Decoder Doc Field Layout inside)

/-- A text or a level. -/
def Json.Doc.IsValue (v : Doc) : Prop := ∃ j a, v.DenotesJson j ∧ Rule.Value.ofJson? j = some a

namespace Rule

/-! ## Clauses -/

/-- The clauses of a rule's fields, given how deep brackets may nest in them and what has to hold of
its content and its members. -/
def takenFields (room : Nat) (content : Doc → Prop) (member : Option (Doc → Prop)) : List Clause := [
  ⟨"type", Doc.VariantOf Kind.byName room, False⟩,
  ⟨"value", Doc.OptionalOf Doc.IsValue, True⟩,
  ⟨"name", Doc.OptionalOf Doc.IsString, True⟩,
  ⟨"content", Doc.OptionalOf content, True⟩,
  ⟨"members", Doc.ListOf member, True⟩,
  ⟨"named", Doc.OptionalOf Doc.IsBool, True⟩,
  ⟨"flags", Doc.OptionalOf Doc.IsString, True⟩,
  ⟨"context_name", Doc.OptionalOf Doc.IsString, True⟩]

/-- The documents that are rules in which brackets nest at most `room` deep, and those with a bracket
less, if there are such rules. -/
def taken : Nat → (Doc → Prop) × Option (Doc → Prop)
  | 0 => (Doc.RecordOf none, none)
  | room + 1 =>
    match taken room with
    | (content, member) => (Doc.RecordOf (some (takenFields room content member)), some content)

end Rule

/-- The document is a rule in which brackets nest at most `room` deep. -/
def Json.Doc.RuleWithin (room : Nat) : Doc → Prop := (Rule.taken room).1

namespace Rule

def takenWithin (room : Nat) : List Clause :=
  takenFields room (Doc.RuleWithin room) (inside Doc.RuleWithin room)

theorem ruleWithin_eq (room : Nat) : Doc.RuleWithin room = Doc.RecordOf (inside takenWithin room) := by
  have member : ∀ room, (taken room).2 = inside Doc.RuleWithin room := by
    intro room
    cases room <;> rfl
  cases room with
  | zero => rfl
  | succ room =>
    show Doc.RecordOf (some (takenFields room (taken room).1 (taken room).2)) = _
    rw [member room]
    rfl

theorem ruleWithin_iff {room : Nat} {v : Doc} : v.RuleWithin room ↔
    ∃ inner, room = inner + 1 ∧ Doc.RecordOf (some (takenWithin inner)) v := by
  rw [ruleWithin_eq]
  cases room with
  | zero =>
    constructor
    · rintro ⟨hnone, -, -⟩
      cases hnone
    · rintro ⟨inner, hzero, -⟩
      cases hzero
  | succ room =>
    constructor
    · exact fun h => ⟨room, rfl, h⟩
    · rintro ⟨inner, hinner, h⟩
      obtain rfl := Nat.succ.inj hinner
      exact h

/-! ## Reading -/

theorem exists_setValue {j : Json} {a : Value} (h : Value.ofJson? j = some a) (r : Rule) :
    ∃ r', setValue (some j) r = .ok r' := by
  simp only [setValue, h]
  exact ⟨_, rfl⟩

theorem run_any_value (room : Nat) {s t : List Char} {v : Doc} {j : Json} {a : Value}
    (hj : v.DenotesJson j) (ha : Value.ofJson? j = some a) (h : Json.Front s v t)
    (ht : Json.Delimited t) : (Decoder.any room).run s = .ok (j, t) := by
  unfold Value.ofJson? at ha
  split at ha
  · cases hj
    exact Decoder.run_any_string room h rfl
  · cases hj with
    | number hn => exact Decoder.run_any_number room h hn ht
  · cases ha

/-- A value that is neither a text nor a level is refused in whatever rule it is. -/
theorem takes_value (room : Nat) :
    Field.Takes ⟨"value", false, (Decoder.any room).optional.map setValue⟩
      ⟨"value", Doc.OptionalOf Doc.IsValue, True⟩ where
  key := rfl
  absent := ⟨fun _ => rfl, fun _ => trivial⟩
  sound := by
    refine (Decoder.Sound.any room).optional.map fun v j hj r r' hr => ?_
    cases hj with
    | null => exact .inl rfl
    | @some _ j hj =>
      unfold setValue at hr
      dsimp only at hr
      split at hr
      · cases hr
      · next a ha => exact .inr ⟨j, a, hj, ha⟩
  complete := by
    rintro s t v (rfl | ⟨j, a, hj, ha⟩) hs ht
    · have hrun := Decoder.run_optional_null (d := .any room) hs
      exact ⟨_, Json.map_eq_ok.mpr ⟨(none, t), hrun, rfl⟩, fun r => ⟨_, rfl⟩⟩
    · have hnull : v ≠ .null := by
        rintro rfl
        cases hj
        nomatch ha
      have hrun := Decoder.run_optional hs hnull (run_any_value room hj ha hs ht)
      exact ⟨_, Json.map_eq_ok.mpr ⟨(some j, t), hrun, rfl⟩, exists_setValue ha⟩

theorem takes_layout (room : Nat) {content : Decoder Rule} {member : Option (Decoder Rule)}
    {A : Doc → Prop} {B : Option (Doc → Prop)} (hc : content.Takes A)
    (hm : Option.Rel Decoder.Takes member B) :
    (layout room content member).Takes (takenFields room A B) where
  nodup := nodup_keys
  fields :=
    .cons (Field.takes_ofRequired (Decoder.takes_variant room)) <|
    .cons (takes_value room) <|
    .cons (Field.takes_ofOptional Decoder.takes_string) <|
    .cons (Field.takes_ofOptional hc) <|
    .cons (Field.takes_ofDefault (Decoder.takes_list hm)) <|
    .cons (Field.takes_ofOptional Decoder.takes_bool) <|
    .cons (Field.takes_ofOptional Decoder.takes_string) <|
    .cons (Field.takes_ofOptional Decoder.takes_string) .nil

/-- Just the texts of documents that are rules are taken for rules. -/
theorem takes_decoder (room : Nat) : (decoder room).Takes (Doc.RuleWithin room) := by
  induction room using Nat.strong_induction_on with
  | _ room ih =>
    rw [decoder_eq, ruleWithin_eq]
    refine Decoder.takes_record ?_
    cases room with
    | zero => exact .none
    | succ room =>
      have hcontent := ih room (Nat.lt_succ_self room)
      have hmember := Decoder.takes_inside fun r hr => ih r (Nat.lt_succ_of_lt hr)
      exact .some (takes_layout room hcontent hmember)

end Rule

end GrammarTables
