import GrammarTables.Proofs.Grammar.Denotes
import GrammarTables.Proofs.Rule.Taken

/-!
# Which documents are grammars

What a document has to be for its texts to be taken for the tables of a grammar. Together with what
it denotes this says all about reading: a text gives a grammar just if it spells a document that is
one within the limit of nesting and denotes this grammar.
-/

namespace GrammarTables

open Json (Clause Decoder Doc Field Layout inside)

namespace Grammar

/-- The clauses of a grammar's fields, given how deep brackets may nest in them. -/
def takenFields (room : Nat) : List Clause := [
  ⟨"$schema", Doc.OptionalOf Doc.IsString, True⟩,
  ⟨"name", Doc.IsString, False⟩,
  ⟨"inherits", Doc.OptionalOf Doc.IsString, True⟩,
  ⟨"rules", Doc.MapOf rule, False⟩,
  ⟨"extras", Doc.OptionalOf (Doc.ListOf rule), True⟩,
  ⟨"externals", Doc.OptionalOf (Doc.ListOf rule), True⟩,
  ⟨"inline", Doc.OptionalOf names, True⟩,
  ⟨"precedences", Doc.OptionalOf (Doc.ListOf rules), True⟩,
  ⟨"conflicts", Doc.OptionalOf (Doc.ListOf nameLists), True⟩,
  ⟨"reserved", Doc.OptionalOf (Doc.MapOf rules), True⟩,
  ⟨"word", Doc.OptionalOf Doc.IsString, True⟩,
  ⟨"supertypes", Doc.OptionalOf names, True⟩]
where
  rule : Option (Doc → Prop) := inside Doc.RuleWithin room
  rules : Option (Doc → Prop) := inside (fun r => Doc.ListOf (inside Doc.RuleWithin r)) room
  names : Doc → Prop := Doc.ListOf (inside (fun _ => Doc.IsString) room)
  nameLists : Option (Doc → Prop) :=
    inside (fun r => Doc.ListOf (inside (fun _ => Doc.IsString) r)) room

end Grammar

/-- The document is a grammar in which brackets nest at most `room` deep. -/
def Json.Doc.GrammarWithin (room : Nat) : Doc → Prop :=
  Doc.RecordOf (inside Grammar.takenFields room)

namespace Grammar

theorem takes_layout (room : Nat) : (layout room).Takes (takenFields room) := by
  have rule (r : Nat) : Option.Rel Decoder.Takes (inside Rule.decoder r) (inside Doc.RuleWithin r) :=
    Decoder.takes_inside fun r _ => Rule.takes_decoder r
  have name (r : Nat) : Option.Rel Decoder.Takes (inside (fun _ => Decoder.string) r)
      (inside (fun _ => Doc.IsString) r) :=
    Decoder.takes_inside fun _ _ => Decoder.takes_string
  have rules : Option.Rel Decoder.Takes (layout.rules room) (takenFields.rules room) :=
    Decoder.takes_inside fun r _ => Decoder.takes_list (rule r)
  have names : (layout.names room).Takes (takenFields.names room) := Decoder.takes_list (name room)
  have nameLists : Option.Rel Decoder.Takes (layout.nameLists room) (takenFields.nameLists room) :=
    Decoder.takes_inside fun r _ => Decoder.takes_list (name r)
  exact {
    nodup := nodup_keys
    fields :=
      .cons (Field.takes_ofOptional Decoder.takes_string) <|
      .cons (Field.takes_ofRequired Decoder.takes_string) <|
      .cons (Field.takes_ofOptional Decoder.takes_string) <|
      .cons (Field.takes_ofRequired (Decoder.takes_nameMap (rule room))) <|
      .cons (Field.takes_ofOptional (Decoder.takes_list (rule room))) <|
      .cons (Field.takes_ofOptional (Decoder.takes_list (rule room))) <|
      .cons (Field.takes_ofOptional names) <|
      .cons (Field.takes_ofOptional (Decoder.takes_list rules)) <|
      .cons (Field.takes_ofOptional (Decoder.takes_list nameLists)) <|
      .cons (Field.takes_ofOptional (Decoder.takes_nameMap rules)) <|
      .cons (Field.takes_ofOptional Decoder.takes_string) <|
      .cons (Field.takes_ofOptional names) .nil }

theorem takes_decoder (room : Nat) : (decoder room).Takes (Doc.GrammarWithin room) := by
  refine Decoder.takes_record ?_
  cases room with
  | zero => exact .none
  | succ room => exact .some (takes_layout room)

/-- A text gives a grammar just if it spells a document that is a grammar and denotes this one. -/
theorem ofTables_eq_ok {text : String} {g : Grammar} : ofTables text = .ok g ↔
    ∃ v : Doc, v.IsText text ∧ v.GrammarWithin Json.nestingLimit ∧ v.DenotesGrammar g := by
  have hread {v : Doc} (htext : v.IsText text) :=
    (takes_decoder Json.nestingLimit).decode_eq_ok_iff (sound_decoder _) (Doc.determines_grammar g)
      htext
  constructor
  · intro h
    obtain ⟨v, htext, -⟩ := (sound_decoder Json.nestingLimit).decode h
    exact ⟨v, htext, (hread htext).mp h⟩
  · rintro ⟨v, htext, hv⟩
    exact (hread htext).mpr hv

end Grammar

end GrammarTables
