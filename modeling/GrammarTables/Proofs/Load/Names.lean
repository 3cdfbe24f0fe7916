import GrammarTables.Proofs.Grammar.Closed
import GrammarTables.Proofs.Grammar.Listing

/-!
# Names in a language

A handle lists the names of its rules and the labels in them. A label is the name of a field, and it
counts wherever the field is: below other fields too, and also in a rule that nothing leads to. Names
of other nodes are no labels.
-/

namespace GrammarTables

/-- A field of that name occurs in a rule, at any depth. -/
def Grammar.HasLabel (g : Grammar) (name : String) : Prop :=
  ∃ rule body, g.rule? rule = some body ∧
    ∃ node : Rule, node.Occurs body ∧ node.kind = .field ∧ node.name = some name

theorem Rule.mem_fieldNames {body : Rule} {name : String} : name ∈ body.fieldNames ↔
    ∃ node : Rule, node.Occurs body ∧ node.kind = .field ∧ node.name = some name := by
  have hfield (node : Rule) :
      node.fieldName? = some name ↔ node.kind = .field ∧ node.name = some name := by
    rw [fieldName?, Option.ite_none_right_eq_some]
  simp only [fieldNames, List.mem_filterMap, mem_nodes_iff, hfield]

namespace Language

variable {l : Language} {name : String}

theorem mem_ruleNames : name ∈ l.ruleNames ↔ ∃ body, l.grammar.rule? name = some body :=
  NameMap.mem_names_iff

theorem mem_fieldNames : name ∈ l.fieldNames ↔ l.grammar.HasLabel name := by
  simp only [fieldNames, Ascending.mem_ofList, List.mem_flatMap, Rule.mem_fieldNames]
  constructor
  · rintro ⟨⟨rule, body⟩, hmem, hnode⟩
    exact ⟨rule, body, NameMap.get?_eq_some_iff.mpr hmem, hnode⟩
  · rintro ⟨rule, body, hbody, hnode⟩
    exact ⟨(rule, body), NameMap.get?_eq_some_iff.mp hbody, hnode⟩

/-- The labels and the names of the rules are listed ascending by their bytes, each once and nothing
else, in whatever order the rules are stored. -/
theorem names_exact (l : Language) :
    (∀ names, l.fieldNames = names ↔
      (names.Pairwise fun a b => Text.utf8 a < Text.utf8 b) ∧
        ∀ name, name ∈ names ↔ l.grammar.HasLabel name) ∧
    (∀ names, l.ruleNames = names ↔
      (names.Pairwise fun a b => Text.utf8 a < Text.utf8 b) ∧
        ∀ name, name ∈ names ↔ ∃ body, l.grammar.rule? name = some body) ∧
    l.ruleNames.length = l.ruleCount ∧
    ∀ m : Listing, m.grammar = l.grammar →
      m.fieldNames = l.fieldNames ∧ m.ruleNames = l.ruleNames := by
  refine ⟨fun _ => ?_, fun _ => ?_, l.grammar.rules.length_names, fun m hm => ⟨?_, ?_⟩⟩
  · exact Ascending.eq_iff_utf8 (Ascending.pairwise_ofList _) fun _ => mem_fieldNames
  · exact Ascending.eq_iff_utf8 l.grammar.rules.ascends_names fun _ => mem_ruleNames
  · exact m.faithful.fieldNames l hm.symm
  · exact m.faithful.ruleNames l hm.symm

/-- A field inside a field, and names that are no labels. -/
def letters : Language where
  load := 0
  grammar :=
    { name := "letters",
      rules := ⟨[
        ("letter", { kind := .seq, members := [
          { kind := .field, name := some "to",
            content := some { kind := .field, name := some "for", content := some Grammar.blank } },
          { kind := .rename, name := some "from", content := some Grammar.blank }] }),
        ("spare", { kind := .field, name := some "to", content := some Grammar.blank })], by decide⟩ }
  origin := "letters"
  sound := by decide

example : letters.fieldNames = ["for", "to"] ∧ letters.ruleNames = ["letter", "spare"] := by decide

end Language

end GrammarTables
