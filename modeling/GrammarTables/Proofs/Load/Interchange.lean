import GrammarTables.Proofs.Grammar.RoundTrip
import GrammarTables.Proofs.Load.Acceptance

/-!
# Built grammars and their texts

It does not matter whether a source hands over a grammar as it was built or the text that is
written for it: a load ends in the same way and reports the same. Only the numbers of the loads
tell the handles apart.
-/

namespace GrammarTables

/-- Handles that show the same, though they may come from different loads. -/
structure Language.Alike (l m : Language) : Prop where
  grammar : l.grammar = m.grammar
  origin : l.origin = m.origin
  name : l.name = m.name
  ruleNames : l.ruleNames = m.ruleNames
  externalNames : l.externalNames = m.externalNames
  fieldNames : l.fieldNames = m.fieldNames
  startRules : l.grammar.startRules = m.grammar.startRules

theorem Language.alike {l m : Language} (hg : l.grammar = m.grammar) (ho : l.origin = m.origin) :
    l.Alike m := by
  obtain ⟨n, g, origin, sound⟩ := l
  obtain ⟨k, g', origin', sound'⟩ := m
  cases hg
  cases ho
  exact ⟨rfl, rfl, rfl, rfl, rfl, rfl, rfl⟩

/-- Two loads that both give a handle, and on the same, or that both fail for the same reason. -/
inductive SameOutcome : Except LoadError Language → Except LoadError Language → Prop where
  | loaded {l m : Language} : l.Alike m → SameOutcome (.ok l) (.ok m)
  | failed (e : LoadError) : SameOutcome (.error e) (.error e)

namespace Grammar

/-- The number of a load shows in nothing but the handle. -/
theorem accept_alike (g : Grammar) (origin name : String) (n m : Nat) :
    SameOutcome ((g.accept n origin name).value.mapError fun cause => ⟨name, cause⟩)
        ((g.accept m origin name).value.mapError fun cause => ⟨name, cause⟩) ∧
      (g.accept n origin name).events = (g.accept m origin name).events := by
  cases hm : g.mismatch? name with
  | some reason =>
    rw [accept_of_mismatch hm, accept_of_mismatch hm]
    exact ⟨.failed _, rfl⟩
  | none =>
    cases hd : g.check.value with
    | some d =>
      rw [accept_of_defect hm hd, accept_of_defect hm hd]
      exact ⟨.failed _, rfl⟩
    | none =>
      have ha := acceptable_of_mismatch? hm hd
      obtain ⟨l, hl, hg, ho⟩ := accept_of_acceptable ha n origin
      obtain ⟨k, hk, hg', ho'⟩ := accept_of_acceptable ha m origin
      rw [hl, hk]
      exact ⟨.loaded (Language.alike (hg.trans hg'.symm) (ho.trans ho'.symm)), rfl⟩

/-- The tables of a grammar are read as that grammar. -/
theorem grammar_text_tables {g : Grammar} (h : Json.nesting g.tables ≤ 127) (origin : String) :
    (Tables.text origin g.tables).grammar = .ok g := by
  have hread : ofTables g.tables = .ok g := (g.reads_toJson.decode Json.nestingLimit).read h
  rw [Tables.grammar, hread]
  rfl

end Grammar

namespace Source

/-- A source that has a grammar and one that has its tables, with the same origin, are loaded from
with the same outcome, and what is reported besides the sources' own reports is the same. -/
theorem load_built_text {g : Grammar} (hn : Json.nesting g.tables ≤ 127) {name origin : String}
    {a b : Source} (ha : (a.resolve name).value = .ok (.built origin g))
    (hb : (b.resolve name).value = .ok (.text origin g.tables)) (n m : Nat) :
    SameOutcome (a.load n name).value (b.load m name).value ∧
      ∃ events, (a.load n name).events = (a.resolve name).events ++ events ∧
        (b.load m name).events = (b.resolve name).events ++ events := by
  obtain ⟨hvalue, hevents⟩ := g.accept_alike origin name n m
  rw [load_of_grammar ha rfl, load_of_grammar hb (Grammar.grammar_text_tables hn origin)]
  exact ⟨hvalue, _, rfl, congrArg _ hevents.symm⟩

/-- A grammar with a rule in a rule, as it is and as a text. -/
def repetition : Grammar where
  name := "words"
  rules := .ofList [("text",
    { kind := .repeat0, content := some { kind := .string, value := some (.text "\"") } })]

theorem load_built_text_repetition :
    Json.nesting repetition.tables = 4 ∧
      SameOutcome ((silent fun _ => .ok (.built "here" repetition)).load 0 "words").value
        ((silent fun _ => .ok (.text "here" repetition.tables)).load 1 "words").value ∧
      SameOutcome ((silent fun _ => .ok (.built "here" repetition)).load 0 "others").value
        ((silent fun _ => .ok (.text "here" repetition.tables)).load 1 "others").value := by
  have hn : Json.nesting repetition.tables = 4 := Json.nesting_text repetition.toJson
  have hle : Json.nesting repetition.tables ≤ 127 := hn ▸ by decide
  exact ⟨hn, (load_built_text hle rfl rfl 0 1).1, (load_built_text hle rfl rfl 0 1).1⟩

end Source

end GrammarTables
