import GrammarTables.Load
import Mathlib.Tactic.ByContra

/-!
# Acceptance of grammars

A load goes through when the tables are found, hold a grammar, and the grammar is acceptable under
the name that was asked for. In every other case it is refused, and the first thing that is wrong
is the reason.
-/

namespace GrammarTables

/-- The tables are those of the grammar, or a text of them. -/
inductive Tables.Holds : Tables → Grammar → Prop where
  | built (origin : String) (g : Grammar) : Holds (.built origin g) g
  | text {origin json : String} {g : Grammar} : Grammar.ofTables json = .ok g →
      Holds (.text origin json) g

theorem Tables.holds_iff {tables : Tables} {g : Grammar} :
    tables.Holds g ↔ tables.grammar = .ok g := by
  constructor
  · rintro (_ | h)
    · rfl
    · rw [Tables.grammar, h]
      rfl
  · intro h
    cases tables with
    | built origin =>
      cases h
      exact .built origin g
    | text origin json =>
      rw [Tables.grammar] at h
      cases hj : Grammar.ofTables json with
      | error f => rw [hj] at h; cases h
      | ok g' =>
        rw [hj] at h
        cases h
        exact .text hj

theorem Tables.grammar_of_malformed {origin json : String} {f : Json.Failure}
    (h : Grammar.ofTables json = .error f) :
    (text origin json).grammar = .error (.malformed (f.message json)) := by
  rw [grammar, h]
  rfl

namespace Grammar

/-- No foreign schema is named. -/
def SchemaFits (g : Grammar) : Prop := ∀ schema, g.schema = some schema → schema = schemaAddress

/-- The grammar can be loaded as `name`. -/
structure Acceptable (g : Grammar) (name : String) : Prop where
  schema : g.SchemaFits
  name : g.name = name
  sound : g.check.value = none

variable {g : Grammar} {name schema : String} {d : Defect}

theorem value_check (g : Grammar) : g.check.value = g.defect? := by
  unfold check
  cases g.defect? <;> rfl

theorem filter_schema (h : g.SchemaFits) : g.schema.filter (· != schemaAddress) = none := by
  cases hs : g.schema with
  | none => rfl
  | some schema => simp [Option.filter, h schema hs]

theorem mismatch?_of_foreign (hs : g.schema = some schema) (h : schema ≠ schemaAddress) :
    g.mismatch? name = some ("unsupported schema '" ++ schema ++ "'") := by
  simp [mismatch?, hs, Option.filter, h]

theorem mismatch?_of_misnamed (hs : g.SchemaFits) (h : g.name ≠ name) :
    g.mismatch? name = some ("tables are for grammar '" ++ g.name ++ "'") := by
  simp [mismatch?, filter_schema hs, h]

theorem mismatch?_of_fits (hs : g.SchemaFits) (h : g.name = name) : g.mismatch? name = none := by
  simp [mismatch?, filter_schema hs, h]

theorem acceptable_of_mismatch? (hm : g.mismatch? name = none) (hd : g.check.value = none) :
    g.Acceptable name := by
  refine ⟨?_, ?_, hd⟩
  · intro schema hs
    by_contra hne
    rw [mismatch?_of_foreign hs hne] at hm
    cases hm
  · unfold mismatch? at hm
    split at hm
    · cases hm
    · split at hm
      · assumption
      · cases hm

/-! ## Handles -/

section Accept

variable {load : Nat} {origin : String}

theorem language_of_defect (hd : g.defect? = some d) : g.language load origin = .error d := by
  unfold language
  split
  · next hn => rw [hd] at hn; cases hn
  · next hn => rw [hd] at hn; cases hn; rfl

theorem language_of_sound (hd : g.defect? = none) :
    g.language load origin = .ok ⟨load, g, origin, hd⟩ := by
  unfold language
  split
  · rfl
  · next hn => rw [hd] at hn; cases hn

theorem accept_of_mismatch {reason : String} (h : g.mismatch? name = some reason) :
    g.accept load origin name = ⟨.error (.incompatible reason), []⟩ := by
  rw [accept, h]

theorem accept_of_defect (hm : g.mismatch? name = none) (hd : g.check.value = some d) :
    g.accept load origin name = ⟨.error (.invalid d), []⟩ := by
  rw [value_check] at hd
  rw [accept, hm, language_of_defect hd]

theorem accept_of_acceptable (h : g.Acceptable name) (load : Nat) (origin : String) :
    ∃ l, g.accept load origin name =
        ⟨.ok l, g.findings ++ [.loaded name origin g.rules.size]⟩ ∧
      l.grammar = g ∧ l.origin = origin := by
  have hd : g.defect? = none := g.value_check ▸ h.sound
  rw [accept, mismatch?_of_fits h.schema h.name, language_of_sound hd]
  exact ⟨_, rfl, rfl, rfl⟩

end Accept

end Grammar

namespace Source

variable {source : Source} {load : Nat} {name : String} {tables : Tables} {g : Grammar}

theorem load_of_error {e : LoadError} (h : (source.resolve name).value = .error e) :
    source.load load name = ⟨.error e, (source.resolve name).events⟩ := by
  show (source.resolve name >>= _) = _
  simp [bind, pure, h]

theorem load_of_malformed {cause : LoadError.Cause} (h : (source.resolve name).value = .ok tables)
    (hg : tables.grammar = .error cause) :
    source.load load name = ⟨.error ⟨name, cause⟩, (source.resolve name).events⟩ := by
  show (source.resolve name >>= _) = _
  simp [bind, pure, h, hg]

theorem load_of_grammar (h : (source.resolve name).value = .ok tables)
    (hg : tables.grammar = .ok g) :
    source.load load name =
      ⟨(g.accept load tables.origin name).value.mapError fun cause => ⟨name, cause⟩,
        (source.resolve name).events ++ (g.accept load tables.origin name).events⟩ := by
  show (source.resolve name >>= _) = _
  simp [bind, pure, h, hg]

/-! ## What a load gives -/

/-- Why nothing is loaded as `name`, given what the source has for it. What comes first is the
reason; each line says that nothing above it is wrong. -/
inductive Refused (found : Except LoadError Tables) (name : String) : LoadError → Prop where
  | notResolved {e : LoadError} : found = .error e → Refused found name e
  | malformed {origin json : String} {f : Json.Failure} :
      found = .ok (.text origin json) → Grammar.ofTables json = .error f →
      Refused found name ⟨name, .malformed (f.message json)⟩
  | foreign {tables : Tables} {g : Grammar} {schema : String} :
      found = .ok tables → tables.Holds g → g.schema = some schema →
      schema ≠ Grammar.schemaAddress →
      Refused found name ⟨name, .incompatible ("unsupported schema '" ++ schema ++ "'")⟩
  | misnamed {tables : Tables} {g : Grammar} :
      found = .ok tables → tables.Holds g → g.SchemaFits → g.name ≠ name →
      Refused found name ⟨name, .incompatible ("tables are for grammar '" ++ g.name ++ "'")⟩
  | invalid {tables : Tables} {g : Grammar} {d : Grammar.Defect} :
      found = .ok tables → tables.Holds g → g.SchemaFits → g.name = name →
      g.check.value = some d → Refused found name ⟨name, .invalid d⟩

theorem load_of_acceptable (h : (source.resolve name).value = .ok tables) (hg : tables.Holds g)
    (ha : g.Acceptable name) (load : Nat) :
    ∃ l, (source.load load name).value = .ok l ∧ l.grammar = g ∧ l.origin = tables.origin := by
  obtain ⟨l, hl, hgrammar, horigin⟩ :=
    Grammar.accept_of_acceptable ha load tables.origin
  rw [load_of_grammar h (Tables.holds_iff.mp hg), hl]
  exact ⟨l, rfl, hgrammar, horigin⟩

theorem load_of_refused {e : LoadError} (h : Refused (source.resolve name).value name e) :
    (source.load load name).value = .error e := by
  cases h with
  | notResolved h => rw [load_of_error h]
  | malformed h hf => rw [load_of_malformed h (Tables.grammar_of_malformed hf)]
  | foreign h hg hs hne =>
    rw [load_of_grammar h (Tables.holds_iff.mp hg),
      Grammar.accept_of_mismatch (Grammar.mismatch?_of_foreign hs hne)]
    rfl
  | misnamed h hg hs hne =>
    rw [load_of_grammar h (Tables.holds_iff.mp hg),
      Grammar.accept_of_mismatch (Grammar.mismatch?_of_misnamed hs hne)]
    rfl
  | invalid h hg hs hn hd =>
    rw [load_of_grammar h (Tables.holds_iff.mp hg),
      Grammar.accept_of_defect (Grammar.mismatch?_of_fits hs hn) hd]
    rfl

/-- A load is refused, or the source has tables of an acceptable grammar. -/
theorem refused_or_acceptable (found : Except LoadError Tables) (name : String) :
    (∃ e, Refused found name e) ∨
      ∃ tables g, found = .ok tables ∧ tables.Holds g ∧ g.Acceptable name := by
  cases found with
  | error e => exact .inl ⟨e, .notResolved rfl⟩
  | ok tables =>
    cases hg : tables.grammar with
    | error cause =>
      cases tables with
      | built => cases hg
      | text origin json =>
        rw [Tables.grammar] at hg
        cases hj : Grammar.ofTables json with
        | error f => exact .inl ⟨_, .malformed rfl hj⟩
        | ok g => rw [hj] at hg; cases hg
    | ok g =>
      have hg := Tables.holds_iff.mpr hg
      by_cases hs : g.SchemaFits
      · by_cases hn : g.name = name
        · cases hd : g.check.value with
          | some d => exact .inl ⟨_, .invalid rfl hg hs hn hd⟩
          | none => exact .inr ⟨tables, g, rfl, hg, hs, hn, hd⟩
        · exact .inl ⟨_, .misnamed rfl hg hs hn⟩
      · unfold Grammar.SchemaFits at hs
        obtain ⟨schema, hs⟩ := Classical.not_forall.mp hs
        obtain ⟨hs, hne⟩ := Classical.not_imp.mp hs
        exact .inl ⟨_, .foreign rfl hg hs hne⟩

theorem load_eq_ok_iff {g : Grammar} {origin : String} :
    (∃ l, (source.load load name).value = .ok l ∧ l.grammar = g ∧ l.origin = origin) ↔
      ∃ tables, (source.resolve name).value = .ok tables ∧ tables.Holds g ∧
        tables.origin = origin ∧ g.Acceptable name := by
  constructor
  · rintro ⟨l, hl, rfl, rfl⟩
    rcases refused_or_acceptable (source.resolve name).value name with
      ⟨e, he⟩ | ⟨tables, g, h, hg, ha⟩
    · rw [load_of_refused he] at hl
      cases hl
    · obtain ⟨l', hl', rfl, ho⟩ := load_of_acceptable h hg ha load
      rw [hl'] at hl
      cases hl
      exact ⟨tables, h, hg, ho.symm, ha⟩
  · rintro ⟨tables, h, hg, rfl, ha⟩
    exact load_of_acceptable h hg ha load

theorem load_eq_error_iff {e : LoadError} :
    (source.load load name).value = .error e ↔ Refused (source.resolve name).value name e := by
  refine ⟨fun h => ?_, load_of_refused⟩
  rcases refused_or_acceptable (source.resolve name).value name with
    ⟨e', he⟩ | ⟨tables, g, hfound, hg, ha⟩
  · rw [load_of_refused he] at h
    cases h
    exact he
  · obtain ⟨l, hl, -, -⟩ := load_of_acceptable hfound hg ha load
    rw [hl] at h
    cases h

/-- What is loaded is acceptable under the name that was asked for. -/
theorem acceptable_of_load {l : Language} (h : (source.load load name).value = .ok l) :
    l.grammar.Acceptable name := by
  obtain ⟨-, -, -, -, ha⟩ := load_eq_ok_iff.mp ⟨l, h, rfl, rfl⟩
  exact ha

end Source

end GrammarTables
