import GrammarTables.Grammar.Findings
import GrammarTables.Proofs.NameMap
import GrammarTables.Proofs.Rule.Walk
import GrammarTables.Proofs.Text.ByteOrder
import GrammarTables.Proofs.Text.CharClass

/-!
# Violations

All that is wrong with a grammar, one section after the other. A check reports
the first of it and nothing else, and finds a grammar sound only if there is
nothing.
-/

namespace GrammarTables.Grammar

/-- A rule may refer to rules and to external tokens. -/
def Defined (g : Grammar) (name : String) : Prop :=
  name ∈ g.rules.names ∨ name ∈ g.externalNames

instance (g : Grammar) : DecidablePred g.Defined :=
  fun _ => inferInstanceAs (Decidable (_ ∈ _ ∨ _ ∈ _))

theorem hasRule_eq (g : Grammar) (name : String) :
    g.hasRule name = decide (name ∈ g.rules.names) := by
  rw [Bool.eq_iff_iff, decide_eq_true_iff]
  exact NameMap.contains_iff

theorem isDefined_eq (g : Grammar) (name : String) :
    g.isDefined name = decide (g.Defined name) := by
  rw [isDefined, hasRule_eq, ← List.elem_eq_contains, List.elem_eq_mem]
  exact (Bool.decide_or _ _).symm

/-- What is not defined of the names that the symbols in a rule have, a node coming before its
content and the content before the members. -/
def undefinedNames (g : Grammar) (body : Rule) : List String :=
  (body.nodes.filterMap Rule.symbolName?).filter fun name => ¬ g.Defined name

/-- What is no rule of the names in a section. -/
def undeclaredNames (g : Grammar) (place : Section) (names : List String) : List Defect :=
  (names.filter (· ∉ g.rules.names)).map (.undefinedDeclaration · place)

/-- All violations in their order. -/
def violations (g : Grammar) : List Defect :=
  (if g.name.toList.all (Text.IsWhiteSpace ·) then [.noName] else []) ++
  (if g.rules.entries = [] then [.noRules] else []) ++
  (g.rules.entries.flatMap fun (name, body) =>
    (g.undefinedNames body).map (.undefinedSymbol · name)) ++
  ((g.extras.getD []).flatMap fun body =>
    (g.undefinedNames body).map (.undefinedSymbol · "extras")) ++
  g.undeclaredNames .word g.word.toList ++
  g.undeclaredNames .inline (g.inline.getD []) ++
  g.undeclaredNames .supertypes (g.supertypes.getD []) ++
  g.undeclaredNames .conflicts (g.conflicts.getD []).flatten

theorem head?_undefinedNames (g : Grammar) (body : Rule) :
    (g.undefinedNames body).head? = body.undefinedSymbol? g.isDefined := by
  rw [undefinedNames, List.head?_filter, Rule.undefinedSymbol?_eq_find?, Rule.symbols_eq_filterMap]
  simp only [isDefined_eq, decide_not]

theorem undefinedReference?_eq (g : Grammar) :
    g.undefinedReference? =
      ((g.rules.entries.flatMap fun (name, body) =>
          (g.undefinedNames body).map (Defect.undefinedSymbol · name)) ++
        (g.extras.getD []).flatMap fun body =>
          (g.undefinedNames body).map (Defect.undefinedSymbol · "extras")).head? := by
  simp only [undefinedReference?, bodies, List.findSome?_append, List.findSome?_map,
    List.head?_append, List.head?_flatMap, List.head?_map, head?_undefinedNames]
  rfl

theorem head?_undeclaredNames (g : Grammar) (place : Section) (names : List String) :
    (g.undeclaredNames place names).head? =
      ((names.map (place, ·)).find? fun (_, name) => !g.hasRule name).map
        fun (place, name) => Defect.undefinedDeclaration name place := by
  rw [undeclaredNames, List.head?_map, List.head?_filter, List.find?_map, Option.map_map]
  simp only [Function.comp_def, hasRule_eq, decide_not]

theorem undefinedDeclaration?_eq (g : Grammar) :
    g.undefinedDeclaration? =
      (g.undeclaredNames .word g.word.toList ++
        g.undeclaredNames .inline (g.inline.getD []) ++
        g.undeclaredNames .supertypes (g.supertypes.getD []) ++
        g.undeclaredNames .conflicts (g.conflicts.getD []).flatten).head? := by
  simp only [undefinedDeclaration?, declarations, List.head?_append, head?_undeclaredNames,
    List.find?_append, Option.map_or]

theorem defect?_eq (g : Grammar) : g.defect? = g.violations.head? := by
  unfold defect?
  by_cases hn : Text.isWhite g.name
  · rw [if_pos hn, violations, ← Text.isWhite_eq, if_pos hn]
    rfl
  rw [if_neg hn, violations, ← Text.isWhite_eq, if_neg hn]
  by_cases hr : g.rules.entries = []
  · rw [NameMap.isEmpty, hr]
    rfl
  · rw [if_neg (by simpa [NameMap.isEmpty] using hr), if_neg hr, undefinedReference?_eq,
      undefinedDeclaration?_eq, ← List.head?_append]
    simp only [List.append_assoc, List.nil_append]

/-! ## Sound grammars -/

/-- Nothing is wrong with the grammar. -/
structure IsSound (g : Grammar) : Prop where
  named : ¬ g.name.toList.all (Text.IsWhiteSpace ·)
  rules : g.rules.entries ≠ []
  bodies : ∀ entry ∈ g.rules.entries, g.undefinedNames entry.2 = []
  extras : ∀ body ∈ g.extras.getD [], g.undefinedNames body = []
  declared : ∀ declaration ∈ g.declarations, declaration.2 ∈ g.rules.names

theorem undeclaredNames_eq_nil_iff {g : Grammar} {place : Section} {names : List String} :
    g.undeclaredNames place names = [] ↔ ∀ name ∈ names, name ∈ g.rules.names := by
  simp [undeclaredNames, List.filter_eq_nil_iff]

theorem violations_eq_nil_iff {g : Grammar} : g.violations = [] ↔ g.IsSound := by
  have hdeclared : (∀ declaration ∈ g.declarations, declaration.2 ∈ g.rules.names) ↔
      (((∀ name ∈ g.word.toList, name ∈ g.rules.names) ∧
        ∀ name ∈ g.inline.getD [], name ∈ g.rules.names) ∧
        ∀ name ∈ g.supertypes.getD [], name ∈ g.rules.names) ∧
        ∀ name ∈ (g.conflicts.getD []).flatten, name ∈ g.rules.names := by
    simp only [declarations, List.forall_mem_append, List.forall_mem_map]
  simp only [violations, List.append_eq_nil_iff, List.flatMap_eq_nil_iff, List.map_eq_nil_iff,
    undeclaredNames_eq_nil_iff, ite_eq_right_iff, List.cons_ne_nil, imp_false]
  constructor
  · rintro ⟨⟨⟨⟨⟨⟨⟨named, rules⟩, bodies⟩, extras⟩, hword⟩, hinline⟩, hsupertypes⟩, hconflicts⟩
    exact ⟨named, rules, bodies, extras, hdeclared.mpr ⟨⟨⟨hword, hinline⟩, hsupertypes⟩, hconflicts⟩⟩
  · rintro ⟨named, rules, bodies, extras, declared⟩
    obtain ⟨⟨⟨hword, hinline⟩, hsupertypes⟩, hconflicts⟩ := hdeclared.mp declared
    exact ⟨⟨⟨⟨⟨⟨⟨named, rules⟩, bodies⟩, extras⟩, hword⟩, hinline⟩, hsupertypes⟩, hconflicts⟩

theorem isSound_iff {g : Grammar} : g.check.value = none ↔ g.IsSound := by
  rw [← violations_eq_nil_iff, ← List.head?_eq_none_iff, ← defect?_eq, check]
  cases g.defect? <;> simp

/-- A check walks the rules in the order of the bytes of their names, and its outcome is the first
violation. -/
theorem check_value (g : Grammar) :
    (g.rules.entries.Pairwise fun a b => Text.utf8 a.1 < Text.utf8 b.1) ∧
      g.check.value = g.violations.head? := by
  refine ⟨g.rules.ascends.imp Text.utf8_lt, ?_⟩
  rw [← defect?_eq, check]
  cases g.defect? <;> rfl

end GrammarTables.Grammar
