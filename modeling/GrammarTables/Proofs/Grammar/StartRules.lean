import GrammarTables.Proofs.Grammar.Closed
import GrammarTables.Proofs.Grammar.Listing
import GrammarTables.Proofs.Grammar.Reachability

/-!
# Start rules

Parsing may start with any visible rule that no other rule refers to. What counts is every symbol
at any depth of every other rule, hidden and unreachable ones as well, but no symbol in the rule
itself. So neither the order of the rules nor the place of a reference makes a difference.
-/

namespace GrammarTables

namespace Grammar

/-- A visible rule that no symbol in any other rule names. -/
structure IsRoot (g : Grammar) (name : String) : Prop where
  isRule : ∃ body, g.rule? name = some body
  visible : ∀ rest, name ≠ "_" ++ rest
  unreferenced : ∀ other body, g.rule? other = some body → other ≠ name →
    ∀ node : Rule, node.Occurs body → node.kind = .symbol → node.name ≠ some name

variable {g : Grammar} {name : String}

theorem isVisible_iff : isVisible name ↔ ∀ rest, name ≠ "_" ++ rest := by
  rw [isVisible, bne_iff_ne]
  constructor
  · rintro h rest rfl
    simp at h
  · intro h hhead
    obtain ⟨rest, hrest⟩ := List.head?_eq_some_iff.mp hhead
    exact h (String.ofList rest) (String.toList_inj.mp (by simp [hrest]))

/-- A rule is linked to a name if a symbol of that name occurs in its body. -/
theorem links_iff_occurs {a b : String} : g.Links a b ↔
    ∃ body, g.rule? a = some body ∧
      ∃ node : Rule, node.Occurs body ∧ node.kind = .symbol ∧ node.name = some b := by
  simp only [Links, Rule.mem_nodes_iff, Rule.symbolName?_eq_some_iff]

/-- Only the rule's own references do not count. -/
theorem isReferenced_iff : g.isReferenced name ↔ ∃ other, other ≠ name ∧ g.Links other name := by
  simp only [isReferenced, List.any_eq_true, Bool.and_eq_true, bne_iff_ne, List.contains_iff_mem,
    links_iff]
  constructor
  · rintro ⟨⟨other, body⟩, hmem, hne, hsymbol⟩
    exact ⟨other, hne, body, hmem, hsymbol⟩
  · rintro ⟨other, hne, body, hmem, hsymbol⟩
    exact ⟨(other, body), hmem, hne, hsymbol⟩

theorem isRoot_iff : g.IsRoot name ↔
    name ∈ g.rules.names ∧ isVisible name ∧ ∀ other, g.Links other name → other = name := by
  constructor
  · rintro ⟨isRule, visible, unreferenced⟩
    refine ⟨NameMap.mem_names_iff.mpr isRule, isVisible_iff.mpr visible, fun other hl => ?_⟩
    obtain ⟨body, hbody, node, hnode, hkind, hname⟩ := links_iff_occurs.mp hl
    by_contra hne
    exact unreferenced other body hbody hne node hnode hkind hname
  · rintro ⟨hmem, hvisible, honly⟩
    refine ⟨NameMap.mem_names_iff.mp hmem, isVisible_iff.mp hvisible, ?_⟩
    intro other body hbody hne node hnode hkind hname
    exact hne (honly other (links_iff_occurs.mpr ⟨body, hbody, node, hnode, hkind, hname⟩))

theorem mem_startRules : name ∈ g.startRules ↔ g.IsRoot name := by
  rw [startRules, List.mem_filter, Bool.and_eq_true, Bool.not_eq_true', ← Bool.not_eq_true,
    isReferenced_iff, isRoot_iff]
  grind

/-- The start rules are the only ascending list of the roots. -/
theorem startRules_eq_iff {names : List String} : g.startRules = names ↔
    (names.Pairwise fun a b => Text.utf8 a < Text.utf8 b) ∧
      ∀ name, name ∈ names ↔ g.IsRoot name :=
  Ascending.eq_iff_utf8 (g.rules.ascends_names.filter _) fun _ => mem_startRules

theorem startRule?_eq_some_iff : g.startRule? = some name ↔ g.startRules = [name] := by
  rw [startRule?]
  split
  · next only h => rw [h, Option.some_inj, List.singleton_inj]
  · next h => exact ⟨nofun, fun hone => (h name hone).elim⟩

/-- The start rules are the roots, ascending by their bytes, in whatever order the rules are given;
and there is a start rule just if there is one root. -/
theorem startRules_exact (g : Grammar) :
    (∀ names, g.startRules = names ↔
      (names.Pairwise fun a b => Text.utf8 a < Text.utf8 b) ∧
        ∀ name, name ∈ names ↔ g.IsRoot name) ∧
    (∀ name, g.startRule? = some name ↔ g.startRules = [name]) ∧
    ∀ l : Listing, l.grammar = g → l.startRules = g.startRules ∧ l.startRule? = g.startRule? := by
  refine ⟨fun _ => startRules_eq_iff, fun _ => startRule?_eq_some_iff, ?_⟩
  rintro l rfl
  exact ⟨l.startRules_eq, l.startRule?_eq⟩

/-- Lists and books refer to themselves, and a hidden rule that nothing leads to refers to notes. -/
def catalogue : Grammar where
  name := "catalogue"
  rules := ⟨[
    ("_spare", reference (some "note")),
    ("book", { kind := .choice, members := [reference (some "title"), reference (some "book")] }),
    ("list", { kind := .seq, members := [reference (some "book"), reference (some "list")] }),
    ("note", blank),
    ("title", blank)], by decide⟩

def catalogueReversed : Listing where
  rest := catalogue
  defs := catalogue.rules.entries.reverse
  distinct := by decide

theorem startRules_exact_catalogue :
    (∀ name, name ∈ ["list"] ↔ catalogue.IsRoot name) ∧ catalogue.startRule? = some "list" ∧
      catalogueReversed.startRules = ["list"] := by
  obtain ⟨hexact, hone, hlisting⟩ := startRules_exact catalogue
  have hroots : catalogue.startRules = ["list"] := by decide
  have hgrammar : catalogueReversed.grammar = catalogue := by decide
  exact ⟨((hexact _).mp hroots).2, (hone _).mpr hroots,
    (hlisting catalogueReversed hgrammar).1.trans hroots⟩

end Grammar

end GrammarTables
