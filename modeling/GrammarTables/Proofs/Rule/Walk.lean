import GrammarTables.Rule.Walk
import Mathlib.Data.List.Basic

/-!
# Walks over a rule

All walks follow the list of nodes: a node, then what is below its content,
then what is below its members.
-/

namespace GrammarTables.Rule

/-- What holds of a node if it holds of its parts holds of all rules. -/
theorem ind {P : Rule → Prop} (node : ∀ r, (∀ s ∈ r.children, P s) → P r) (r : Rule) : P r := by
  refine @Rule.rec P (fun c => ∀ s ∈ c, P s) (fun ms => ∀ s ∈ ms, P s) ?_ ?_ ?_ ?_ ?_ r
  · intro k v n c ms d f x hc hms
    refine node _ fun s hs => ?_
    rcases List.mem_append.mp hs with hs | hs
    · exact hc s (Option.mem_toList.mp hs)
    · exact hms s hs
  · exact fun s hs => nomatch hs
  · exact fun r hr s hs => Option.mem_some.mp hs ▸ hr
  · exact fun s hs => nomatch hs
  · intro r rs hr hrs s hs
    rcases List.mem_cons.mp hs with rfl | hs
    · exact hr
    · exact hrs s hs

theorem mem_children {r s : Rule} : s ∈ r.children ↔ s ∈ r.content ∨ s ∈ r.members := by
  rw [children, List.mem_append, Option.mem_toList]
  rfl

/-! ## Nodes and symbols -/

theorem memberNodes_eq_flatMap (ms : List Rule) : memberNodes ms = ms.flatMap nodes := by
  induction ms with
  | nil => rfl
  | cons m ms ih => rw [memberNodes, ih, List.flatMap_cons]

theorem nodes_eq_cons (r : Rule) : r.nodes = r :: r.children.flatMap nodes := by
  obtain ⟨k, v, n, c, ms, d, f, x⟩ := r
  rw [nodes, memberNodes_eq_flatMap, children, List.flatMap_append]
  cases c <;> simp [contentNodes]

theorem memberSymbols_eq_flatMap (ms : List Rule) : memberSymbols ms = ms.flatMap symbols := by
  induction ms with
  | nil => rfl
  | cons m ms ih => rw [memberSymbols, ih, List.flatMap_cons]

theorem symbols_eq_append (r : Rule) :
    r.symbols = r.symbolName?.toList ++ r.children.flatMap symbols := by
  obtain ⟨k, v, n, c, ms, d, f, x⟩ := r
  rw [symbols, memberSymbols_eq_flatMap, children, List.flatMap_append]
  cases c <;> simp [contentSymbols]

/-- The symbols are the names of those nodes that are symbols and have one. -/
theorem symbols_eq_filterMap (r : Rule) : r.symbols = r.nodes.filterMap symbolName? := by
  induction r using ind with
  | node r ih =>
    rw [symbols_eq_append, nodes_eq_cons, List.filterMap_cons, List.filterMap_flatMap,
      List.flatMap_congr ih]
    cases r.symbolName? <;> rfl

theorem symbolName?_eq_some_iff {r : Rule} {name : String} :
    r.symbolName? = some name ↔ r.kind = .symbol ∧ r.name = some name := by
  rw [symbolName?]
  split <;> simp_all

theorem mem_symbols {r : Rule} {name : String} :
    name ∈ r.symbols ↔ ∃ node ∈ r.nodes, node.symbolName? = some name := by
  rw [symbols_eq_filterMap, List.mem_filterMap]

/-! ## Undefined symbols -/

theorem undefinedInMembers?_eq_findSome? (defined : String → Bool) (ms : List Rule) :
    undefinedInMembers? defined ms = ms.findSome? (undefinedSymbol? defined) := by
  induction ms with
  | nil => rfl
  | cons m ms ih =>
    rw [undefinedInMembers?, List.findSome?_cons, ih]
    cases m.undefinedSymbol? defined <;> rfl

theorem undefinedSymbol?_eq_or (defined : String → Bool) (r : Rule) :
    r.undefinedSymbol? defined = (r.symbolName?.filter (!defined ·)).or
      (r.children.findSome? (undefinedSymbol? defined)) := by
  obtain ⟨k, v, n, c, ms, d, f, x⟩ := r
  have content : undefinedInContent? defined c = c.toList.findSome? (undefinedSymbol? defined) := by
    cases c <;> simp [undefinedInContent?]
  rw [undefinedSymbol?, content, undefinedInMembers?_eq_findSome?, children, List.findSome?_append]
  cases (symbolName? ⟨k, v, n, c, ms, d, f, x⟩).filter (!defined ·) with
  | some name => rfl
  | none => cases c.toList.findSome? (undefinedSymbol? defined) <;> rfl

/-- The search for a name that is not defined stops at the first symbol that is not. -/
theorem undefinedSymbol?_eq_find? (defined : String → Bool) (r : Rule) :
    r.undefinedSymbol? defined = r.symbols.find? (!defined ·) := by
  induction r using ind with
  | node r ih =>
    have hchildren : r.children.findSome? (undefinedSymbol? defined) =
        r.children.findSome? fun s => s.symbols.find? (!defined ·) := by
      rw [← List.head?_filterMap, ← List.head?_filterMap, List.filterMap_congr ih]
    rw [symbols_eq_append, undefinedSymbol?_eq_or, List.find?_append, List.find?_flatMap, hchildren]
    cases r.symbolName? <;> simp [Option.filter]

end GrammarTables.Rule
