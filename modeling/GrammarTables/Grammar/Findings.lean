import GrammarTables.Ascending
import GrammarTables.Event
import GrammarTables.Grammar.Defect

/-!
# Findings about sound grammars

A sound grammar may still have rules that nothing leads to, rules that begin
with themselves, and rules that mix levels of precedence. These are reported as
events and do not make the grammar unusable.
-/

namespace GrammarTables.Grammar

/-! ## Reachability -/

/-- The rules of `rest` that no chain of references from the names in `work` leads to, where `rest`
are the rules that have not been met so far. -/
def unreached (rest : List (String × Rule)) : List String → List (String × Rule)
  | [] => rest
  | name :: work =>
    match _h : rest.find? (·.1 == name) with
    | none => unreached rest work
    | some (_, body) => unreached (rest.eraseP (·.1 == name)) (body.symbols ++ work)
termination_by work => (rest.length, work.length)
decreasing_by
  · exact Prod.Lex.right _ (Nat.lt_succ_self _)
  · have hm := List.mem_of_find?_eq_some _h
    have hp := List.find?_some (p := fun (e : String × Rule) => e.1 == name) _h
    have := List.length_eraseP_of_mem (p := fun (e : String × Rule) => e.1 == name) hm hp
    have := List.length_pos_of_mem hm
    exact Prod.Lex.left _ _ (by omega)

/-- The names that parsing begins with: the start rules, what the extras refer to, and the word. -/
def entryNames (g : Grammar) : List String :=
  g.startRules ++ (g.extras.getD []).flatMap Rule.symbols ++ g.word.toList

def isInlined (g : Grammar) (name : String) : Bool := (g.inline.getD []).contains name

/-- The rules that nothing leads to and that are not inlined. -/
def unreachableRules (g : Grammar) : List String :=
  ((unreached g.rules.entries g.entryNames).map (·.1)).filter fun name => !g.isInlined name

def reachabilityFindings (g : Grammar) : List Event :=
  match g.startRules with
  | [] => [.noEntryPoint g.name]
  | [_] => unreachable
  | roots => .ambiguousEntryPoint g.name roots :: unreachable
where
  unreachable : List Event := g.unreachableRules.map (.unreachableRule g.name)

/-! ## Single rules -/

/-- The rules that may begin with a reference to themselves. -/
def leftRecursiveRules (g : Grammar) : List String :=
  (g.rules.entries.filter fun (name, body) => body.startsWith name).map (·.1)

/-- The rules with precedences of several levels, and those levels. -/
def mixedRules (g : Grammar) : List (String × List Int32) :=
  (g.rules.entries.map fun (name, body) => (name, Ascending.ofList body.levels)).filter
    fun (_, levels) => 1 < levels.length

/-- All findings about a sound grammar. -/
def findings (g : Grammar) : List Event :=
  g.reachabilityFindings ++
  g.leftRecursiveRules.map (.leftRecursiveRule g.name) ++
  g.mixedRules.map fun (name, levels) => .mixedLevels g.name name levels

/-- Looks for a defect, and reports the findings if there is none. -/
def check (g : Grammar) : Logged (Option Defect) :=
  match g.defect? with
  | some d => ⟨some d, []⟩
  | none => ⟨none, g.findings⟩

end GrammarTables.Grammar
