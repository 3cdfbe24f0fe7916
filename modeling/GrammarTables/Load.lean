import GrammarTables.Grammar.Findings
import GrammarTables.Grammar.Tables
import GrammarTables.Language
import GrammarTables.Source

/-!
# Loading

A grammar is loaded by asking a source for its tables, reading them if they are
a text, making sure that they are the tables asked for, and checking them. Each
load gets a number.
-/

namespace GrammarTables

/-- The grammar of some tables. -/
def Tables.grammar : Tables → Except LoadError.Cause Grammar
  | text _ json => (Grammar.ofTables json).mapError fun f => .malformed (f.message json)
  | built _ g => .ok g

/-- Why a grammar is not the one asked for. -/
def Grammar.mismatch? (g : Grammar) (name : String) : Option String :=
  match g.schema.filter (· != schemaAddress) with
  | some schema => some ("unsupported schema '" ++ schema ++ "'")
  | none => if g.name = name then none else some ("tables are for grammar '" ++ g.name ++ "'")

/-- Makes a handle on a grammar that has no defects. -/
def Grammar.language (g : Grammar) (load : Nat) (origin : String) : Except Grammar.Defect Language :=
  match h : g.defect? with
  | none => .ok ⟨load, g, origin, h⟩
  | some d => .error d

/-- Accepts a grammar from `origin` as the one called `name`. -/
def Grammar.accept (g : Grammar) (load : Nat) (origin name : String) :
    Logged (Except LoadError.Cause Language) :=
  match g.mismatch? name with
  | some reason => ⟨.error (.incompatible reason), []⟩
  | none =>
    match g.language load origin with
    | .error d => ⟨.error (.invalid d), []⟩
    | .ok l => ⟨.ok l, g.findings ++ [.loaded name origin g.rules.size]⟩

/-- Loads the grammar called `name`, as load number `load`. -/
def Source.load (source : Source) (load : Nat) (name : String) :
    Logged (Except LoadError Language) := do
  match ← source.resolve name with
  | .error e => return .error e
  | .ok tables =>
    match tables.grammar with
    | .error cause => return .error ⟨name, cause⟩
    | .ok g => return (← g.accept load tables.origin name).mapError fun cause => ⟨name, cause⟩

end GrammarTables
