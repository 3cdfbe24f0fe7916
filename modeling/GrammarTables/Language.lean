import GrammarTables.Ascending
import GrammarTables.Grammar.Defect

/-!
# Languages

A language is a handle on a loaded grammar, which has no defects. Handles from
one load share their tables; handles from different loads do not, even if their
grammars are equal. So a handle knows the number of the load it comes from.
-/

namespace GrammarTables

structure Language where
  /-- The number of the load. -/
  load : Nat
  grammar : Grammar
  /-- Where the tables came from. -/
  origin : String
  sound : grammar.defect? = none

namespace Language

/-- The version of the tables that handles are made for. -/
def abiVersion : Nat := 15

def name (l : Language) : String := l.grammar.name

def ruleCount (l : Language) : Nat := l.grammar.rules.size

/-- The names of the rules, ascending. -/
def ruleNames (l : Language) : List String := l.grammar.rules.names

def rule? (l : Language) (name : String) : Option Rule := l.grammar.rule? name

def externalNames (l : Language) : List String := l.grammar.externalNames

/-- The names of the fields in the bodies of rules, ascending. -/
def fieldNames (l : Language) : List String :=
  Ascending.ofList (l.grammar.rules.entries.flatMap fun e => e.2.fieldNames)

/-- Whether two handles share their tables. -/
def shares (l m : Language) : Bool := l.load == m.load

end Language

end GrammarTables
