import GrammarTables.NameMap
import GrammarTables.Rule.Walk

/-!
# Grammars

A grammar maps the names of its rules to their bodies. Around the rules stand
sections that may be absent; an absent section is not the same as an empty one.
-/

namespace GrammarTables

structure Grammar where
  /-- The address of the schema that the tables follow. -/
  schema : Option String := none
  name : String
  /-- The grammar that this one extends. -/
  inherits : Option String := none
  rules : NameMap Rule
  /-- Rules that may appear between any two tokens. -/
  extras : Option (List Rule) := none
  /-- Tokens that a scanner outside the grammar makes. -/
  externals : Option (List Rule) := none
  /-- Names of rules that are expanded where they are used. -/
  inline : Option (List String) := none
  /-- Orders of precedence. -/
  precedences : Option (List (List Rule)) := none
  /-- Groups of rules that are allowed to conflict. -/
  conflicts : Option (List (List String)) := none
  /-- Reserved words by context. -/
  reserved : Option (NameMap (List Rule)) := none
  /-- The rule that keywords are matched against. -/
  word : Option String := none
  /-- Names of rules that group others. -/
  supertypes : Option (List String) := none
  deriving DecidableEq

namespace Grammar

/-- The only schema that tables may name. -/
def schemaAddress : String :=
  "https://tree-sitter.github.io/tree-sitter/assets/schemas/grammar.schema.json"

def rule? (g : Grammar) (name : String) : Option Rule := g.rules.get? name

/-- Whether a name is the name of a rule. -/
def hasRule (g : Grammar) (name : String) : Bool := g.rules.contains name

/-- The names of the external tokens in their order; a literal goes by its text. -/
def externalNames (g : Grammar) : List String :=
  (g.externals.getD []).filterMap fun r => r.symbolName?.or r.literal?

/-- Whether some rule other than `name` itself refers to `name`. -/
def isReferenced (g : Grammar) (name : String) : Bool :=
  g.rules.entries.any fun e => e.1 != name && e.2.symbols.contains name

/-- Whether nodes of the rule show in a syntax tree. -/
def isVisible (name : String) : Bool := name.toList.head? != some '_'

/-- The visible rules that no other rule refers to, ascending. -/
def startRules (g : Grammar) : List String :=
  g.rules.names.filter fun name => isVisible name && !g.isReferenced name

/-- The start rule, if there is just one candidate. -/
def startRule? (g : Grammar) : Option String :=
  match g.startRules with
  | [name] => some name
  | _ => none

end Grammar

end GrammarTables
