import GrammarTables.Rule.Basic

/-!
# Rules from parts

The combinators from which grammars are written. Each sets just those parts of
a node that its kind gives a meaning to.
-/

namespace GrammarTables.Rule

/-- The empty production. -/
def blank : Rule := { kind := .blank }

/-- A literal token. -/
def string (text : String) : Rule := { kind := .string, value := some (.text text) }

/-- A regular expression token, given by its source. -/
def pattern (source : String) : Rule := { kind := .pattern, value := some (.text source) }

/-- A reference to a rule or an external token. -/
def symbol (name : String) : Rule := { kind := .symbol, name := some name }

/-- All of the members in order. -/
def seq (members : List Rule) : Rule := { kind := .seq, members }

/-- Any one of the members. -/
def choice (members : List Rule) : Rule := { kind := .choice, members }

/-- The content or nothing. -/
def optional (content : Rule) : Rule := choice [content, blank]

/-- A node around its content. -/
def wrap (kind : Kind) (content : Rule) : Rule := { kind, content := some content }

/-- Zero or more times the content. -/
def repeat0 (content : Rule) : Rule := wrap .repeat0 content

/-- One or more times the content. -/
def repeat1 (content : Rule) : Rule := wrap .repeat1 content

/-- A precedence node of the given kind. -/
def leveled (kind : Kind) (level : Int32) (content : Rule) : Rule :=
  { wrap kind content with value := some (.level level) }

def prec (level : Int32) (content : Rule) : Rule := leveled .prec level content

def precLeft (level : Int32) (content : Rule) : Rule := leveled .precLeft level content

def precRight (level : Int32) (content : Rule) : Rule := leveled .precRight level content

def precDynamic (level : Int32) (content : Rule) : Rule := leveled .precDynamic level content

/-- The content, labelled with a field name. -/
def field (name : String) (content : Rule) : Rule := { wrap .field content with name := some name }

/-- The content, with its node called `text`: by the name of a rule if `named`, as a literal if not. -/
def rename (content : Rule) (text : String) (named : Bool) : Rule :=
  { wrap .rename content with value := some (.text text), named := some named }

/-- The content as a single token. -/
def token (content : Rule) : Rule := wrap .token content

/-- The content as a token that no extra may precede. -/
def immediateToken (content : Rule) : Rule := wrap .immediateToken content

end GrammarTables.Rule
