import GrammarTables.Rule.Combinators

/-!
# Rule expressions

An expression says how a rule is put together with the combinators, and
`Expression.rule` does it. Different expressions may stand for the same rule.
-/

namespace GrammarTables.Rule

inductive Expression where
  | blank
  | string (text : String)
  | pattern (source : String)
  | symbol (name : String)
  | seq (members : List Expression)
  | choice (members : List Expression)
  | optional (content : Expression)
  | repeat0 (content : Expression)
  | repeat1 (content : Expression)
  | prec (level : Int32) (content : Expression)
  | precLeft (level : Int32) (content : Expression)
  | precRight (level : Int32) (content : Expression)
  | precDynamic (level : Int32) (content : Expression)
  | field (name : String) (content : Expression)
  | rename (content : Expression) (text : String) (named : Bool)
  | token (content : Expression)
  | immediateToken (content : Expression)

namespace Expression

mutual

def rule : Expression → Rule
  | blank => Rule.blank
  | string text => Rule.string text
  | pattern source => Rule.pattern source
  | symbol name => Rule.symbol name
  | seq members => Rule.seq (rules members)
  | choice members => Rule.choice (rules members)
  | optional content => Rule.optional content.rule
  | repeat0 content => Rule.repeat0 content.rule
  | repeat1 content => Rule.repeat1 content.rule
  | prec level content => Rule.prec level content.rule
  | precLeft level content => Rule.precLeft level content.rule
  | precRight level content => Rule.precRight level content.rule
  | precDynamic level content => Rule.precDynamic level content.rule
  | field name content => Rule.field name content.rule
  | rename content text named => Rule.rename content.rule text named
  | token content => Rule.token content.rule
  | immediateToken content => Rule.immediateToken content.rule

def rules : List Expression → List Rule
  | [] => []
  | e :: es => e.rule :: rules es

end

end Expression

end GrammarTables.Rule
