import GrammarTables.Grammar.Basic
import GrammarTables.Rule.Combinators

/-!
# Building grammars

A grammar is put together step by step. When it is finished, white space becomes
its only extra if no step has named one.
-/

namespace GrammarTables.Grammar

/-- A grammar in the making. -/
structure Builder where
  grammar : Grammar

/-- What is done to a grammar in the making. -/
inductive Builder.Step where
  /-- Defines a rule, anew if it is defined already. -/
  | rule (name : String) (body : Rule)
  /-- Declares a token of the outside scanner. -/
  | external (name : String)
  /-- Allows a rule between any two tokens. -/
  | extra (body : Rule)
  /-- Names the rule that keywords are matched against. -/
  | word (name : String)
  | inline (name : String)
  /-- Allows the rules to conflict. -/
  | conflict (names : List String)
  | supertype (name : String)

namespace Builder

/-- A grammar without rules, under the known schema. -/
def start (name : String) : Builder :=
  ⟨{ schema := some schemaAddress, name, rules := .empty }⟩

/-- Adds to a section, which is there from then on. -/
def append {α : Type} (items : Option (List α)) (a : α) : Option (List α) := some (items.getD [] ++ [a])

def rule (b : Builder) (name : String) (body : Rule) : Builder :=
  ⟨{ b.grammar with rules := b.grammar.rules.insert name body }⟩

def external (b : Builder) (name : String) : Builder :=
  ⟨{ b.grammar with externals := append b.grammar.externals (.symbol name) }⟩

def extra (b : Builder) (body : Rule) : Builder :=
  ⟨{ b.grammar with extras := append b.grammar.extras body }⟩

def word (b : Builder) (name : String) : Builder := ⟨{ b.grammar with word := some name }⟩

def inline (b : Builder) (name : String) : Builder :=
  ⟨{ b.grammar with inline := append b.grammar.inline name }⟩

def conflict (b : Builder) (names : List String) : Builder :=
  ⟨{ b.grammar with conflicts := append b.grammar.conflicts names }⟩

def supertype (b : Builder) (name : String) : Builder :=
  ⟨{ b.grammar with supertypes := append b.grammar.supertypes name }⟩

def apply (b : Builder) : Step → Builder
  | .rule name body => b.rule name body
  | .external name => b.external name
  | .extra body => b.extra body
  | .word name => b.word name
  | .inline name => b.inline name
  | .conflict names => b.conflict names
  | .supertype name => b.supertype name

def applyAll (b : Builder) (steps : List Step) : Builder := steps.foldl apply b

/-- White space, as an extra. -/
def whiteSpace : Rule := .pattern "\\s"

/-- The finished grammar. -/
def build (b : Builder) : Grammar :=
  { b.grammar with extras := some (b.grammar.extras.getD [whiteSpace]) }

/-- The grammars that building would give before the steps and after each of them. -/
def stages (b : Builder) : List Step → List Grammar
  | [] => [b.build]
  | s :: steps => b.build :: stages (b.apply s) steps

end Builder

/-- The grammar that the steps make. -/
def ofSteps (name : String) (steps : List Builder.Step) : Grammar :=
  ((Builder.start name).applyAll steps).build

end GrammarTables.Grammar
