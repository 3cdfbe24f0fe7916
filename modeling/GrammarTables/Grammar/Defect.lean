import GrammarTables.Grammar.Basic
import GrammarTables.Text.CharClass

/-!
# Defects of grammars

A grammar is sound if it has a name and rules, and every name that is referred
to is defined: in rules and extras as a rule or an external token, in the other
sections as a rule. `Grammar.defect?` finds the first defect.
-/

namespace GrammarTables

/-- The sections that name rules. -/
inductive Grammar.Section where
  | word
  | inline
  | supertypes
  | conflicts
  deriving DecidableEq, Repr

def Grammar.Section.name : Grammar.Section → String
  | word => "word"
  | inline => "inline"
  | supertypes => "supertypes"
  | conflicts => "conflicts"

inductive Grammar.Defect where
  | noName
  | noRules
  /-- The symbol is neither a rule nor an external token. -/
  | undefinedSymbol (symbol rule : String)
  /-- The section names something that is no rule. -/
  | undefinedDeclaration (symbol : String) (place : Grammar.Section)
  deriving DecidableEq, Repr

namespace Grammar

def Defect.message : Defect → String
  | noName => "grammar has no name"
  | noRules => "grammar has no rules"
  | undefinedSymbol symbol rule =>
    "undefined symbol '" ++ symbol ++ "' referenced in rule '" ++ rule ++ "'"
  | undefinedDeclaration symbol place =>
    place.name ++ " refers to undefined rule '" ++ symbol ++ "'"

/-- Whether a name may be referred to in rules. -/
def isDefined (g : Grammar) (name : String) : Bool :=
  g.hasRule name || g.externalNames.contains name

/-- What the extras go by where the name of a rule is asked for. -/
def extrasLabel : String := "extras"

/-- The bodies that references are looked for in, in that order, with what they go by. -/
def bodies (g : Grammar) : List (String × Rule) :=
  g.rules.entries ++ (g.extras.getD []).map (extrasLabel, ·)

/-- The first reference to something undefined. -/
def undefinedReference? (g : Grammar) : Option Defect :=
  g.bodies.findSome? fun (label, body) =>
    (body.undefinedSymbol? g.isDefined).map fun symbol => .undefinedSymbol symbol label

/-- The names in the sections that name rules, in the order in which they are looked at. -/
def declarations (g : Grammar) : List (Section × String) :=
  g.word.toList.map (.word, ·) ++
  (g.inline.getD []).map (.inline, ·) ++
  (g.supertypes.getD []).map (.supertypes, ·) ++
  (g.conflicts.getD []).flatten.map (.conflicts, ·)

/-- The first name in those sections that is no rule. -/
def undefinedDeclaration? (g : Grammar) : Option Defect :=
  (g.declarations.find? fun (_, name) => !g.hasRule name).map fun (place, name) =>
    .undefinedDeclaration name place

/-- The first defect, if there is one. -/
def defect? (g : Grammar) : Option Defect :=
  if Text.isWhite g.name then some .noName
  else if g.rules.isEmpty then some .noRules
  else g.undefinedReference?.or g.undefinedDeclaration?

end Grammar

end GrammarTables
