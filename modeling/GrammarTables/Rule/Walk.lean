import GrammarTables.Rule.Basic

/-!
# Walks over a rule

All walks meet a node before its parts, and its content before its members.
-/

namespace GrammarTables.Rule

mutual

/-- All nodes. -/
def nodes : Rule → List Rule
  | ⟨k, v, n, c, ms, d, f, x⟩ => ⟨k, v, n, c, ms, d, f, x⟩ :: (contentNodes c ++ memberNodes ms)

def contentNodes : Option Rule → List Rule
  | none => []
  | some r => nodes r

def memberNodes : List Rule → List Rule
  | [] => []
  | r :: rs => nodes r ++ memberNodes rs

end

mutual

/-- The names that are referred to, each as often as it occurs. -/
def symbols : Rule → List String
  | ⟨k, v, n, c, ms, d, f, x⟩ =>
    (symbolName? ⟨k, v, n, c, ms, d, f, x⟩).toList ++ (contentSymbols c ++ memberSymbols ms)

def contentSymbols : Option Rule → List String
  | none => []
  | some r => symbols r

def memberSymbols : List Rule → List String
  | [] => []
  | r :: rs => symbols r ++ memberSymbols rs

end

mutual

/-- The first name that is referred to and not defined. -/
def undefinedSymbol? (defined : String → Bool) : Rule → Option String
  | ⟨k, v, n, c, ms, d, f, x⟩ =>
    match (symbolName? ⟨k, v, n, c, ms, d, f, x⟩).filter (!defined ·) with
    | some name => some name
    | none =>
      match undefinedInContent? defined c with
      | some name => some name
      | none => undefinedInMembers? defined ms

def undefinedInContent? (defined : String → Bool) : Option Rule → Option String
  | none => none
  | some r => undefinedSymbol? defined r

def undefinedInMembers? (defined : String → Bool) : List Rule → Option String
  | [] => none
  | r :: rs =>
    match undefinedSymbol? defined r with
    | some name => some name
    | none => undefinedInMembers? defined rs

end

mutual

/-- Whether a match of the rule may begin with a reference to `target`, as far as the rule alone
tells: only the first member of a sequence counts, also if it may be empty. -/
def startsWith (target : String) : Rule → Bool
  | ⟨k, _, n, c, ms, _, _, _⟩ =>
    match k with
    | .symbol => n == some target
    | .seq => firstStartsWith target ms
    | .choice => anyStartsWith target ms
    | .prec | .precLeft | .precRight | .precDynamic | .field | .rename | .repeat0 | .repeat1 =>
      contentStartsWith target c
    | .blank | .string | .pattern | .token | .immediateToken | .reserved => false

def contentStartsWith (target : String) : Option Rule → Bool
  | none => false
  | some r => startsWith target r

def firstStartsWith (target : String) : List Rule → Bool
  | [] => false
  | r :: _ => startsWith target r

def anyStartsWith (target : String) : List Rule → Bool
  | [] => false
  | r :: rs => startsWith target r || anyStartsWith target rs

end

/-- The field names, each as often as it occurs. -/
def fieldNames (r : Rule) : List String := r.nodes.filterMap fieldName?

/-- The precedence levels, each as often as it occurs. -/
def levels (r : Rule) : List Int32 := r.nodes.filterMap precedence?

end GrammarTables.Rule
