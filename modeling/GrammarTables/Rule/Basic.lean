/-!
# Rules

A rule is a tree. Each node has a kind and, in principle, any of the other
parts; which of them mean something depends on the kind. Tables may hold nodes
with parts that mean nothing, and those are kept.
-/

namespace GrammarTables

inductive Rule.Kind where
  | blank
  | string
  | pattern
  | symbol
  | choice
  | seq
  | repeat0
  | repeat1
  | prec
  | precLeft
  | precRight
  | precDynamic
  | field
  | rename
  | token
  | immediateToken
  | reserved
  deriving DecidableEq, Repr

namespace Rule.Kind

def all : List Kind :=
  [blank, string, pattern, symbol, choice, seq, repeat0, repeat1, prec, precLeft, precRight,
    precDynamic, field, rename, token, immediateToken, reserved]

/-- The name of a kind in grammar tables. -/
def name : Kind → String
  | blank => "BLANK"
  | string => "STRING"
  | pattern => "PATTERN"
  | symbol => "SYMBOL"
  | choice => "CHOICE"
  | seq => "SEQ"
  | repeat0 => "REPEAT"
  | repeat1 => "REPEAT1"
  | prec => "PREC"
  | precLeft => "PREC_LEFT"
  | precRight => "PREC_RIGHT"
  | precDynamic => "PREC_DYNAMIC"
  | field => "FIELD"
  | rename => "ALIAS"
  | token => "TOKEN"
  | immediateToken => "IMMEDIATE_TOKEN"
  | reserved => "RESERVED"

theorem mem_all (k : Kind) : k ∈ all := by cases k <;> decide

theorem name_inj {k l : Kind} (h : k.name = l.name) : k = l := by
  cases k <;> cases l <;> first | rfl | exact absurd h (by decide)

def isPrecedence : Kind → Bool
  | prec | precLeft | precRight | precDynamic => true
  | _ => false

end Rule.Kind

/-- The text of a token, the new name of an alias, or the level of a precedence. -/
inductive Rule.Value where
  | text (s : String)
  | level (n : Int32)
  deriving DecidableEq, Repr

structure Rule where
  kind : Rule.Kind
  value : Option Rule.Value := none
  name : Option String := none
  content : Option Rule := none
  members : List Rule := []
  named : Option Bool := none
  flags : Option String := none
  contextName : Option String := none

namespace Rule

instance : Inhabited Rule := ⟨{ kind := .blank }⟩

/-! ## Equality -/

mutual

def decEq : (r s : Rule) → Decidable (r = s)
  | ⟨k₁, v₁, n₁, c₁, m₁, d₁, f₁, x₁⟩, ⟨k₂, v₂, n₂, c₂, m₂, d₂, f₂, x₂⟩ =>
    if h : k₁ = k₂ ∧ v₁ = v₂ ∧ n₁ = n₂ ∧ d₁ = d₂ ∧ f₁ = f₂ ∧ x₁ = x₂ then
      match decEqContent c₁ c₂, decEqMembers m₁ m₂ with
      | isTrue hc, isTrue hm => isTrue (by grind)
      | isFalse hc, _ => isFalse (by grind)
      | _, isFalse hm => isFalse (by grind)
    else isFalse (by grind)

def decEqContent : (r s : Option Rule) → Decidable (r = s)
  | none, none => isTrue rfl
  | some r, some s =>
    match decEq r s with
    | isTrue h => isTrue (h ▸ rfl)
    | isFalse h => isFalse (by grind)
  | none, some _ => isFalse nofun
  | some _, none => isFalse nofun

def decEqMembers : (rs ss : List Rule) → Decidable (rs = ss)
  | [], [] => isTrue rfl
  | r :: rs, s :: ss =>
    match decEq r s, decEqMembers rs ss with
    | isTrue h, isTrue hs => isTrue (by grind)
    | isFalse h, _ => isFalse (by grind)
    | _, isFalse hs => isFalse (by grind)
  | [], _ :: _ => isFalse nofun
  | _ :: _, [] => isFalse nofun

end

instance : DecidableEq Rule := decEq

/-! ## What a node means -/

/-- The parts that are rules: the content first, then the members. -/
def children (r : Rule) : List Rule := r.content.toList ++ r.members

/-- Whether a token is spelled out by the node itself. -/
def isTerminal (r : Rule) : Bool := r.kind == .string || r.kind == .pattern

def isSymbol (r : Rule) : Bool := r.kind == .symbol

def textValue? (r : Rule) : Option String :=
  match r.value with
  | some (.text s) => some s
  | _ => none

/-- The rule or token that a reference names. -/
def symbolName? (r : Rule) : Option String := if r.kind = .symbol then r.name else none

def fieldName? (r : Rule) : Option String := if r.kind = .field then r.name else none

/-- The text of a literal token. -/
def literal? (r : Rule) : Option String := if r.kind = .string then r.textValue? else none

/-- The source of a regular expression token. -/
def pattern? (r : Rule) : Option String := if r.kind = .pattern then r.textValue? else none

/-- The level that a precedence gives to its content. -/
def precedence? (r : Rule) : Option Int32 :=
  match r.kind.isPrecedence, r.value with
  | true, some (.level n) => some n
  | _, _ => none

end Rule

end GrammarTables
