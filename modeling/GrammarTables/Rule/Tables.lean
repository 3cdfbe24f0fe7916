import GrammarTables.Json.Record
import GrammarTables.Rule.Basic

/-!
# Rules in grammar tables

How a rule is written in grammar tables, and how it is read from them.
-/

namespace GrammarTables.Rule

open Json (Decoder Field Layout Problem)

/-! ## Reading -/

namespace Value

/-- The range of a precedence level. -/
def levelRange (n : Int) : Bool := Int32.minValue.toInt ≤ n && n ≤ Int32.maxValue.toInt

/-- A text or a level. No other value is one, a number with a fraction or exponent included. -/
def ofJson? : Json → Option Value
  | .string s => some (.text s)
  | .number (.whole n) => if levelRange n then some (.level (Int32.ofInt n)) else none
  | _ => none

/-- The complaint about a value that is neither a text nor a level. -/
def mismatch : Problem := .noAlternative "RuleValue"

end Value

/-- Puts a value into a rule, if it is one. -/
def setValue (v : Option Json) (r : Rule) : Except Problem Rule :=
  match v with
  | none => .ok { r with value := none }
  | some j =>
    match Value.ofJson? j with
    | none => .error Value.mismatch
    | some v => .ok { r with value := some v }

/-- The kinds by their names. -/
def Kind.byName : List (String × Kind) := Kind.all.map fun k => (k.name, k)

/-- The fields of a rule, given how deep brackets may nest in them and the decoders of the rules in
its content and its members. -/
def layout (room : Nat) (content : Decoder Rule) (member : Option (Decoder Rule)) : Layout Rule where
  name := "Rule"
  blank := { kind := .blank }
  fields := [
    .ofRequired "type" (.variant Kind.byName room) fun k r => { r with kind := k },
    ⟨"value", false, (Decoder.any room).optional.map setValue⟩,
    .ofOptional "name" .string fun n r => { r with name := n },
    .ofOptional "content" content fun c r => { r with content := c },
    .ofDefault "members" (.list member) fun ms r => { r with members := ms },
    .ofOptional "named" .bool fun b r => { r with named := b },
    .ofOptional "flags" .string fun f r => { r with flags := f },
    .ofOptional "context_name" .string fun x r => { r with contextName := x }]

/-- The decoders of a rule in which brackets nest at most `room` deep, and of one that has a bracket
less, if there is such a rule. -/
def decoders : Nat → Decoder Rule × Option (Decoder Rule)
  | 0 => (.record "Rule" none, none)
  | room + 1 =>
    match decoders room with
    | (content, member) => (.record "Rule" (some (layout room content member)), some content)

/-- Reads a rule in which brackets nest at most `room` deep. -/
def decoder (room : Nat) : Decoder Rule := (decoders room).1

/-! ## Writing -/

def Value.toJson : Value → Json
  | .text s => .string s
  | .level n => .number (.whole n.toInt)

/-- A member that is left out if it is not set. -/
def optionalMember (key : String) (v : Option Json) : List (String × Json) := (v.map (key, ·)).toList

/-- The members of a rule's object, given those for its parts. -/
def membersOfNode (r : Rule) (content members : List (String × Json)) : List (String × Json) :=
  ("type", .string r.kind.name) ::
    optionalMember "value" (r.value.map Value.toJson) ++
    optionalMember "name" (r.name.map .string) ++
    content ++
    members ++
    optionalMember "named" (r.named.map .bool) ++
    optionalMember "flags" (r.flags.map .string) ++
    optionalMember "context_name" (r.contextName.map .string)

mutual

/-- A rule as an object that holds just the parts that are set. -/
def toJson : Rule → Json
  | ⟨k, v, n, c, ms, d, f, x⟩ =>
    .object (membersOfNode ⟨k, v, n, c, ms, d, f, x⟩ (contentMember c) (membersMember ms))

def contentMember : Option Rule → List (String × Json)
  | none => []
  | some r => [("content", toJson r)]

def membersMember : List Rule → List (String × Json)
  | [] => []
  | r :: rs => [("members", .list (toJson r :: listToJson rs))]

def listToJson : List Rule → List Json
  | [] => []
  | r :: rs => toJson r :: listToJson rs

end

end GrammarTables.Rule
