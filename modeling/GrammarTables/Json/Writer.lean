import GrammarTables.Decimal.Notation
import GrammarTables.Json.Basic

/-!
# Writing JSON

Values are written without blanks. In a string only quotes, backslashes and
control characters are escaped.
-/

namespace GrammarTables.Json

def hexLetter (n : Nat) : Char := Nat.digitChar n

/-- A control character by its number. -/
def controlEscape (c : Char) : List Char :=
  ['\\', 'u', '0', '0', hexLetter (c.toNat / 16), hexLetter (c.toNat % 16)]

def writeChar (c : Char) : List Char :=
  if c = '"' then ['\\', '"']
  else if c = '\\' then ['\\', '\\']
  else if c.toNat < 32 then controlEscape c
  else [c]

def writeString (s : String) : List Char := '"' :: (s.toList.flatMap writeChar ++ ['"'])

def writeNumber : Number → List Char
  | .whole n => (toString n).toList
  | .double x => (Decimal.ofFloat x).toList

mutual

/-- The characters of a value. -/
def write : Json → List Char
  | null => "null".toList
  | bool true => "true".toList
  | bool false => "false".toList
  | number n => writeNumber n
  | string s => writeString s
  | list [] => ['[', ']']
  | list (v :: vs) => '[' :: (write v ++ writeItems vs)
  | object [] => ['{', '}']
  | object ((k, v) :: ms) => '{' :: (writeString k ++ ':' :: (write v ++ writeMembers ms))

/-- The items behind the first one, and the end of the list. -/
def writeItems : List Json → List Char
  | [] => [']']
  | v :: vs => ',' :: (write v ++ writeItems vs)

/-- The members behind the first one, and the end of the object. -/
def writeMembers : List (String × Json) → List Char
  | [] => ['}']
  | (k, v) :: ms => ',' :: (writeString k ++ ':' :: (write v ++ writeMembers ms))

end

/-- A value as a text. -/
def text (v : Json) : String := String.ofList v.write

end GrammarTables.Json
