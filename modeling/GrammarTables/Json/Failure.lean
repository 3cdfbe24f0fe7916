/-!
# What can be wrong with a JSON text

A `Failure` is a problem together with the place where it showed, given as the
number of bytes that were still unread. `Place.of` turns that into a line and a
column of the text.
-/

namespace GrammarTables.Json

inductive Problem where
  | eofInList
  | eofInObject
  | eofInString
  | eofInValue
  | expectedColon
  | expectedListCommaOrEnd
  | expectedObjectCommaOrEnd
  | expectedIdent
  | expectedValue
  | invalidEscape
  | invalidNumber
  | numberOutOfRange
  | controlCharacter
  | keyMustBeString
  | loneSurrogate
  | unexpectedEndOfHexEscape
  | trailingComma
  | trailingCharacters
  | nestedTooDeep
  /-- A well-formed value of the wrong kind. -/
  | wrongType (found expected : String)
  /-- A list that ends before the `index`-th field of the record it stands for. -/
  | wrongLength (index : Nat) (expected : String)
  | unknownVariant (name : String) (known : List String)
  | missingField (key : String)
  | duplicateField (key : String)
  /-- A value that is none of the alternatives of `type`. -/
  | noAlternative (type : String)
  deriving DecidableEq, Repr

namespace Problem

def message : Problem → String
  | eofInList => "EOF while parsing a list"
  | eofInObject => "EOF while parsing an object"
  | eofInString => "EOF while parsing a string"
  | eofInValue => "EOF while parsing a value"
  | expectedColon => "expected `:`"
  | expectedListCommaOrEnd => "expected `,` or `]`"
  | expectedObjectCommaOrEnd => "expected `,` or `\x7d`"
  | expectedIdent => "expected ident"
  | expectedValue => "expected value"
  | invalidEscape => "invalid escape"
  | invalidNumber => "invalid number"
  | numberOutOfRange => "number out of range"
  | controlCharacter => "control character (\\u0000-\\u001F) found while parsing a string"
  | keyMustBeString => "key must be a string"
  | loneSurrogate => "lone leading surrogate in hex escape"
  | unexpectedEndOfHexEscape => "unexpected end of hex escape"
  | trailingComma => "trailing comma"
  | trailingCharacters => "trailing characters"
  | nestedTooDeep => "recursion limit exceeded"
  | wrongType found expected => "invalid type: " ++ found ++ ", expected " ++ expected
  | wrongLength index expected => "invalid length " ++ toString index ++ ", expected " ++ expected
  | unknownVariant name known =>
    "unknown variant `" ++ name ++ "`, expected one of " ++
      ", ".intercalate (known.map fun k => "`" ++ k ++ "`")
  | missingField key => "missing field `" ++ key ++ "`"
  | duplicateField key => "duplicate field `" ++ key ++ "`"
  | noAlternative type => "data did not match any variant of untagged enum " ++ type

end Problem

/-- The bytes that the characters take in UTF-8. -/
def bytes : List Char → Nat
  | [] => 0
  | c :: s => c.utf8Size + bytes s

/-- A problem, and how many bytes of the text lay unread when it showed. -/
structure Failure where
  problem : Problem
  unread : Nat
  deriving DecidableEq, Repr

/-- The problem shows before `s`. -/
def Problem.before (p : Problem) (s : List Char) : Failure := ⟨p, bytes s⟩

/-- The problem is the first byte of `s` and is placed behind it, or at the end of the text if `s` is
empty. -/
def Problem.on (p : Problem) (s : List Char) : Failure := ⟨p, bytes s - 1⟩

/-- A place in a text: lines count from one, columns are the bytes read of the line. -/
structure Place where
  line : Nat
  column : Nat
  deriving DecidableEq, Repr

namespace Place

/-- The byte that ends a line. -/
def newline : UInt8 := 10

/-- The place behind the given bytes. -/
def after (front : List UInt8) : Place :=
  ⟨1 + front.count newline, (front.reverse.takeWhile (· != newline)).length⟩

/-- The place in `text` before its last `unread` bytes. -/
def of (text : String) (unread : Nat) : Place :=
  let all := text.toUTF8.toList
  after (all.take (all.length - unread))

end Place

/-- The full text of a failure to read `text`. -/
def Failure.message (f : Failure) (text : String) : String :=
  let p := Place.of text f.unread
  f.problem.message ++ " at line " ++ toString p.line ++ " column " ++ toString p.column

end GrammarTables.Json
