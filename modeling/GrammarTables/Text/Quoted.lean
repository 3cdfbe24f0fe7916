import GrammarTables.Text.Unprintable

/-!
# Quoted texts

A text in double quotes, as it is shown in messages and logs: quotes and
backslashes are escaped, the common controls have short escapes, and what
cannot be printed is shown by its code point.
-/

namespace GrammarTables.Text

/-- The code point in lower-case hexadecimal. -/
def codePoint (c : Char) : String := "\\u\x7b" ++ String.ofList (Nat.toDigits 16 c.toNat) ++ "\x7d"

def escaped (c : Char) : String :=
  if c = '"' then "\\\""
  else if c = '\\' then "\\\\"
  else if c = '\n' then "\\n"
  else if c = '\r' then "\\r"
  else if c = '\t' then "\\t"
  else if c = '\x00' then "\\0"
  else if unprintable.contains c then codePoint c
  else c.toString

def quoted (s : String) : String := "\"" ++ String.join (s.toList.map escaped) ++ "\""

/-- Items between square brackets. -/
def bracketed (items : List String) : String := "[" ++ ", ".intercalate items ++ "]"

end GrammarTables.Text
