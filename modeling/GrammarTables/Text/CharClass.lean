/-!
# Classes of characters

A class is given by the ascending code points at which membership changes: the
characters from the first to just before the second belong to it, those from
the third to just before the fourth, and so on.
-/

namespace GrammarTables.Text

structure CharClass where
  changes : List Nat

namespace CharClass

/-- Whether the code point lies behind an odd number of changes. -/
def contains (k : CharClass) (c : Char) : Bool :=
  (k.changes.takeWhile (· ≤ c.toNat)).length % 2 == 1

end CharClass

/-- White space: the tabs and line ends, the space, and the spaces and separators of other scripts. -/
def whiteSpace : CharClass where
  changes := [
    0x9, 0xe, 0x20, 0x21, 0x85, 0x86, 0xa0, 0xa1, 0x1680, 0x1681, 0x2000, 0x200b, 0x2028, 0x202a,
    0x202f, 0x2030, 0x205f, 0x2060, 0x3000, 0x3001]

/-- Whether a text shows nothing. -/
def isWhite (s : String) : Bool := s.toList.all whiteSpace.contains

end GrammarTables.Text
