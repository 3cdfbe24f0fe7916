/-!
# JSON values

A value as a text spells it: the members of an object stand in the order in
which they were written, and a key may occur more than once.
-/

namespace GrammarTables

/-- A JSON number. One without fraction and exponent that fits in 64 bits is a whole number, all
others are doubles. -/
inductive Number where
  | whole (n : Int)
  | double (x : Float)
  deriving Repr

inductive Json where
  | null
  | bool (b : Bool)
  | number (n : Number)
  | string (s : String)
  | list (items : List Json)
  | object (members : List (String × Json))

end GrammarTables
