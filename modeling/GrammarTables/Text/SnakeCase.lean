import GrammarTables.Text.Alphanumeric

/-!
# Snake case

A text is cut into words where something else than a letter or a number stands,
and where the case changes: behind a small letter before a capital, and before
the last of several capitals if a small letter follows. Numbers belong to the
word they stand in. The words are written small, with underscores between them.

Case is told for the letters of ASCII only; others stay as they are and begin
no word.
-/

namespace GrammarTables.Text.SnakeCase

/-- The maximal runs of characters in a class, and empty runs between neighbours outside it. -/
def runs (p : Char → Bool) : List Char → List (List Char)
  | [] => [[]]
  | c :: cs =>
    match p c, runs p cs with
    | true, w :: ws => (c :: w) :: ws
    | _, ws => [] :: ws

/-- The case of the last letter of the word so far, if it has a letter. -/
inductive Mode where
  | fresh
  | lower
  | upper
  deriving DecidableEq, Repr

/-- The mode behind a character. -/
def Mode.next (m : Mode) (c : Char) : Mode :=
  if c.isLower then lower else if c.isUpper then upper else m

/-- Cuts a run where the case changes. `word` are the characters of the current word, last first. -/
def cut (m : Mode) (word : List Char) : List Char → List (List Char)
  | [] => if word.isEmpty then [] else [word.reverse]
  | [c] => [(c :: word).reverse]
  | c :: d :: cs =>
    if m.next c = .lower ∧ d.isUpper then (c :: word).reverse :: cut .fresh [] (d :: cs)
    else if m = .upper ∧ c.isUpper ∧ d.isLower then word.reverse :: cut .fresh [c] (d :: cs)
    else cut (m.next c) (c :: word) (d :: cs)

/-- The words of a text. -/
def words (s : List Char) : List (List Char) := (runs alphanumeric.contains s).flatMap (cut .fresh [])

end GrammarTables.Text.SnakeCase

namespace GrammarTables.Text

/-- The words of a text, written small, with underscores between them. -/
def snakeCase (s : String) : String :=
  "_".intercalate ((SnakeCase.words s.toList).map fun w => String.ofList (w.map Char.toLower))

end GrammarTables.Text
