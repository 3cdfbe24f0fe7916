import GrammarTables.Json.Failure

/-!
# Blanks and words

The blanks that may stand between the parts of a JSON text, and the words that
begin with a known letter.
-/

namespace GrammarTables.Json

def isBlank (c : Char) : Bool := c == ' ' || c == '\n' || c == '\t' || c == '\r'

def dropBlank (s : List Char) : List Char := s.dropWhile isBlank

theorem length_dropBlank_le (s : List Char) : (dropBlank s).length ≤ s.length :=
  (List.dropWhile_suffix _).length_le

theorem length_lt_of_dropBlank {c : Char} {s r : List Char} (h : dropBlank s = c :: r) :
    r.length < s.length := by
  have := length_dropBlank_le s
  rw [h, List.length_cons] at this
  omega

/-- Reads the rest of a word, letter by letter. -/
def word : List Char → List Char → Except Failure (List Char)
  | [], s => .ok s
  | _ :: _, [] => .error (Problem.eofInValue.before [])
  | w :: ws, c :: s => if c = w then word ws s else .error (Problem.expectedIdent.on (c :: s))

theorem length_of_word {w s r : List Char} (h : word w s = .ok r) : r.length ≤ s.length := by
  fun_induction word w s with
  | case1 => cases h; exact Nat.le_refl _
  | case2 => cases h
  | case3 => simp_all; omega
  | case4 => cases h

end GrammarTables.Json
