import GrammarTables.Json.Numeral
import GrammarTables.Json.Quote

/-!
# Values that are passed over

`skipValue` steps over one well-formed value and keeps nothing of it. The
brackets that are open stand on a stack, so the value may nest to any depth,
and its numbers may be of any size.
-/

namespace GrammarTables.Json

inductive Bracket where
  | list
  | object
  deriving DecidableEq, Repr

namespace Bracket

def closer : Bracket → Char
  | list => ']'
  | object => '}'

/-- The text ends inside the brackets. -/
def unclosed : Bracket → Problem
  | list => .eofInList
  | object => .eofInObject

/-- Something else stands where an item may be followed by a comma or the closer. -/
def expectedCommaOrEnd : Bracket → Problem
  | list => .expectedListCommaOrEnd
  | object => .expectedObjectCommaOrEnd

end Bracket

/-- Reads the colon behind a key. -/
def readColon (s : List Char) : Except Failure (List Char) :=
  match dropBlank s with
  | ':' :: r => .ok r
  | [] => .error (Problem.eofInObject.on [])
  | r => .error (Problem.expectedColon.on r)

theorem length_of_readColon {s r : List Char} (h : readColon s = .ok r) : r.length < s.length := by
  unfold readColon at h
  split at h
  · next ht =>
    cases h
    exact length_lt_of_dropBlank ht
  · cases h
  · cases h

/-- Steps over a value that is neither a list nor an object. -/
def skipScalar : List Char → Except Failure (List Char)
  | [] => .error (Problem.eofInValue.on [])
  | c :: s =>
    if c = 'n' then word "ull".toList s
    else if c = 't' then word "rue".toList s
    else if c = 'f' then word "alse".toList s
    else if c = '"' then skipString s
    else if c = '-' ∨ isDigit c then (Numeral.scan .invalidNumber (c :: s)).map (·.2)
    else .error (Problem.expectedValue.on (c :: s))

theorem length_of_skipScalar {s r : List Char} (h : skipScalar s = .ok r) :
    r.length < s.length := by
  unfold skipScalar at h
  split at h
  · cases h
  · next c t =>
    simp only [List.length_cons]
    split at h
    · have := length_of_word h
      omega
    · split at h
      · have := length_of_word h
        omega
      · split at h
        · have := length_of_word h
          omega
        · split at h
          · have := length_of_skipString h
            omega
          · split at h
            · cases hs : Numeral.scan .invalidNumber (c :: t) with
              | error e => simp [hs, Except.map] at h
              | ok p =>
                have := Numeral.length_of_scan hs
                simp only [hs, Except.map, Except.ok.injEq] at h
                simpa [← h] using this
            · cases h

/-- Steps over what stands before the value of an item: nothing in a list, the key in an object. -/
def skipKey : Bracket → List Char → Except Failure (List Char)
  | .list, s => .ok s
  | .object, s =>
    match dropBlank s with
    | '"' :: r =>
      match skipString r with
      | .error e => .error e
      | .ok r => readColon r
    | [] => .error (Problem.eofInObject.on [])
    | r => .error (Problem.keyMustBeString.on r)

theorem length_of_skipKey {b : Bracket} {s r : List Char} (h : skipKey b s = .ok r) :
    r.length ≤ s.length := by
  unfold skipKey at h
  split at h
  · cases h
    exact Nat.le_refl _
  · have hd := length_dropBlank_le s
    split at h
    · next ht =>
      split at h
      · cases h
      · next hs =>
        have h1 := length_of_skipString hs
        have h2 := length_of_readColon h
        rw [ht, List.length_cons] at hd
        omega
    · cases h
    · cases h

mutual

/-- Steps over a value inside the `outer` brackets, and over all that follows up to their ends. -/
def skipTo (outer : List Bracket) (s : List Char) : Except Failure (List Char) :=
  match _hd : dropBlank s with
  | '[' :: r => skipOpened .list outer r
  | '{' :: r => skipOpened .object outer r
  | t =>
    match _h : skipScalar t with
    | .error e => .error e
    | .ok r => skipAfter outer r
termination_by (s.length, 0)
decreasing_by
  · exact Prod.Lex.left _ _ (length_lt_of_dropBlank _hd)
  · exact Prod.Lex.left _ _ (length_lt_of_dropBlank _hd)
  · have h1 := length_of_skipScalar _h
    have h2 := length_dropBlank_le s
    exact Prod.Lex.left _ _ (by rw [_hd] at h2; omega)

/-- Goes on behind an opening bracket. -/
def skipOpened (b : Bracket) (outer : List Bracket) (s : List Char) : Except Failure (List Char) :=
  match _hd : dropBlank s with
  | [] => .error (b.unclosed.on [])
  | c :: r =>
    if c = b.closer then skipAfter outer r
    else
      match _h : skipKey b (c :: r) with
      | .error e => .error e
      | .ok r => skipTo (b :: outer) r
termination_by (s.length, 1)
decreasing_by
  · exact Prod.Lex.left _ _ (length_lt_of_dropBlank _hd)
  · have h1 := length_of_skipKey _h
    have h2 := length_lt_of_dropBlank _hd
    rw [List.length_cons] at h1
    rcases Nat.lt_or_eq_of_le (Nat.le_trans h1 h2) with hlt | heq
    · exact Prod.Lex.left _ _ hlt
    · rw [heq]
      exact Prod.Lex.right _ (by omega)

/-- Goes on behind a value. -/
def skipAfter (outer : List Bracket) (s : List Char) : Except Failure (List Char) :=
  match outer with
  | [] => .ok s
  | b :: outer =>
    match _hd : dropBlank s with
    | [] => .error (b.unclosed.on [])
    | c :: r =>
      if c = ',' then
        match _h : skipKey b r with
        | .error e => .error e
        | .ok r => skipTo (b :: outer) r
      else if c = b.closer then skipAfter outer r
      else .error (b.expectedCommaOrEnd.on (c :: r))
termination_by (s.length, 0)
decreasing_by
  · have h1 := length_of_skipKey _h
    have h2 := length_lt_of_dropBlank _hd
    exact Prod.Lex.left _ _ (by omega)
  · exact Prod.Lex.left _ _ (length_lt_of_dropBlank _hd)

end

/-- The text behind the value at the front of `s`. -/
def skipValue (s : List Char) : Except Failure (List Char) := skipTo [] s

theorem length_of_skip :
    (∀ outer s r, skipTo outer s = .ok r → r.length < s.length) ∧
    (∀ outer s r, skipAfter outer s = .ok r → r.length ≤ s.length) ∧
    (∀ b outer s r, skipOpened b outer s = .ok r → r.length < s.length) := by
  apply skipTo.mutual_induct
    (fun outer s => ∀ r, skipTo outer s = .ok r → r.length < s.length)
    (fun outer s => ∀ r, skipAfter outer s = .ok r → r.length ≤ s.length)
    (fun b outer s => ∀ r, skipOpened b outer s = .ok r → r.length < s.length)
  case case1 =>
    intro outer s t hd ih r h
    have := length_lt_of_dropBlank hd
    rw [skipTo] at h
    split at h <;> simp_all
    omega
  case case2 =>
    intro outer s t hd ih r h
    have := length_lt_of_dropBlank hd
    rw [skipTo] at h
    split at h <;> simp_all
    omega
  case case3 =>
    intro outer s e h1 h2 hs r h
    rw [skipTo] at h
    split at h <;> simp_all
    split at h <;> simp_all
  case case4 =>
    intro outer s t h1 h2 hs ih r h
    have := length_dropBlank_le s
    have := length_of_skipScalar hs
    rw [skipTo] at h
    split at h <;> simp_all
    split at h <;> simp_all
    omega
  case case5 => simp [skipAfter]
  case case6 =>
    intro s b outer hd r h
    rw [skipAfter] at h
    split at h <;> simp_all
  case case7 =>
    intro s b outer t e hk hd r h
    rw [skipAfter] at h
    split at h <;> simp_all
    split at h <;> simp_all
  case case8 =>
    intro s b outer t u hk hd ih r h
    have := length_lt_of_dropBlank hd
    have := length_of_skipKey hk
    rw [skipAfter] at h
    split at h <;> simp_all
    split at h <;> simp_all
    omega
  case case9 =>
    intro s b outer t hd hc ih r h
    have := length_lt_of_dropBlank hd
    rw [skipAfter] at h
    split at h <;> simp_all
    omega
  case case10 =>
    intro s b outer c t hd hc hb r h
    rw [skipAfter] at h
    split at h <;> simp_all
  case case11 =>
    intro b outer s hd r h
    rw [skipOpened] at h
    split at h <;> simp_all
  case case12 =>
    intro b outer s t hd ih r h
    have := length_lt_of_dropBlank hd
    rw [skipOpened] at h
    split at h <;> simp_all
    omega
  case case13 =>
    intro b outer s c t hd hc e hk r h
    rw [skipOpened] at h
    split at h <;> simp_all
    split at h <;> simp_all
  case case14 =>
    intro b outer s c t hd hc u hk ih r h
    have := length_lt_of_dropBlank hd
    have := length_of_skipKey hk
    rw [skipOpened] at h
    split at h <;> simp_all
    split at h <;> simp_all
    omega

theorem length_of_skipValue {s r : List Char} (h : skipValue s = .ok r) : r.length < s.length :=
  length_of_skip.1 [] s r h

end GrammarTables.Json
