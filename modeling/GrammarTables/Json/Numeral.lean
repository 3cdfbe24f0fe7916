import GrammarTables.Json.Basic
import GrammarTables.Json.Blank

/-!
# Numerals

A numeral is first scanned into its parts and then valued. Digits are taken
into a 64-bit significand as long as they fit; of those that do not, each one
before the point multiplies the value by ten, and those behind it are dropped.
Scaling is in doubles, so a value can overflow but never wraps.
-/

namespace GrammarTables.Json

/-- The parts of a numeral, as digits. -/
structure Numeral where
  negative : Bool
  whole : List Nat
  /-- Empty if there is no point. -/
  fraction : List Nat
  /-- Whether the exponent is negative, and its digits. -/
  exponent : Option (Bool × List Nat)
  deriving DecidableEq, Repr

def isDigit (c : Char) : Bool := '0' ≤ c && c ≤ '9'

def digit (c : Char) : Nat := c.toNat - '0'.toNat

/-- The digits at the front of a text. -/
def digits (s : List Char) : List Nat := (s.takeWhile isDigit).map digit

def dropDigits (s : List Char) : List Char := s.dropWhile isDigit

namespace Numeral

/-! ## Scanning

`atEnd` is the problem where a text ends in the middle of a numeral. -/

/-- One zero, or digits that do not begin with zero. -/
def scanWhole (atEnd : Problem) : List Char → Except Failure (List Nat × List Char)
  | [] => .error (atEnd.before [])
  | c :: s =>
    if c = '0' then
      if (digits s).isEmpty then .ok ([0], s) else .error (Problem.invalidNumber.on s)
    else if isDigit c then .ok (digits (c :: s), dropDigits s)
    else .error (Problem.invalidNumber.on (c :: s))

def scanFraction (atEnd : Problem) : List Char → Except Failure (List Nat × List Char)
  | '.' :: s =>
    match digits s, s with
    | [], [] => .error (atEnd.on [])
    | [], s => .error (Problem.invalidNumber.on s)
    | ds, s => .ok (ds, dropDigits s)
  | s => .ok ([], s)

/-- The sign of an exponent. -/
def scanSign : List Char → Bool × List Char
  | '+' :: s => (false, s)
  | '-' :: s => (true, s)
  | s => (false, s)

def scanExponent (atEnd : Problem) : List Char → Except Failure (Option (Bool × List Nat) × List Char)
  | [] => .ok (none, [])
  | c :: s =>
    if c = 'e' ∨ c = 'E' then
      match scanSign s with
      | (_, []) => .error (atEnd.before [])
      | (negative, d :: r) =>
        if isDigit d then .ok (some (negative, digits (d :: r)), dropDigits r)
        else .error (Problem.invalidNumber.on (d :: r))
    else .ok (none, c :: s)

def scanUnsigned (atEnd : Problem) (negative : Bool) (s : List Char) :
    Except Failure (Numeral × List Char) := do
  let (whole, s) ← scanWhole atEnd s
  let (fraction, s) ← scanFraction atEnd s
  let (exponent, s) ← scanExponent atEnd s
  return (⟨negative, whole, fraction, exponent⟩, s)

/-- The numeral at the front of `s`. -/
def scan (atEnd : Problem) : List Char → Except Failure (Numeral × List Char)
  | '-' :: s => scanUnsigned atEnd true s
  | s => scanUnsigned atEnd false s

theorem length_dropDigits_le (s : List Char) : (dropDigits s).length ≤ s.length :=
  (List.dropWhile_suffix _).length_le

theorem length_of_scanWhole {p : Problem} {s r : List Char} {ds : List Nat}
    (h : scanWhole p s = .ok (ds, r)) : r.length < s.length := by
  unfold scanWhole at h
  split at h
  · cases h
  · next c t =>
    have := length_dropDigits_le t
    split at h
    · split at h
      · cases h
        exact Nat.lt_succ_self _
      · cases h
    · split at h
      · cases h
        exact Nat.lt_succ_of_le this
      · cases h

theorem length_of_scanFraction {p : Problem} {s r : List Char} {ds : List Nat}
    (h : scanFraction p s = .ok (ds, r)) : r.length ≤ s.length := by
  unfold scanFraction at h
  split at h
  · next t =>
    have := length_dropDigits_le t
    split at h
    · cases h
    · cases h
    · cases h
      exact Nat.le_succ_of_le this
  · cases h
    exact Nat.le_refl _

theorem length_scanSign_le (s : List Char) : (scanSign s).2.length ≤ s.length := by
  unfold scanSign
  split <;> simp

theorem length_of_scanExponent {p : Problem} {s r : List Char} {e : Option (Bool × List Nat)}
    (h : scanExponent p s = .ok (e, r)) : r.length ≤ s.length := by
  unfold scanExponent at h
  split at h
  · cases h
    exact Nat.le_refl _
  · next c t =>
    have hs := length_scanSign_le t
    split at h
    · split at h
      · cases h
      · next d u hd =>
        have := length_dropDigits_le u
        rw [hd, List.length_cons] at hs
        split at h
        · cases h
          simp only [List.length_cons]
          omega
        · cases h
    · cases h
      exact Nat.le_refl _

theorem length_of_scanUnsigned {p : Problem} {b : Bool} {s r : List Char} {n : Numeral}
    (h : scanUnsigned p b s = .ok (n, r)) : r.length < s.length := by
  simp only [scanUnsigned, bind, Except.bind] at h
  split at h
  · cases h
  · next w hw =>
    split at h
    · cases h
    · next f hf =>
      split at h
      · cases h
      · next e he =>
        have h1 := length_of_scanWhole hw
        have h2 := length_of_scanFraction hf
        have h3 := length_of_scanExponent he
        simp only [pure, Except.pure, Except.ok.injEq, Prod.mk.injEq] at h
        rw [← h.2]
        omega

theorem length_of_scan {p : Problem} {s r : List Char} {n : Numeral}
    (h : scan p s = .ok (n, r)) : r.length < s.length := by
  unfold scan at h
  split at h
  · have := length_of_scanUnsigned h
    simp only [List.length_cons]
    omega
  · exact length_of_scanUnsigned h

/-! ## Value -/

/-- Takes in digits while the number stays within `limit`, and gives the number and the digits left. -/
def absorb (limit acc : Nat) : List Nat → Nat × List Nat
  | [] => (acc, [])
  | d :: ds => if acc * 10 + d ≤ limit then absorb limit (acc * 10 + d) ds else (acc, d :: ds)

/-- Significands fit in 64 bits. -/
def significandLimit : Nat := UInt64.size - 1

/-- Exponents fit in 32 bits, with a sign. -/
def exponentLimit : Nat := UInt32.size / 2 - 1

def powerOfTen (k : Nat) : Float := OfScientific.ofScientific 1 false k

/-- The double `x * 10 ^ e`, in steps of at most `10 ^ 308`, or none if it is too large. -/
def scale (x : Float) (e : Int) : Option Float :=
  if e.natAbs ≤ 308 then
    if 0 ≤ e then
      let y := x * powerOfTen e.natAbs
      if y.isInf then none else some y
    else some (x / powerOfTen e.natAbs)
  else if x == 0 then some x
  else if 0 ≤ e then none
  else scale (x / powerOfTen 308) (e + 308)
termination_by e.natAbs
decreasing_by omega

def signed (negative : Bool) (x : Float) : Float := if negative then -x else x

/-- The double for a significand and a power of ten. -/
def double (negative : Bool) (significand : Nat) (e : Int) : Option Number :=
  (scale (UInt64.ofNat significand).toFloat e).map fun x => .double (signed negative x)

/-- The whole number, unless it is negative zero or below the range of 64 bits. -/
def integer (negative : Bool) (significand : Nat) : Number :=
  if negative then
    if 1 ≤ significand ∧ significand ≤ UInt64.size / 2 then .whole (-(significand : Int))
    else .double (-(UInt64.ofNat significand).toFloat)
  else .whole significand

/-- The value of a numeral, or how many of its characters are unread when it proves too large. -/
def value (n : Numeral) : Except Nat Number :=
  let (significand, surplus) := absorb significandLimit 0 n.whole
  if surplus.isEmpty && n.fraction.isEmpty && n.exponent.isNone then
    .ok (integer n.negative significand)
  else
    let (significand, dropped) := absorb significandLimit significand n.fraction
    let shift : Int := surplus.length - (n.fraction.length - dropped.length : Nat)
    match n.exponent with
    | none => (double n.negative significand shift).elim (.error 0) .ok
    | some (down, ds) =>
      match absorb exponentLimit 0 ds with
      | (e, []) =>
        let shift := if down then shift - e else shift + e
        (double n.negative significand shift).elim (.error 0) .ok
      | (_, _ :: unread) =>
        if significand ≠ 0 ∧ ¬ down then .error unread.length
        else .ok (.double (signed n.negative 0))

end Numeral

/-- The number at the front of `s`. -/
def readNumber (s : List Char) : Except Failure (Number × List Char) :=
  match Numeral.scan .eofInValue s with
  | .error e => .error e
  | .ok (n, r) =>
    match n.value with
    | .ok v => .ok (v, r)
    | .error unread => .error ⟨.numberOutOfRange, unread + bytes r⟩

theorem length_of_readNumber {s r : List Char} {n : Number} (h : readNumber s = .ok (n, r)) :
    r.length < s.length := by
  unfold readNumber at h
  split at h
  · cases h
  · next hs =>
    split at h
    · cases h
      exact Numeral.length_of_scan hs
    · cases h

end GrammarTables.Json
