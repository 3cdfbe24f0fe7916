import GrammarTables.Json.Blank

/-!
# Strings

A string is read to its closing quote. A character outside the basic plane may
be spelled as an escaped pair of surrogates; a surrogate on its own is refused.
`skipString` is the laxer reading of strings whose value is not wanted: it
takes any four hexadecimal digits for an escape.
-/

namespace GrammarTables.Json

def isControl (c : Char) : Bool := c.toNat < 32

/-- The value of a hexadecimal digit. -/
def hexDigit? (c : Char) : Option Nat :=
  if '0' ≤ c ∧ c ≤ '9' then some (c.toNat - '0'.toNat)
  else if 'a' ≤ c ∧ c ≤ 'f' then some (c.toNat - 'a'.toNat + 10)
  else if 'A' ≤ c ∧ c ≤ 'F' then some (c.toNat - 'A'.toNat + 10)
  else none

def hexDigits? : List Char → Option (Nat × List Char)
  | a :: b :: c :: d :: s => do
    let a ← hexDigit? a
    let b ← hexDigit? b
    let c ← hexDigit? c
    let d ← hexDigit? d
    return (((a * 16 + b) * 16 + c) * 16 + d, s)
  | _ => none

/-- The number that four hexadecimal digits spell. Four bytes are used up also if they are no such
digits. -/
def readHex (s : List Char) : Except Failure (Nat × List Char) :=
  match hexDigits? s with
  | some r => .ok r
  | none => if bytes s < 4 then .error ⟨.eofInString, 0⟩ else .error ⟨.invalidEscape, bytes s - 4⟩

theorem length_of_readHex {s r : List Char} {n : Nat} (h : readHex s = .ok (n, r)) :
    r.length < s.length := by
  unfold readHex at h
  split at h
  · next hs =>
    unfold hexDigits? at hs
    split at hs
    · simp only [bind, Option.bind_eq_some_iff] at hs
      obtain ⟨_, _, _, _, _, _, _, _, hs⟩ := hs
      cases hs
      cases h
      simp only [List.length_cons]
      omega
    · cases hs
  · split at h <;> cases h

/-- The second half of a pair of surrogates. -/
def isTrail (n : Nat) : Bool := 0xDC00 ≤ n && n ≤ 0xDFFF

/-- The first half of a pair of surrogates. -/
def isLead (n : Nat) : Bool := 0xD800 ≤ n && n ≤ 0xDBFF

/-- The character that a pair of surrogates stands for. -/
def pairChar (lead trail : Nat) : Char :=
  Char.ofNat (0x10000 + (lead - 0xD800) * 0x400 + (trail - 0xDC00))

/-- Reads the second half of a pair. -/
def readTrail (lead : Nat) : List Char → Except Failure (Char × List Char)
  | [] => .error (Problem.eofInString.before [])
  | '\\' :: [] => .error (Problem.eofInString.before [])
  | '\\' :: 'u' :: s =>
    match readHex s with
    | .error e => .error e
    | .ok (n, r) =>
      if isTrail n then .ok (pairChar lead n, r) else .error (Problem.loneSurrogate.before r)
  | '\\' :: s => .error (Problem.unexpectedEndOfHexEscape.on s)
  | s => .error (Problem.unexpectedEndOfHexEscape.on s)

/-- Reads the character that follows a backslash and a `u`. -/
def readUnicode (s : List Char) : Except Failure (Char × List Char) :=
  match readHex s with
  | .error e => .error e
  | .ok (n, r) =>
    if isTrail n then .error (Problem.loneSurrogate.before r)
    else if isLead n then readTrail n r
    else .ok (Char.ofNat n, r)

/-- The characters with an escape of one letter. -/
def shortEscape? : Char → Option Char
  | '"' => some '"'
  | '\\' => some '\\'
  | '/' => some '/'
  | 'b' => some '\x08'
  | 'f' => some '\x0c'
  | 'n' => some '\n'
  | 'r' => some '\r'
  | 't' => some '\t'
  | _ => none

/-- Reads what follows a backslash. -/
def readEscape : List Char → Except Failure (Char × List Char)
  | [] => .error (Problem.eofInString.before [])
  | c :: s =>
    if c = 'u' then readUnicode s
    else match shortEscape? c with
      | some d => .ok (d, s)
      | none => .error (Problem.invalidEscape.on (c :: s))

theorem length_of_readTrail {l : Nat} {c : Char} {s r : List Char}
    (h : readTrail l s = .ok (c, r)) : r.length < s.length := by
  unfold readTrail at h
  split at h
  · cases h
  · cases h
  · split at h
    · cases h
    · next hs =>
      have := length_of_readHex hs
      split at h
      · simp only [Except.ok.injEq, Prod.mk.injEq] at h
        simp only [List.length_cons, ← h.2]
        omega
      · cases h
  · cases h
  · cases h

theorem length_of_readUnicode {c : Char} {s r : List Char} (h : readUnicode s = .ok (c, r)) :
    r.length < s.length := by
  unfold readUnicode at h
  split at h
  · cases h
  · next hs =>
    have := length_of_readHex hs
    split at h
    · cases h
    · split at h
      · have := length_of_readTrail h
        omega
      · simp only [Except.ok.injEq, Prod.mk.injEq] at h
        exact h.2 ▸ this

theorem length_of_readEscape {c : Char} {s r : List Char} (h : readEscape s = .ok (c, r)) :
    r.length < s.length := by
  unfold readEscape at h
  split at h
  · cases h
  · split at h
    · have := length_of_readUnicode h
      simp only [List.length_cons]
      omega
    · split at h
      · cases h
        exact Nat.lt_succ_self _
      · cases h

/-- The characters up to the closing quote. -/
def readString : List Char → Except Failure (List Char × List Char)
  | [] => .error (Problem.eofInString.before [])
  | c :: s =>
    if c = '"' then .ok ([], s)
    else if c = '\\' then
      match h : readEscape s with
      | .error e => .error e
      | .ok (d, r) =>
        have := length_of_readEscape h
        (readString r).map fun (ds, r) => (d :: ds, r)
    else if isControl c then .error (Problem.controlCharacter.on (c :: s))
    else (readString s).map fun (ds, r) => (c :: ds, r)
termination_by s => s.length

theorem length_of_readString {ds s r : List Char} (h : readString s = .ok (ds, r)) :
    r.length < s.length := by
  fun_induction readString s generalizing ds r with
  | case1 => cases h
  | case2 => cases h; simp
  | case3 => cases h
  | case4 s d t he hl hq ih =>
    cases ht : readString t with
    | error e => simp [ht, Except.map] at h
    | ok p =>
      simp only [ht, Except.map, Except.ok.injEq, Prod.mk.injEq] at h
      have := ih ht
      simp only [List.length_cons, ← h.2]
      omega
  | case5 => cases h
  | case6 c s hq hb hc ih =>
    cases ht : readString s with
    | error e => simp [ht, Except.map] at h
    | ok p =>
      simp only [ht, Except.map, Except.ok.injEq, Prod.mk.injEq] at h
      have := ih ht
      simp only [List.length_cons, ← h.2]
      omega

/-! ## Strings that are passed over -/

def skipEscape : List Char → Except Failure (List Char)
  | [] => .error (Problem.eofInString.before [])
  | c :: s =>
    if c = 'u' then (readHex s).map (·.2)
    else if (shortEscape? c).isSome then .ok s
    else .error (Problem.invalidEscape.on (c :: s))

theorem length_of_skipEscape {s r : List Char} (h : skipEscape s = .ok r) :
    r.length < s.length := by
  unfold skipEscape at h
  split at h
  · cases h
  · next c t =>
    split at h
    · cases ht : readHex t with
      | error e => simp [ht, Except.map] at h
      | ok p =>
        have := length_of_readHex ht
        simp only [ht, Except.map, Except.ok.injEq] at h
        simp only [List.length_cons, ← h]
        omega
    · split at h
      · cases h
        exact Nat.lt_succ_self _
      · cases h

/-- The text behind the closing quote. -/
def skipString : List Char → Except Failure (List Char)
  | [] => .error (Problem.eofInString.before [])
  | c :: s =>
    if c = '"' then .ok s
    else if c = '\\' then
      match h : skipEscape s with
      | .error e => .error e
      | .ok r =>
        have := length_of_skipEscape h
        skipString r
    else if isControl c then .error (Problem.controlCharacter.before (c :: s))
    else skipString s
termination_by s => s.length

theorem length_of_skipString {s r : List Char} (h : skipString s = .ok r) :
    r.length < s.length := by
  fun_induction skipString s with
  | case1 => cases h
  | case2 => cases h; simp
  | case3 => cases h
  | case4 s hq t he hl ih =>
    have := ih h
    simp only [List.length_cons]
    omega
  | case5 => cases h
  | case6 c s hq hb hc ih =>
    have := ih h
    simp only [List.length_cons]
    omega

end GrammarTables.Json
