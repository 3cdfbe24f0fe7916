import GrammarTables.Proofs.Json.Written

/-!
# Nesting

`nesting` counts brackets in a text as a reader with a limit does: the most
that are open at one point, where those inside strings are no brackets.
`height` is the same of a value. A written value nests just as deep as it is
high.
-/

namespace GrammarTables.Json

/-! ## Of values -/

mutual

/-- How many lists and objects lie around the innermost parts of a value, itself included. -/
def height : Json → Nat
  | null => 0
  | bool _ => 0
  | number _ => 0
  | string _ => 0
  | list vs => itemsHeight vs + 1
  | object ms => membersHeight ms + 1

def itemsHeight : List Json → Nat
  | [] => 0
  | v :: vs => max v.height (itemsHeight vs)

def membersHeight : List (String × Json) → Nat
  | [] => 0
  | (_, v) :: ms => max v.height (membersHeight ms)

end

/-! ## Of texts -/

/-- Where in a text one is: outside of strings, inside one, or behind a backslash in one. -/
inductive Spot where
  | outside
  | inString
  | escaped
  deriving DecidableEq, Repr

namespace Spot

/-- Where one is behind a character. -/
def next : Spot → Char → Spot
  | outside, c => if c = '"' then inString else outside
  | inString, c => if c = '"' then outside else if c = '\\' then escaped else inString
  | escaped, _ => inString

/-- How many brackets are open behind a character, if `n` are open before it. -/
def opened (n : Nat) : Spot → Char → Nat
  | outside, c =>
    if c = '[' ∨ c = '{' then n + 1 else if c = ']' ∨ c = '}' then n - 1 else n
  | _, _ => n

end Spot

/-- The most brackets that are open at a point of a text, if `n` are open at its front. -/
def deepest (spot : Spot) (n : Nat) : List Char → Nat
  | [] => n
  | c :: s => max n (deepest (spot.next c) (spot.opened n c) s)

/-- How deep brackets nest in a text. -/
def nesting (text : String) : Nat := deepest .outside 0 text.toList

theorem le_deepest (spot : Spot) (n : Nat) (s : List Char) : n ≤ deepest spot n s := by
  cases s with
  | nil => exact Nat.le_refl n
  | cons c s => exact Nat.le_max_left ..

theorem max_deepest (spot : Spot) (n : Nat) (s : List Char) :
    max n (deepest spot n s) = deepest spot n s :=
  Nat.max_eq_right (le_deepest spot n s)

/-! ## Texts without brackets -/

/-- Whether a character leaves the count of brackets alone, outside of strings. -/
def isInert (c : Char) : Bool :=
  c != '"' && c != '[' && c != '{' && c != ']' && c != '}'

theorem deepest_inert {s : List Char} (hs : s.all isInert) (n : Nat) (t : List Char) :
    deepest .outside n (s ++ t) = deepest .outside n t := by
  induction s with
  | nil => rfl
  | cons c s ih =>
    obtain ⟨hc, hs⟩ := Bool.and_eq_true_iff.mp hs
    simp only [isInert, Bool.and_eq_true, bne_iff_ne, ne_eq] at hc
    have hn : Spot.opened n .outside c = n := by simp [Spot.opened, hc]
    have hp : Spot.next .outside c = .outside := by simp [Spot.next, hc]
    rw [List.cons_append, deepest, hn, hp, ih hs]
    exact max_deepest ..

theorem isInert_of_isNumeralChar {c : Char} (h : isNumeralChar c) : isInert c := by
  simp only [isInert, Bool.and_eq_true, bne_iff_ne]
  refine ⟨⟨⟨⟨?_, ?_⟩, ?_⟩, ?_⟩, ?_⟩ <;> (rintro rfl; exact absurd h (by decide))

/-! ## Written strings -/

theorem deepest_inString {c : Char} (hq : c ≠ '"') (hb : c ≠ '\\') (n : Nat) (s : List Char) :
    deepest .inString n (c :: s) = deepest .inString n s := by
  have hn : Spot.next .inString c = .inString := by simp [Spot.next, hq, hb]
  rw [deepest, hn]
  exact max_deepest ..

theorem deepest_escape (c : Char) (n : Nat) (s : List Char) :
    deepest .inString n ('\\' :: c :: s) = deepest .inString n s := by
  calc deepest .inString n ('\\' :: c :: s)
      = max n (max n (deepest .inString n s)) := rfl
    _ = deepest .inString n s := by
      rw [max_deepest, max_deepest]

theorem hexLetter_ne (n : Nat) : hexLetter n ≠ '"' ∧ hexLetter n ≠ '\\' := by
  match n with
  | 0 | 1 | 2 | 3 | 4 | 5 | 6 | 7 | 8 | 9 | 10 | 11 | 12 | 13 | 14 | 15 => decide
  | _ + 16 => simp [hexLetter, Nat.digitChar]

theorem deepest_writeChar (c : Char) (n : Nat) (s : List Char) :
    deepest .inString n (writeChar c ++ s) = deepest .inString n s := by
  unfold writeChar
  split
  · exact deepest_escape '"' n s
  · next hq =>
    split
    · exact deepest_escape '\\' n s
    · next hb =>
      split
      · obtain ⟨h1, h2⟩ := hexLetter_ne (c.toNat / 16)
        obtain ⟨h3, h4⟩ := hexLetter_ne (c.toNat % 16)
        simp only [controlEscape, List.cons_append, List.nil_append]
        rw [deepest_escape, deepest_inString (by decide) (by decide),
          deepest_inString (by decide) (by decide), deepest_inString h1 h2,
          deepest_inString h3 h4]
      · exact deepest_inString hq hb n s

theorem deepest_writeString (t : String) (n : Nat) (s : List Char) :
    deepest .outside n (writeString t ++ s) = deepest .outside n s := by
  have chars : ∀ cs : List Char, deepest .inString n (cs.flatMap writeChar ++ '"' :: s) =
      deepest .outside n s := by
    intro cs
    induction cs with
    | nil => exact max_deepest ..
    | cons c cs ih => rw [List.flatMap_cons, List.append_assoc, deepest_writeChar, ih]
  rw [writeString, List.cons_append, List.append_assoc, List.singleton_append, deepest]
  exact (max_deepest ..).trans (chars t.toList)

/-! ## Written values -/

theorem deepest_open {b : Char} (hb : b = '[' ∨ b = '{') (n : Nat) (s : List Char) :
    deepest .outside n (b :: s) = max n (deepest .outside (n + 1) s) := by
  rcases hb with rfl | rfl <;> rfl

theorem deepest_close {b : Char} (hb : b = ']' ∨ b = '}') (n : Nat) (s : List Char) :
    deepest .outside (n + 1) (b :: s) = max (n + 1) (deepest .outside n s) := by
  rcases hb with rfl | rfl <;> rfl

theorem deepest_separator {b : Char} (hb : b = ',' ∨ b = ':') (n : Nat) (s : List Char) :
    deepest .outside n (b :: s) = deepest .outside n s := by
  rcases hb with rfl | rfl <;> exact max_deepest ..

mutual

theorem deepest_write (v : Json) (n : Nat) (s : List Char) :
    deepest .outside n (v.write ++ s) = max (n + v.height) (deepest .outside n s) := by
  cases v with
  | null =>
    rw [write, deepest_inert (by decide)]
    exact (max_deepest ..).symm
  | bool b =>
    cases b <;> rw [write, deepest_inert (by decide)] <;>
      exact (max_deepest ..).symm
  | number m =>
    have hm : (writeNumber m).all isInert := List.all_eq_true.mpr fun c hc =>
      isInert_of_isNumeralChar (isNumeralChar_of_mem_writeNumber hc)
    rw [write, deepest_inert hm]
    exact (max_deepest ..).symm
  | string t =>
    rw [write, deepest_writeString]
    exact (max_deepest ..).symm
  | list vs =>
    cases vs with
    | nil =>
      simp only [write, List.cons_append, List.nil_append, height, itemsHeight]
      rw [deepest_open (.inl rfl), deepest_close (.inl rfl)]
      omega
    | cons v vs =>
      simp only [write, List.cons_append, List.append_assoc, height, itemsHeight]
      rw [deepest_open (.inl rfl), deepest_write v, deepest_writeItems vs]
      omega
  | object ms =>
    cases ms with
    | nil =>
      simp only [write, List.cons_append, List.nil_append, height, membersHeight]
      rw [deepest_open (.inr rfl), deepest_close (.inr rfl)]
      omega
    | cons m ms =>
      simp only [write, List.cons_append, List.append_assoc, height, membersHeight]
      rw [deepest_open (.inr rfl), deepest_writeString, deepest_separator (.inr rfl),
        deepest_write m.2, deepest_writeMembers ms]
      omega

theorem deepest_writeItems (vs : List Json) (n : Nat) (s : List Char) :
    deepest .outside (n + 1) (writeItems vs ++ s) =
      max (n + 1 + itemsHeight vs) (deepest .outside n s) := by
  cases vs with
  | nil => exact deepest_close (.inl rfl) n s
  | cons v vs =>
    simp only [writeItems, List.cons_append, List.append_assoc, itemsHeight]
    rw [deepest_separator (.inl rfl), deepest_write v, deepest_writeItems vs]
    omega

theorem deepest_writeMembers (ms : List (String × Json)) (n : Nat) (s : List Char) :
    deepest .outside (n + 1) (writeMembers ms ++ s) =
      max (n + 1 + membersHeight ms) (deepest .outside n s) := by
  cases ms with
  | nil => exact deepest_close (.inr rfl) n s
  | cons m ms =>
    simp only [writeMembers, List.cons_append, List.append_assoc, membersHeight]
    rw [deepest_separator (.inl rfl), deepest_writeString, deepest_separator (.inr rfl),
      deepest_write m.2, deepest_writeMembers ms]
    omega

end

theorem nesting_text (v : Json) : nesting v.text = v.height := by
  have h := deepest_write v 0 []
  rw [List.append_nil] at h
  rw [nesting, text, String.toList_ofList, h, deepest, Nat.zero_add, Nat.max_zero]

end GrammarTables.Json
