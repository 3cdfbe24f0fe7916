import GrammarTables.Json.Blank
import GrammarTables.Json.Writer

/-!
# Written values

What the characters of a written value are, as far as readers need to know it
before they read on: no value begins with a blank or with a closing bracket,
and only null begins like null.
-/

namespace GrammarTables.Json

/-! ## Numbers -/

/-- The characters of written numbers. -/
def isNumeralChar (c : Char) : Bool := c.isDigit || c == '-' || c == '+' || c == '.' || c == 'e'

theorem isNumeralChar_of_mem_toDigits {n : Nat} {c : Char} (h : c ∈ Nat.toDigits 10 n) :
    isNumeralChar c := by
  simp [isNumeralChar, Nat.isDigit_of_mem_toDigits (by decide) (by decide) h]

theorem isNumeralChar_of_mem_zeros {k : Nat} {c : Char} (h : c ∈ List.replicate k '0') :
    isNumeralChar c := by
  rw [List.eq_of_mem_replicate h]
  decide

theorem isNumeralChar_of_mem_positional {d : Decimal} {c : Char} (h : c ∈ d.positional.toList) :
    isNumeralChar c := by
  simp only [Decimal.positional, String.toList_ofList] at h
  split at h
  · simp only [List.mem_append, List.mem_cons, List.not_mem_nil, or_false] at h
    rcases h with (h | h) | rfl | rfl
    · exact isNumeralChar_of_mem_toDigits h
    · exact isNumeralChar_of_mem_zeros h
    · decide
    · decide
  · split at h
    · simp only [List.mem_append, List.mem_cons] at h
      rcases h with h | rfl | h
      · exact isNumeralChar_of_mem_toDigits (List.mem_of_mem_take h)
      · decide
      · exact isNumeralChar_of_mem_toDigits (List.mem_of_mem_drop h)
    · simp only [List.mem_append, List.mem_cons] at h
      rcases h with rfl | rfl | h | h
      · decide
      · decide
      · exact isNumeralChar_of_mem_zeros h
      · exact isNumeralChar_of_mem_toDigits h

theorem isNumeralChar_of_mem_scientific {d : Decimal} {c : Char} (h : c ∈ d.scientific.toList) :
    isNumeralChar c := by
  simp only [Decimal.scientific, String.toList_ofList, List.mem_append, List.mem_cons] at h
  rcases h with (h | h) | rfl | rfl | h
  · exact isNumeralChar_of_mem_toDigits (List.mem_of_mem_take h)
  · split at h
    · cases h
    · rcases List.mem_cons.mp h with rfl | h
      · decide
      · exact isNumeralChar_of_mem_toDigits (List.mem_of_mem_drop h)
  · decide
  · split <;> decide
  · exact isNumeralChar_of_mem_toDigits h

theorem isNumeralChar_of_mem_ofFloat {x : Float} {c : Char} (h : c ∈ (Decimal.ofFloat x).toList) :
    isNumeralChar c := by
  have hs : ∀ b : Bool, c ∈ (if b then "-" else "").toList → isNumeralChar c := by
    rintro (_ | _) hc
    · cases hc
    · rcases List.mem_singleton.mp hc with rfl
      decide
  simp only [Decimal.ofFloat] at h
  split at h
  · rw [String.toList_append, List.mem_append] at h
    rcases h with h | h
    · exact hs _ h
    · exact List.all_eq_true.mp (by decide : "0.0".toList.all isNumeralChar) c h
  · rw [String.toList_append, List.mem_append] at h
    rcases h with h | h
    · exact hs _ h
    · unfold Decimal.text at h
      split at h
      · exact isNumeralChar_of_mem_positional h
      · exact isNumeralChar_of_mem_scientific h

theorem ofFloat_ne_nil (x : Float) : (Decimal.ofFloat x).toList ≠ [] := by
  have ht : ∀ d : Decimal, d.text.toList ≠ [] := by
    intro d
    unfold Decimal.text
    split
    · simp only [Decimal.positional, String.toList_ofList]
      repeat' split
      all_goals simp
    · simp [Decimal.scientific]
  simp only [Decimal.ofFloat]
  split <;> simp [ht]

/-- The digits of a whole number, behind its sign. -/
theorem writeNumber_whole (n : Int) :
    writeNumber (.whole n) =
      if 0 ≤ n then Nat.toDigits 10 n.toNat else '-' :: Nat.toDigits 10 (-n).toNat := by
  rw [writeNumber, Int.toString_eq_repr, Int.repr_eq_if]
  split
  · rw [Nat.toList_repr]
  · rw [String.toList_append, Nat.toList_repr]
    rfl

theorem isNumeralChar_of_mem_writeNumber {n : Number} {c : Char} (h : c ∈ writeNumber n) :
    isNumeralChar c := by
  cases n with
  | whole n =>
    rw [writeNumber_whole] at h
    split at h
    · exact isNumeralChar_of_mem_toDigits h
    · rcases List.mem_cons.mp h with rfl | h
      · decide
      · exact isNumeralChar_of_mem_toDigits h
  | double x => exact isNumeralChar_of_mem_ofFloat h

theorem writeNumber_ne_nil (n : Number) : writeNumber n ≠ [] := by
  cases n with
  | whole n =>
    rw [writeNumber_whole]
    split <;> simp
  | double x => exact ofFloat_ne_nil x

/-! ## First characters -/

/-- The characters that a written value may begin with. -/
def isStart (c : Char) : Bool :=
  isNumeralChar c || c == 'n' || c == 't' || c == 'f' || c == '"' || c == '[' || c == '{'

theorem write_eq_cons (v : Json) :
    ∃ c t, v.write = c :: t ∧ isStart c ∧ (c = 'n' → v = .null) := by
  cases v with
  | null => exact ⟨'n', _, rfl, by decide, fun _ => rfl⟩
  | bool b =>
    cases b
    · exact ⟨'f', _, rfl, by decide, fun h => absurd h (by decide)⟩
    · exact ⟨'t', _, rfl, by decide, fun h => absurd h (by decide)⟩
  | number n =>
    obtain ⟨c, t, h⟩ := List.exists_cons_of_ne_nil (writeNumber_ne_nil n)
    have hc : isNumeralChar c := isNumeralChar_of_mem_writeNumber (h ▸ List.mem_cons_self)
    refine ⟨c, t, h, by simp [isStart, hc], ?_⟩
    rintro rfl
    exact absurd hc (by decide)
  | string s => exact ⟨'"', _, rfl, by decide, fun h => absurd h (by decide)⟩
  | list vs => cases vs <;> exact ⟨'[', _, rfl, by decide, fun h => absurd h (by decide)⟩
  | object ms => cases ms <;> exact ⟨'{', _, rfl, by decide, fun h => absurd h (by decide)⟩

theorem isBlank_of_isStart {c : Char} (h : isStart c) : isBlank c = false := by
  rw [Bool.eq_false_iff]
  intro hb
  simp only [isBlank, Bool.or_eq_true, beq_iff_eq] at hb
  rcases hb with ((rfl | rfl) | rfl) | rfl <;> exact absurd h (by decide)

theorem ne_of_isStart {c d : Char} (h : isStart c) (hd : isStart d = false) : c ≠ d := by
  rintro rfl
  rw [h] at hd
  cases hd

theorem dropBlank_of_not_isBlank {c : Char} (hc : isBlank c = false) (s : List Char) :
    dropBlank (c :: s) = c :: s := by
  simp [dropBlank, hc]

theorem dropBlank_write (v : Json) (s : List Char) : dropBlank (v.write ++ s) = v.write ++ s := by
  obtain ⟨c, t, h, hc, -⟩ := write_eq_cons v
  rw [h]
  exact dropBlank_of_not_isBlank (isBlank_of_isStart hc) (t ++ s)

end GrammarTables.Json
