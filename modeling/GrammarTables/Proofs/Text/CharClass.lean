import GrammarTables.Text.CharClass

/-!
# Classes of characters

Where changes ascend, a character lies in the class just if it lies between two
of them that go together.
-/

namespace GrammarTables.Text

namespace CharClass

/-- A code point is between the first and the second change, or the third and the fourth, and so
on. -/
def Within : List Nat → Nat → Prop
  | first :: last :: changes, n => (first ≤ n ∧ n < last) ∨ Within changes n
  | [first], n => first ≤ n
  | [], _ => False

theorem not_within_of_lt {changes : List Nat} {n : Nat} (h : ∀ m ∈ changes, n < m) :
    ¬ Within changes n := by
  fun_induction Within changes n with
  | case1 first last changes n ih =>
    have hf := h first List.mem_cons_self
    rintro (⟨hle, -⟩ | hw)
    · omega
    · exact ih (fun m hm => h m (List.mem_cons_of_mem _ (List.mem_cons_of_mem _ hm))) hw
  | case2 first n =>
    have hf := h first List.mem_cons_self
    omega
  | case3 => exact id

theorem odd_takeWhile_iff {changes : List Nat} {n : Nat} (h : changes.Pairwise (· < ·)) :
    (changes.takeWhile (· ≤ n)).length % 2 = 1 ↔ Within changes n := by
  fun_induction Within changes n with
  | case1 first last changes n ih =>
    obtain ⟨hfirst, h⟩ := List.pairwise_cons.mp h
    obtain ⟨hlast, h⟩ := List.pairwise_cons.mp h
    have hlt := hfirst last List.mem_cons_self
    by_cases hf : first ≤ n
    · by_cases hl : last ≤ n
      · have hn : ¬ n < last := by omega
        simp only [List.takeWhile_cons, hf, hl, hn, decide_true, if_true, List.length_cons,
          true_and, false_or, ← ih h]
        omega
      · have hn : n < last := by omega
        simp [hf, hl, hn]
    · have hw : ¬ Within changes n := not_within_of_lt fun m hm => by
        have := hlast m hm
        omega
      simp [hf, hw]
  | case2 first n =>
    by_cases hf : first ≤ n <;> simp [hf]
  | case3 => simp

theorem contains_iff {k : CharClass} (h : k.changes.Pairwise (· < ·)) (c : Char) :
    k.contains c ↔ Within k.changes c.toNat := by
  rw [contains, beq_iff_eq]
  exact odd_takeWhile_iff h

end CharClass

/-- The characters with the property White_Space. -/
def IsWhiteSpace (c : Char) : Prop :=
  let n := c.toNat
  0x9 ≤ n ∧ n ≤ 0xd ∨ n = 0x20 ∨ n = 0x85 ∨ n = 0xa0 ∨ n = 0x1680 ∨ 0x2000 ≤ n ∧ n ≤ 0x200a ∨
    n = 0x2028 ∨ n = 0x2029 ∨ n = 0x202f ∨ n = 0x205f ∨ n = 0x3000

theorem whiteSpace_contains_iff (c : Char) : whiteSpace.contains c ↔ IsWhiteSpace c := by
  rw [CharClass.contains_iff (by decide)]
  simp only [whiteSpace, CharClass.Within, IsWhiteSpace, or_false]
  omega

instance (c : Char) : Decidable (IsWhiteSpace c) := decidable_of_iff _ (whiteSpace_contains_iff c)

theorem isWhite_eq (s : String) : isWhite s = s.toList.all (IsWhiteSpace ·) := by
  rw [Bool.eq_iff_iff]
  simp only [isWhite, List.all_eq_true, whiteSpace_contains_iff, decide_eq_true_iff]

end GrammarTables.Text
