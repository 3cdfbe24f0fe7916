import Mathlib.Computability.Language

/-!
# Sets of strings

Two ways to make sets of strings from others. Strings may be put for letters, and this keeps sums,
products and repetitions. And items may be listed with separators between them, which is the same as
an item, and behind it any number of pairs of a separator and an item.
-/

namespace GrammarTables.Strings

open scoped Computability

/-! ## Letters that stand for strings -/

section Substitution

variable {α β : Type*}

/-- The strings that come from putting, for each letter, a string that it stands for. -/
def substituted (f : α → Language β) (l : Language α) : Language β :=
  {w | ∃ u ∈ l, w ∈ (u.map f).prod}

variable {f : α → Language β} {l m : Language α} {w : List β}

theorem mem_substituted : w ∈ substituted f l ↔ ∃ u ∈ l, w ∈ (u.map f).prod := Iff.rfl

theorem substituted_singleton (a : α) : substituted f {[a]} = f a := by
  ext w
  rw [mem_substituted]
  constructor
  · rintro ⟨u, rfl, hw⟩
    simpa using hw
  · exact fun hw => ⟨[a], rfl, by simpa using hw⟩

variable (f) in
/-- Putting strings for letters keeps sums and products. -/
def substitution : Language α →+* Language β where
  toFun := substituted f
  map_zero' := by
    ext w
    simp [mem_substituted, Language.notMem_zero]
  map_one' := by
    ext w
    simp [mem_substituted, Language.mem_one]
  map_add' l m := by
    ext w
    simp only [mem_substituted, Language.mem_add, or_and_right, exists_or]
  map_mul' l m := by
    ext w
    simp only [mem_substituted, Language.mem_mul]
    constructor
    · rintro ⟨_, ⟨u, hu, v, hv, rfl⟩, hw⟩
      rw [List.map_append, List.prod_append] at hw
      obtain ⟨x, hx, y, hy, rfl⟩ := Language.mem_mul.mp hw
      exact ⟨x, ⟨u, hu, hx⟩, y, ⟨v, hv, hy⟩, rfl⟩
    · rintro ⟨x, ⟨u, hu, hx⟩, y, ⟨v, hv, hy⟩, rfl⟩
      refine ⟨u ++ v, ⟨u, hu, v, hv, rfl⟩, ?_⟩
      rw [List.map_append, List.prod_append]
      exact Language.append_mem_mul hx hy

theorem substitution_kstar : substitution f l∗ = (substitution f l)∗ := by
  ext w
  have pow (n : ℕ) : w ∈ substitution f l ^ n ↔ ∃ u ∈ l ^ n, w ∈ (u.map f).prod := by
    rw [← map_pow]
    rfl
  simp only [Language.kstar_eq_iSup_pow, Language.mem_iSup, pow]
  constructor
  · rintro ⟨u, hu, hw⟩
    obtain ⟨n, hu⟩ := Language.mem_iSup.mp hu
    exact ⟨n, u, hu, hw⟩
  · rintro ⟨n, u, hu, hw⟩
    exact ⟨u, Language.mem_iSup.mpr ⟨n, hu⟩, hw⟩

end Substitution

/-! ## Lists with separators -/

section Lists

variable {α : Type*} {item separator : Language α} {items separators : List (List α)}

/-- The items in order, with the separators between them. -/
def interlaced : List (List α) → List (List α) → List α
  | i :: items, s :: separators => i ++ s ++ interlaced items separators
  | items, _ => items.flatten

/-- The strings `i₁ s₁ i₂ s₂ … iₖ`, made of one or more items and the separators between them. -/
def separated (item separator : Language α) : Language α :=
  {w | ∃ items separators, items.length = separators.length + 1 ∧ (∀ i ∈ items, i ∈ item) ∧
    (∀ s ∈ separators, s ∈ separator) ∧ w = interlaced items separators}

theorem mem_separated_of_mem {i : List α} (hi : i ∈ item) : i ∈ separated item separator :=
  ⟨[i], [], rfl, List.forall_mem_singleton.mpr hi, List.forall_mem_nil _, by simp [interlaced]⟩

theorem append_mem_separated {i s w : List α} (hi : i ∈ item) (hs : s ∈ separator)
    (hw : w ∈ separated item separator) : i ++ s ++ w ∈ separated item separator := by
  obtain ⟨items, separators, hlength, hitems, hseparators, rfl⟩ := hw
  exact ⟨i :: items, s :: separators, congrArg (· + 1) hlength,
    List.forall_mem_cons.mpr ⟨hi, hitems⟩, List.forall_mem_cons.mpr ⟨hs, hseparators⟩, rfl⟩

theorem interlaced_mem (hlength : items.length = separators.length + 1)
    (hitems : ∀ i ∈ items, i ∈ item) (hseparators : ∀ s ∈ separators, s ∈ separator) :
    interlaced items separators ∈ item * (separator * item)∗ := by
  induction separators generalizing items with
  | nil =>
    obtain ⟨i, rfl⟩ := List.length_eq_one_iff.mp hlength
    have hi : i ++ [] ∈ item * (separator * item)∗ :=
      Language.append_mem_mul (hitems i List.mem_cons_self) (Language.nil_mem_kstar _)
    simpa [interlaced] using hi
  | cons s separators ih =>
    obtain ⟨i, items, rfl⟩ := List.exists_cons_of_length_eq_add_one hlength
    obtain ⟨hi, hitems⟩ := List.forall_mem_cons.mp hitems
    obtain ⟨hs, hseparators⟩ := List.forall_mem_cons.mp hseparators
    -- The separator goes with the first item of what is left.
    have hrest : s ++ interlaced items separators ∈ separator * (item * (separator * item)∗) :=
      Language.append_mem_mul hs (ih (Nat.succ.inj hlength) hitems hseparators)
    have hmore : separator * (item * (separator * item)∗) ≤ (separator * item)∗ := by
      rw [← mul_assoc]
      exact mul_kstar_le_kstar
    rw [interlaced, List.append_assoc]
    exact Language.append_mem_mul hi (hmore hrest)

/-- Lists are an item, and any number of times a separator with an item behind it. -/
theorem separated_eq : separated item separator = item * (separator * item)∗ := by
  ext w
  constructor
  · rintro ⟨items, separators, hlength, hitems, hseparators, rfl⟩
    exact interlaced_mem hlength hitems hseparators
  · intro hw
    obtain ⟨i, hi, v, hv, rfl⟩ := Language.mem_mul.mp hw
    obtain ⟨pairs, rfl, hpairs⟩ := Language.mem_kstar.mp hv
    clear hw hv
    -- The item of each pair begins a list of its own, so the first item may be any.
    induction pairs generalizing i with
    | nil => simpa using mem_separated_of_mem hi
    | cons pair pairs ih =>
      obtain ⟨hpair, hrest⟩ := List.forall_mem_cons.mp hpairs
      obtain ⟨s, hs, j, hj, rfl⟩ := Language.mem_mul.mp hpair
      simpa using append_mem_separated hi hs (ih j hj hrest)

end Lists

end GrammarTables.Strings
