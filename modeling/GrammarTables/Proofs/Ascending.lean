import GrammarTables.Ascending
import GrammarTables.Proofs.Text.ByteOrder
import Mathlib.Data.List.Destutter
import Mathlib.Data.List.Perm.Basic

/-!
# Ascending lists

What occurs in a list comes out ascending, and an ascending list is known by its members. So it does
not matter how a list is put in order: sorting it and leaving out what is repeated comes to the same.
-/

namespace GrammarTables.Ascending

variable {α : Type} [LE α] [LT α] [Std.LawfulOrderLT α] {a : α} {as bs : List α}

theorem nodup_of_pairwise (h : as.Pairwise (· < ·)) : as.Nodup := h.imp Std.ne_of_lt

theorem one_lt_length_iff (h : as.Pairwise (· < ·)) :
    1 < as.length ↔ ∃ x y, x ≠ y ∧ x ∈ as ∧ y ∈ as := by
  rcases as with _ | ⟨a, _ | ⟨b, bs⟩⟩
  · simp
  · simp
  · have hab : a ≠ b := Std.ne_of_lt ((List.pairwise_cons.mp h).1 b List.mem_cons_self)
    refine iff_of_true (by simp) ⟨a, b, hab, List.mem_cons_self, ?_⟩
    exact List.mem_cons_of_mem a List.mem_cons_self

variable [Std.IsLinearOrder α]

/-- Ascending lists with the same members are equal. -/
theorem eq_of_mem (ha : as.Pairwise (· < ·)) (hb : bs.Pairwise (· < ·)) (h : ∀ x, x ∈ as ↔ x ∈ bs) :
    as = bs := by
  refine List.Perm.eq_of_pairwise (fun x y _ _ hxy hyx => ?_) ha hb
    ((List.perm_ext_iff_of_nodup (nodup_of_pairwise ha) (nodup_of_pairwise hb)).mpr h)
  exact absurd (Std.lt_trans hxy hyx) Std.lt_irrefl

variable [DecidableLT α] [DecidableEq α]

theorem pairwise_insert (h : bs.Pairwise (· < ·)) : (insert a bs).Pairwise (· < ·) := by
  induction bs with
  | nil => exact List.pairwise_singleton ..
  | cons b bs ih =>
    obtain ⟨hb, hbs⟩ := List.pairwise_cons.mp h
    unfold insert
    split
    · next hlt =>
      refine List.pairwise_cons.mpr ⟨List.forall_mem_cons.mpr ⟨hlt, fun x hx => ?_⟩, h⟩
      exact Std.lt_trans hlt (hb x hx)
    · next hlt =>
      split
      · exact h
      · next hne =>
        refine List.pairwise_cons.mpr ⟨fun x hx => ?_, ih hbs⟩
        rcases mem_insert.mp hx with rfl | hx
        · exact Std.lt_of_le_of_ne (Std.not_lt.mp hlt) (Ne.symm hne)
        · exact hb x hx

theorem pairwise_ofList (as : List α) : (ofList as).Pairwise (· < ·) := by
  induction as with
  | nil => exact .nil
  | cons a as ih => exact pairwise_insert ih

theorem ofList_eq (ha : as.Pairwise (· < ·)) (h : ∀ x, x ∈ bs ↔ x ∈ as) : ofList bs = as :=
  eq_of_mem (pairwise_ofList bs) ha fun x => mem_ofList.trans (h x)

variable [DecidableLE α]

/-- Sorting, and then leaving out each item that is equal to the one before it. -/
theorem ofList_eq_destutter_mergeSort (as : List α) :
    ofList as = (as.mergeSort (· ≤ ·)).destutter (· ≠ ·) := by
  have hsorted : (as.mergeSort (· ≤ ·)).Pairwise (· ≤ ·) :=
    (List.pairwise_mergeSort (by simpa using fun _ _ _ => Std.le_trans)
      (by simpa using fun a b : α => Std.le_total (a := a) (b := b)) as).imp of_decide_eq_true
  rw [hsorted.destutter_eq_dedup]
  refine ofList_eq ?_ fun x => by simp
  refine ((List.nodup_dedup _).and (hsorted.sublist (List.dedup_sublist _))).imp ?_
  intro x y h
  exact Std.lt_of_le_of_ne h.2 h.1

/-- An ascending list of names is the only list with its members that ascends by bytes. -/
theorem eq_iff_utf8 {names others : List String} {P : String → Prop}
    (hascends : names.Pairwise (· < ·)) (hmem : ∀ name, name ∈ names ↔ P name) :
    names = others ↔
      (others.Pairwise fun a b => Text.utf8 a < Text.utf8 b) ∧ ∀ name, name ∈ others ↔ P name := by
  constructor
  · rintro rfl
    exact ⟨hascends.imp Text.utf8_lt, hmem⟩
  · rintro ⟨hothers, hmem'⟩
    have hothers : others.Pairwise (· < ·) := hothers.imp Text.utf8_lt_iff.mp
    exact eq_of_mem hascends hothers fun name => (hmem name).trans (hmem' name).symm

end GrammarTables.Ascending
