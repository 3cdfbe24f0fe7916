import GrammarTables.Json.Decoder
import GrammarTables.Proofs.Json.MoreText.Scan
import Mathlib.Data.List.DropRight

/-!
# Truncated and extended texts

If a value is read the same whatever stands behind it, no text that holds one
can be cut off or go on. What is behind the value is left, and so is what was
cut off of a longer text.
-/

namespace GrammarTables.Json

variable {α : Type} {d : Decoder α} {a : α}

/-- The decoder gives the same value for every longer text. -/
def Decoder.Closed (d : Decoder α) : Prop :=
  ∀ s r a, d.run s = .ok (a, r) → ∀ u, d.run (s ++ u) = .ok (a, r ++ u)

/-- The white space of JSON. -/
def blanks : List Char := [' ', '\n', '\t', '\r']

theorem isBlank_eq (c : Char) : isBlank c = decide (c ∈ blanks) := by
  simp [isBlank, blanks, Bool.or_assoc, Bool.beq_eq_decide_eq]

theorem dropBlank_eq_nil {s : List Char} : dropBlank s = [] ↔ ∀ c ∈ s, c ∈ blanks := by
  simp only [dropBlank, List.dropWhile_eq_nil_iff, isBlank_eq, decide_eq_true_iff]

theorem atEnd_eq_ok {s : List Char} : atEnd s = .ok () ↔ ∀ c ∈ s, c ∈ blanks := by
  rw [← dropBlank_eq_nil, atEnd]
  split <;> simp_all

/-- A text is decoded if only blanks are left behind its value. -/
theorem Decoder.decode_eq_ok {text : String} :
    d.decode text = .ok a ↔ ∃ r, d.run text.toList = .ok (a, r) ∧ ∀ c ∈ r, c ∈ blanks := by
  simp only [← atEnd_eq_ok, decode]
  split
  · next hd => simp [hd]
  · next b r hd =>
    rw [hd]
    constructor
    · intro h
      obtain ⟨⟨⟩, he, rfl⟩ := map_eq_ok.mp h
      exact ⟨r, rfl, he⟩
    · rintro ⟨_, heq, he⟩
      cases heq
      rw [he]
      rfl

theorem Decoder.Closed.decode_append (hd : d.Closed) {text more : String}
    (h : d.decode text = .ok a) (hm : ∃ c ∈ more.toList, c ∉ blanks) :
    ∃ f, d.decode (text ++ more) = .error f := by
  obtain ⟨r, hr, -⟩ := decode_eq_ok.mp h
  obtain ⟨c, hc, hb⟩ := hm
  cases hx : d.decode (text ++ more) with
  | error f => exact ⟨f, rfl⟩
  | ok b =>
    obtain ⟨q, hq, hblank⟩ := decode_eq_ok.mp hx
    rw [String.toList_append, hd _ _ _ hr] at hq
    cases hq
    exact absurd (hblank c (List.mem_append_right r hc)) hb

/-- The text without the blanks at its end. -/
def trimEnd (text : String) : String := String.ofList (text.toList.rdropWhile (· ∈ blanks))

theorem exists_eq_trimEnd_append (text : String) : ∃ rest, text = trimEnd text ++ rest := by
  refine ⟨String.ofList (text.toList.rtakeWhile (· ∈ blanks)), ?_⟩
  rw [trimEnd, ← String.ofList_append, List.rdropWhile_append_rtakeWhile, String.ofList_toList]

/-- What is behind a cut in a text without blanks at its end is not all blank. -/
theorem exists_not_blank_of_append_eq_trimEnd {text front back : String}
    (h : front ++ back = trimEnd text) (hb : back ≠ "") : ∃ c ∈ back.toList, c ∉ blanks := by
  have hb : back.toList ≠ [] := by rwa [ne_eq, String.toList_eq_nil_iff]
  have h : text.toList.rdropWhile (· ∈ blanks) = front.toList ++ back.toList := by
    rw [← String.toList_append, h, trimEnd, String.toList_ofList]
  have hne : text.toList.rdropWhile (· ∈ blanks) ≠ [] := by
    rw [h]
    exact List.append_ne_nil_of_right_ne_nil _ hb
  have hlast := List.rdropWhile_last_not (· ∈ blanks) text.toList hne
  simp only [h, List.getLast_append_of_right_ne_nil _ _ hb] at hlast
  exact ⟨_, List.getLast_mem hb, by simpa using hlast⟩

theorem Decoder.Closed.decode_cut (hd : d.Closed) {text front back : String}
    (h : d.decode text = .ok a) (hcut : front ++ back = trimEnd text) (hb : back ≠ "") :
    ∃ f, d.decode front = .error f := by
  cases hf : d.decode front with
  | error f => exact ⟨f, rfl⟩
  | ok b =>
    obtain ⟨rest, hrest⟩ := exists_eq_trimEnd_append text
    obtain ⟨c, hc, hblank⟩ := exists_not_blank_of_append_eq_trimEnd hcut hb
    have hmore : ∃ c ∈ (back ++ rest).toList, c ∉ blanks :=
      ⟨c, by rw [String.toList_append]; exact List.mem_append_left _ hc, hblank⟩
    obtain ⟨f, he⟩ := hd.decode_append hf hmore
    rw [← String.append_assoc, hcut, ← hrest, h] at he
    cases he

end GrammarTables.Json
