/-!
# Order of bytes

Texts compare by their characters just as their bytes in UTF-8 compare: of two
characters, the later one has the later bytes, and no end of the one decides
before the bytes differ.
-/

namespace GrammarTables.Text

/-- The bytes of a text in UTF-8. -/
def utf8 (s : String) : List UInt8 := s.toUTF8.data.toList

theorem utf8_eq_flatMap (s : String) : utf8 s = s.toList.flatMap String.utf8EncodeChar := by
  rw [utf8, String.toUTF8_eq_toByteArray, ← String.utf8Encode_toList, List.utf8Encode,
    List.toList_data_toByteArray]

theorem byte_lt {m n : Nat} (hm : m < 256) (hn : n < 256) :
    UInt8.ofNat m < UInt8.ofNat n ↔ m < n := by
  rw [UInt8.lt_iff_toNat_lt, UInt8.toNat_ofNat_of_lt' hm, UInt8.toNat_ofNat_of_lt' hn]

theorem byte_inj {m n : Nat} (hm : m < 256) (hn : n < 256) :
    UInt8.ofNat m = UInt8.ofNat n ↔ m = n := by
  rw [← UInt8.toNat_inj, UInt8.toNat_ofNat_of_lt' hm, UInt8.toNat_ofNat_of_lt' hn]

/-- The bytes of a character come before those of any later one, whatever follows them. -/
theorem utf8EncodeChar_lt {c d : Char} (h : c < d) (s t : List UInt8) :
    String.utf8EncodeChar c ++ s < String.utf8EncodeChar d ++ t := by
  have hlt : c.val.toNat < d.val.toNat := h
  have hd : d.val.toNat < 0x110000 := by
    rcases d.valid with h | ⟨_, h⟩ <;> omega
  unfold String.utf8EncodeChar
  generalize c.val.toNat = m at hlt
  generalize d.val.toNat = n at hlt hd
  have two (k : Nat) : k / 4096 = k / 64 / 64 := by omega
  have three (k : Nat) : k / 262144 = k / 64 / 64 / 64 := by omega
  dsimp only
  repeat' split
  all_goals
    simp (disch := omega) only [List.cons_append, List.nil_append, List.cons_lt_cons_iff, byte_lt,
      byte_inj, two, three]
    omega

theorem flatMap_lt {a b : List Char} (h : a < b) :
    a.flatMap String.utf8EncodeChar < b.flatMap String.utf8EncodeChar := by
  induction b generalizing a with
  | nil => exact absurd h (List.not_lt_nil a)
  | cons d b ih =>
    cases a with
    | nil =>
      rw [List.flatMap_cons]
      cases hd : String.utf8EncodeChar d with
      | nil =>
        have hl := String.length_utf8EncodeChar d
        have := d.utf8Size_pos
        rw [hd, List.length_nil] at hl
        omega
      | cons x l => exact List.nil_lt_cons x _
    | cons c a =>
      rw [List.flatMap_cons, List.flatMap_cons]
      rcases List.cons_lt_cons_iff.mp h with hlt | ⟨rfl, hab⟩
      · exact utf8EncodeChar_lt hlt _ _
      · exact List.append_left_lt (ih hab)

/-- Texts that ascend do so by their bytes. -/
theorem utf8_lt {s t : String} (h : s < t) : utf8 s < utf8 t := by
  rw [utf8_eq_flatMap, utf8_eq_flatMap]
  exact flatMap_lt (String.lt_iff.mp h)

/-- Texts whose bytes ascend do so themselves. -/
theorem utf8_lt_iff {s t : String} : utf8 s < utf8 t ↔ s < t := by
  refine ⟨fun h => Decidable.byContradiction fun hlt => ?_, utf8_lt⟩
  by_cases heq : t = s
  · exact List.lt_irrefl _ (heq ▸ h)
  · exact List.lt_asymm h (utf8_lt (Std.lt_of_le_of_ne (String.not_lt.mp hlt) heq))

end GrammarTables.Text
