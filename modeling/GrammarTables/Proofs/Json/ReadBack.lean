import GrammarTables.Json.Numeral
import GrammarTables.Json.Quote
import GrammarTables.Proofs.Json.Written

/-!
# Reading back numbers and strings

What is written for a whole number of 64 bits, or for a string, is read back as
the same number or string, up to its end and no further. A numeral ends where
no character follows that could go on with it; a string ends itself.
-/

namespace GrammarTables.Json

/-! ## Digits -/

/-- No character at the front goes on with a numeral. -/
def Delimited : List Char → Prop
  | [] => True
  | c :: _ => isDigit c = false ∧ c ≠ '.' ∧ c ≠ 'e' ∧ c ≠ 'E'

theorem isDigit_eq (c : Char) : isDigit c = c.isDigit := by
  rw [Bool.eq_iff_iff, Char.isDigit_iff_toNat]
  simp [isDigit, Char.le_def, UInt32.le_iff_toNat_le]

theorem isDigit_of_mem_toDigits {n : Nat} {c : Char} (h : c ∈ Nat.toDigits 10 n) : isDigit c := by
  rw [isDigit_eq]
  exact Nat.isDigit_of_mem_toDigits (by decide) (by decide) h

theorem dropDigits_of_delimited {s : List Char} (hs : Delimited s) :
    digits s = [] ∧ dropDigits s = s := by
  cases s with
  | nil => exact ⟨rfl, rfl⟩
  | cons c s => simp [digits, dropDigits, hs.1]

theorem dropDigits_cons {c : Char} (hc : isDigit c) (s : List Char) :
    dropDigits (c :: s) = dropDigits s := List.dropWhile_cons_of_pos hc

/-- A run of digits is taken up to its end. -/
theorem digits_append {ds s : List Char} (hd : ∀ c ∈ ds, isDigit c) (hs : Delimited s) :
    digits (ds ++ s) = ds.map digit ∧ dropDigits (ds ++ s) = s := by
  obtain ⟨h1, h2⟩ := dropDigits_of_delimited hs
  unfold digits at h1
  constructor
  · rw [digits, List.takeWhile_append_of_pos hd, List.map_append, h1, List.append_nil]
  · rw [dropDigits, List.dropWhile_append_of_pos hd]
    exact h2

/-- The first digit of a positive number is not zero. -/
theorem toDigits_eq_cons {n : Nat} (hn : 0 < n) :
    ∃ c t, Nat.toDigits 10 n = c :: t ∧ c ≠ '0' := by
  induction n using Nat.strongRecOn with
  | ind n ih =>
    by_cases h : n < 10
    · refine ⟨n.digitChar, [], Nat.toDigits_of_lt_base h, fun h0 => ?_⟩
      have := congrArg Char.toNat h0
      rw [Nat.toNat_digitChar_of_lt_ten h] at this
      have h48 : '0'.toNat = 48 := rfl
      omega
    · obtain ⟨c, t, ht, hc⟩ := ih (n / 10) (by omega) (by omega)
      refine ⟨c, t ++ [(n % 10).digitChar], ?_, hc⟩
      rw [Nat.toDigits_of_base_le (by decide) (by omega), ht, List.cons_append]

theorem le_ofDigitChars (ds : List Char) (n : Nat) : n ≤ Nat.ofDigitChars 10 ds n := by
  induction ds generalizing n with
  | nil => simp
  | cons c ds ih =>
    have := ih (10 * n + (c.toNat - '0'.toNat))
    rw [Nat.ofDigitChars_cons]
    omega

namespace Numeral

theorem absorb_digits {limit : Nat} {ds : List Char} {n : Nat}
    (h : Nat.ofDigitChars 10 ds n ≤ limit) :
    absorb limit n (ds.map digit) = (Nat.ofDigitChars 10 ds n, []) := by
  induction ds generalizing n with
  | nil => simp [absorb]
  | cons c ds ih =>
    rw [Nat.ofDigitChars_cons, Nat.mul_comm] at h ⊢
    have hle := le_ofDigitChars ds (n * 10 + digit c)
    rw [List.map_cons, absorb, if_pos (Nat.le_trans hle h)]
    exact ih h

theorem scanWhole_toDigits (p : Problem) (n : Nat) {s : List Char} (hs : Delimited s) :
    scanWhole p (Nat.toDigits 10 n ++ s) = .ok ((Nat.toDigits 10 n).map digit, s) := by
  have hd := digits_append (fun c hc => isDigit_of_mem_toDigits (n := n) hc) hs
  rcases Nat.eq_zero_or_pos n with rfl | hn
  · simp [scanWhole, (dropDigits_of_delimited hs).1, digit]
  · obtain ⟨c, t, ht, hc⟩ := toDigits_eq_cons hn
    have hcd : isDigit c := isDigit_of_mem_toDigits (n := n) (ht ▸ List.mem_cons_self)
    rw [ht, List.cons_append] at hd ⊢
    rw [dropDigits_cons hcd] at hd
    rw [scanWhole, if_neg hc, if_pos hcd, hd.1, hd.2]

theorem scanFraction_of_delimited (p : Problem) {s : List Char} (hs : Delimited s) :
    scanFraction p s = .ok ([], s) := by
  unfold scanFraction
  split
  · exact absurd rfl hs.2.1
  · rfl

theorem scanExponent_of_delimited (p : Problem) {s : List Char} (hs : Delimited s) :
    scanExponent p s = .ok (none, s) := by
  cases s with
  | nil => rfl
  | cons c s => rw [scanExponent, if_neg (not_or.mpr hs.2.2)]

theorem scanUnsigned_toDigits (p : Problem) (negative : Bool) (n : Nat) {s : List Char}
    (hs : Delimited s) :
    scanUnsigned p negative (Nat.toDigits 10 n ++ s) =
      .ok (⟨negative, (Nat.toDigits 10 n).map digit, [], none⟩, s) := by
  simp only [scanUnsigned, bind, Except.bind, scanWhole_toDigits p n hs,
    scanFraction_of_delimited p hs, scanExponent_of_delimited p hs]
  rfl

theorem scan_writeNumber (p : Problem) (n : Int) {s : List Char} (hs : Delimited s) :
    scan p (writeNumber (.whole n) ++ s) =
      .ok (⟨decide (n < 0), (Nat.toDigits 10 n.natAbs).map digit, [], none⟩, s) := by
  rw [writeNumber_whole]
  split
  · next hn =>
    obtain ⟨c, t, ht⟩ := List.exists_cons_of_ne_nil (Nat.toDigits_ne_nil (n := n.toNat) (b := 10))
    have hc : isDigit c := isDigit_of_mem_toDigits (n := n.toNat) (ht ▸ List.mem_cons_self)
    have hu := scanUnsigned_toDigits p false n.toNat hs
    rw [show n.natAbs = n.toNat by omega, decide_eq_false (by omega)]
    rw [ht, List.cons_append] at hu ⊢
    unfold scan
    split
    · next heq =>
      cases heq
      exact absurd hc (by decide)
    · exact hu
  · next hn =>
    rw [show n.natAbs = (-n).toNat by omega, decide_eq_true (by omega), List.cons_append]
    exact scanUnsigned_toDigits p true (-n).toNat hs

/-- The value of a numeral without fraction and exponent that spells a whole number of 64 bits. -/
theorem value_toDigits {n : Int} (h1 : Int64.minValue.toInt ≤ n) (h2 : n < UInt64.size) :
    value ⟨decide (n < 0), (Nat.toDigits 10 n.natAbs).map digit, [], none⟩ = .ok (.whole n) := by
  have hmin : Int64.minValue.toInt = -9223372036854775808 := rfl
  have hsize : UInt64.size = 18446744073709551616 := rfl
  have ha : absorb significandLimit 0 ((Nat.toDigits 10 n.natAbs).map digit) = (n.natAbs, []) := by
    have hle : Nat.ofDigitChars 10 (Nat.toDigits 10 n.natAbs) 0 ≤ significandLimit := by
      rw [Nat.ofDigitChars_ten_toDigits, significandLimit]
      omega
    rw [absorb_digits hle, Nat.ofDigitChars_ten_toDigits]
  simp only [value, ha, List.isEmpty_nil, Option.isNone_none, Bool.and_self, ↓reduceIte, integer]
  by_cases hn : n < 0
  · rw [decide_eq_true hn, if_pos rfl, if_pos (by omega)]
    congr
    omega
  · rw [decide_eq_false hn, if_neg (by decide)]
    congr
    omega

end Numeral

theorem readNumber_writeNumber {n : Int} (h1 : Int64.minValue.toInt ≤ n) (h2 : n < UInt64.size)
    {s : List Char} (hs : Delimited s) :
    readNumber (writeNumber (.whole n) ++ s) = .ok (.whole n, s) := by
  simp only [readNumber, Numeral.scan_writeNumber .eofInValue n hs, Numeral.value_toDigits h1 h2]

theorem writeNumber_whole_eq_cons (n : Int) :
    ∃ c t, writeNumber (.whole n) = c :: t ∧ (c = '-' ∨ isDigit c) := by
  rw [writeNumber_whole]
  split
  · obtain ⟨c, t, h⟩ := List.exists_cons_of_ne_nil (Nat.toDigits_ne_nil (n := n.toNat) (b := 10))
    exact ⟨c, t, h, .inr (isDigit_of_mem_toDigits (n := n.toNat) (h ▸ List.mem_cons_self))⟩
  · exact ⟨'-', _, rfl, .inl rfl⟩

/-! ## Strings -/

theorem hexDigit?_hexLetter : ∀ n < 16, hexDigit? (hexLetter n) = some n := by decide

/-- The escape of a control character spells that character. -/
theorem readEscape_control {c : Char} (hc : c.toNat < 32) (s : List Char) :
    readEscape ('u' :: '0' :: '0' :: hexLetter (c.toNat / 16) :: hexLetter (c.toNat % 16) :: s) =
      .ok (c, s) := by
  have h1 := hexDigit?_hexLetter (c.toNat / 16) (by omega)
  have h2 := hexDigit?_hexLetter (c.toNat % 16) (by omega)
  have h0 : hexDigit? '0' = some 0 := by decide
  have hn : ((0 * 16 + 0) * 16 + c.toNat / 16) * 16 + c.toNat % 16 = c.toNat := by omega
  have ht : isTrail c.toNat = false := by simp [isTrail]; omega
  have hl : isLead c.toNat = false := by simp [isLead]; omega
  rw [readEscape, if_pos rfl]
  simp only [readUnicode, readHex, hexDigits?, h0, h1, h2, Option.bind_eq_bind, Option.bind_some,
    Option.pure_def, hn, ht, hl, Bool.false_eq_true, ↓reduceIte, Char.ofNat_toNat]

theorem readString_escape {c : Char} {s t : List Char} (h : readEscape s = .ok (c, t)) :
    readString ('\\' :: s) = (readString t).map fun (ds, r) => (c :: ds, r) := by
  rw [readString, if_neg (by decide), if_pos rfl]
  split
  · next he =>
    rw [h] at he
    cases he
  · next he =>
    rw [h] at he
    cases he
    rfl

theorem readString_writeChar (c : Char) (s : List Char) :
    readString (writeChar c ++ s) = (readString s).map fun (ds, r) => (c :: ds, r) := by
  unfold writeChar
  split
  · next hq =>
    subst hq
    exact readString_escape rfl
  · next hq =>
    split
    · next hb =>
      subst hb
      exact readString_escape rfl
    · next hb =>
      split
      · next hc => exact readString_escape (readEscape_control hc s)
      · next hc =>
        have hn : isControl c = false := by simpa [isControl] using hc
        rw [List.singleton_append, readString, if_neg hq, if_neg hb, hn, if_neg Bool.false_ne_true]

/-- What is written for a string, behind its opening quote, is read up to the closing one. -/
theorem readString_writeString (cs s : List Char) :
    readString (cs.flatMap writeChar ++ '"' :: s) = .ok (cs, s) := by
  induction cs with
  | nil => rw [List.flatMap_nil, List.nil_append, readString, if_pos rfl]
  | cons c cs ih =>
    rw [List.flatMap_cons, List.append_assoc, readString_writeChar, ih]
    rfl

end GrammarTables.Json
