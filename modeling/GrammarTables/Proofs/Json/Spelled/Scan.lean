import GrammarTables.Proofs.Json.Document
import GrammarTables.Proofs.Json.ReadBack
import Mathlib.Tactic.IntervalCases

/-!
# What the scanners read

Whatever a scanner takes off the front of a text is spelled there as the grammar of JSON has it,
and the scanner's result is what is spelled.
-/

namespace GrammarTables.Json

/-! ## Blanks and words -/

theorem gap_dropBlank (s : List Char) : Gap s (dropBlank s) := by
  refine ⟨s.takeWhile isBlank, fun c hc => ?_, List.takeWhile_append_dropWhile.symm⟩
  simpa [isBlank_eq] using List.mem_takeWhile_imp hc

theorem gap_of_dropBlank {s t : List Char} (h : dropBlank s = t) : Gap s t := h ▸ gap_dropBlank s

theorem eq_append_of_word {w s r : List Char} (h : word w s = .ok r) : s = w ++ r := by
  fun_induction word w s with
  | case1 => cases h; rfl
  | case2 => cases h
  | case3 w ws s ih => rw [List.cons_append, ih h]
  | case4 => cases h

theorem spells_null {s t : List Char} (h : word "ull".toList s = .ok t) :
    Spells ('n' :: s) .null t := by
  rw [eq_append_of_word h]
  exact .null

theorem spells_true {s t : List Char} (h : word "rue".toList s = .ok t) :
    Spells ('t' :: s) (.bool true) t := by
  rw [eq_append_of_word h]
  exact .yes

theorem spells_false {s t : List Char} (h : word "alse".toList s = .ok t) :
    Spells ('f' :: s) (.bool false) t := by
  rw [eq_append_of_word h]
  exact .no

/-! ## Numbers -/

theorem toNat_of_range {a b c : Char} (h : a ≤ c ∧ c ≤ b) :
    a.toNat ≤ c.toNat ∧ c.toNat ≤ b.toNat := by
  simpa [Char.le_def, UInt32.le_iff_toNat_le] using h

theorem toNat_of_isDigit {c : Char} (h : isDigit c) : 48 ≤ c.toNat ∧ c.toNat ≤ 57 := by
  have hc : '0' ≤ c ∧ c ≤ '9' := by simpa [isDigit] using h
  exact toNat_of_range hc

theorem digit_lt {c : Char} (h : isDigit c) : digit c < 10 := by
  have hc := toNat_of_isDigit h
  show c.toNat - 48 < 10
  omega

theorem digitChar_digit {c : Char} (h : isDigit c) : (digit c).digitChar = c := by
  have hc := toNat_of_isDigit h
  have hd : digit c = c.toNat - 48 := rfl
  apply Char.toNat_inj.mp
  rw [Nat.toNat_digitChar_of_lt_ten (digit_lt h)]
  omega

theorem spellsDigits_digits {s : List Char} (h : digits s ≠ []) :
    SpellsDigits s (digits s) (dropDigits s) := by
  refine ⟨h, fun d hd => ?_, ?_⟩
  · obtain ⟨c, hc, rfl⟩ := List.mem_map.mp hd
    exact digit_lt (List.mem_takeWhile_imp hc)
  · have heq : (digits s).map Nat.digitChar = s.takeWhile isDigit := by
      rw [digits, List.map_map]
      exact (List.map_congr_left fun c hc => digitChar_digit (List.mem_takeWhile_imp hc)).trans
        (List.map_id _)
    rw [heq, dropDigits, List.takeWhile_append_dropWhile]

theorem digits_cons {c : Char} (h : isDigit c) (s : List Char) :
    digits (c :: s) = digit c :: digits s := by
  rw [digits, List.takeWhile_cons, if_pos h, List.map_cons, digits]

theorem spellsDigits_cons {c : Char} (h : isDigit c) (s : List Char) :
    SpellsDigits (c :: s) (digits (c :: s)) (dropDigits s) := by
  rw [← dropDigits_cons h]
  exact spellsDigits_digits (by rw [digits_cons h]; nofun)

namespace Numeral

variable {p : Problem}

theorem spells_of_scanWhole {s r : List Char} {ds : List Nat} (h : scanWhole p s = .ok (ds, r)) :
    SpellsDigits s ds r ∧ (ds.head? = some 0 → ds = [0]) := by
  unfold scanWhole at h
  split at h
  · cases h
  · next c t =>
    split at h
    · next hc =>
      split at h
      · next ht =>
        cases h
        have ht := List.isEmpty_iff.mp ht
        have hd := spellsDigits_cons (c := '0') rfl r
        rw [digits_cons rfl, ht, dropDigits_of_digits ht] at hd
        exact hc ▸ ⟨hd, fun _ => rfl⟩
      · cases h
    · next hc =>
      split at h
      · next hd =>
        cases h
        refine ⟨spellsDigits_cons hd t, fun h0 => absurd ?_ hc⟩
        rw [digits_cons hd, List.head?_cons] at h0
        rw [← digitChar_digit hd, Option.some.inj h0]
        rfl
      · cases h

theorem spells_of_scanFraction {s r : List Char} {ds : List Nat}
    (h : scanFraction p s = .ok (ds, r)) : SpellsFraction s ds r := by
  cases s with
  | nil => cases h; exact .absent
  | cons c s =>
    by_cases hc : c = '.'
    · subst hc
      obtain ⟨hd, rfl, rfl⟩ := scanFraction_point.mp h
      exact .point (spellsDigits_digits hd)
    · rw [scanFraction_of_ne hc] at h
      cases h
      exact .absent

theorem spells_scanSign (s : List Char) : SpellsSign s (scanSign s).1 (scanSign s).2 := by
  unfold scanSign
  split
  · exact .plus
  · exact .minus
  · exact .absent

theorem spells_of_scanExponent {s r : List Char} {e : Option (Bool × List Nat)}
    (h : scanExponent p s = .ok (e, r)) : SpellsExponent s e r := by
  unfold scanExponent at h
  split at h
  · cases h
    exact .absent
  · next c t =>
    split at h
    · next hc =>
      split at h
      · cases h
      · next down d u hsign =>
        split at h
        · next hd =>
          cases h
          have hs := spells_scanSign t
          rw [hsign] at hs
          exact .power hc hs (spellsDigits_cons hd u)
        · cases h
    · cases h
      exact .absent

theorem spells_of_scanUnsigned {negative : Bool} {s t r : List Char} {n : Numeral}
    (hs : SpellsMinus s negative t) (h : scanUnsigned p negative t = .ok (n, r)) :
    SpellsNumber s n r := by
  obtain ⟨whole, u, fraction, v, exponent, hw, hf, he, rfl⟩ := scanUnsigned_eq_ok.mp h
  obtain ⟨hw, h0⟩ := spells_of_scanWhole hw
  exact .mk hs hw h0 (spells_of_scanFraction hf) (spells_of_scanExponent he)

theorem spells_of_scan {s r : List Char} {n : Numeral} (h : scan p s = .ok (n, r)) :
    SpellsNumber s n r := by
  unfold scan at h
  split at h
  · exact spells_of_scanUnsigned .minus h
  · exact spells_of_scanUnsigned .absent h

/-! ## Whole numbers -/

theorem le_foldl_digits (ds : List Nat) (n : Nat) : n ≤ ds.foldl (fun k d => k * 10 + d) n := by
  induction ds generalizing n with
  | nil => exact Nat.le_refl n
  | cons d ds ih => exact Nat.le_trans (by omega) (ih (n * 10 + d))

/-- All digits are taken in just if the number that they make is within the limit. -/
theorem absorb_eq_iff {limit acc n : Nat} {ds : List Nat} (hacc : acc ≤ limit) :
    absorb limit acc ds = (n, []) ↔ n = ds.foldl (fun k d => k * 10 + d) acc ∧ n ≤ limit := by
  induction ds generalizing acc with
  | nil =>
    rw [absorb, Prod.mk.injEq, List.foldl_nil]
    constructor
    · rintro ⟨rfl, -⟩
      exact ⟨rfl, hacc⟩
    · rintro ⟨rfl, -⟩
      exact ⟨rfl, rfl⟩
  | cons d ds ih =>
    rw [absorb, List.foldl_cons]
    split
    · next hle => exact ih hle
    · next hlt =>
      have hle := le_foldl_digits ds (acc * 10 + d)
      constructor
      · intro h
        cases h
      · rintro ⟨rfl, h⟩
        exact absurd (Nat.le_trans hle h) hlt

theorem foldl_digits (ds : List Nat) :
    ds.foldl (fun k d => k * 10 + d) 0 = Nat.ofDigits 10 ds.reverse := by
  rw [Nat.ofDigits_eq_foldr, List.foldr_reverse]
  congr
  funext k d
  show k * 10 + d = d + 10 * k
  omega

theorem double_ne_whole {negative : Bool} {m : Nat} {e k : Int} :
    (double negative m e).elim (.error 0 : Except Nat Number) .ok ≠ .ok (.whole k) := by
  unfold double
  cases scale (UInt64.ofNat m).toFloat e <;> nofun

/-- A significand makes a whole number unless it is too large, or zero, for its minus sign. -/
theorem integer_eq_whole_iff {negative : Bool} {m : Nat} {k : Int} :
    integer negative m = .whole k ↔ (k = if negative then -(m : Int) else m) ∧
      (negative → 1 ≤ m ∧ m ≤ UInt64.size / 2) := by
  cases negative with
  | false => simp [integer, eq_comm]
  | true =>
    rw [integer, if_pos rfl]
    split
    · next hm => simp [hm, eq_comm]
    · next hm => simp [hm]

/-- A numeral is valued as a whole number just if it has neither a fraction nor an exponent and what
its digits spell fits in 64 bits, with a sign if it has one, but for zero behind a minus sign. -/
theorem value_eq_whole_iff {n : Numeral} {k : Int} : n.value = .ok (.whole k) ↔
    n.Denotes k ∧ n.magnitude ≤ significandLimit ∧
      (n.negative → 1 ≤ n.magnitude ∧ n.magnitude ≤ UInt64.size / 2) := by
  have habsorb (m : Nat) : absorb significandLimit 0 n.whole = (m, []) ↔
      m = n.magnitude ∧ m ≤ significandLimit := by
    rw [absorb_eq_iff (Nat.zero_le _), foldl_digits, magnitude]
  constructor
  · intro h
    unfold value at h
    rcases hw : absorb significandLimit 0 n.whole with ⟨m, surplus⟩
    rw [hw] at h
    dsimp only at h
    split at h
    · next hparts =>
      simp only [Bool.and_eq_true, List.isEmpty_iff, Option.isNone_iff_eq_none] at hparts
      obtain ⟨⟨rfl, hf⟩, he⟩ := hparts
      obtain ⟨rfl, hlimit⟩ := (habsorb m).mp hw
      obtain ⟨hk, hsign⟩ := integer_eq_whole_iff.mp (Except.ok.inj h)
      exact ⟨⟨hf, he, hk⟩, hlimit, hsign⟩
    · split at h
      · exact absurd h double_ne_whole
      · split at h
        · exact absurd h double_ne_whole
        · split at h <;> cases h
  · rintro ⟨⟨hf, he, hk⟩, hlimit, hsign⟩
    have hw := (habsorb n.magnitude).mpr ⟨rfl, hlimit⟩
    simp only [value, hw, hf, he, List.isEmpty_nil, Option.isNone_none, Bool.and_self, ↓reduceIte]
    rw [integer_eq_whole_iff.mpr ⟨hk, hsign⟩]

/-- Only a numeral without fraction and exponent has a whole number for its value. -/
theorem denotes_of_value {n : Numeral} {k : Int} (h : n.value = .ok (.whole k)) : n.Denotes k :=
  (value_eq_whole_iff.mp h).1

/-- The only text of a whole number that is zero behind a minus sign. -/
theorem eq_minusZero_iff {token : String} {n : Numeral} (h : SpellsNumber token.toList n [])
    (hf : n.fraction = []) (he : n.exponent = none) :
    token = "-0" ↔ n.negative ∧ n.magnitude = 0 := by
  obtain ⟨hminus, ⟨hne, hlt, rfl⟩, hzero, hfraction, hexponent⟩ := h
  rw [hf] at hfraction
  rw [he] at hexponent
  cases hexponent
  cases hfraction with
  | point hdigits => exact absurd rfl hdigits.1
  | absent =>
    obtain ⟨d, ds, hwhole⟩ := List.exists_cons_of_ne_nil hne
    rw [magnitude, ← String.toList_inj]
    rw [hwhole] at hzero hlt ⊢
    rw [hwhole, List.append_nil, List.map_cons] at hminus
    generalize token.toList = s at hminus
    generalize n.negative = negative at hminus
    have hd : d < 10 := hlt d List.mem_cons_self
    have hdigit : ∀ d < 10, d.digitChar ≠ '-' ∧ (d.digitChar = '0' → d = 0) := by decide
    cases hminus with
    | absent =>
      refine iff_of_false (fun h => ?_) (fun h => nomatch h.1)
      exact (hdigit d hd).1 (List.cons.inj h).1
    | minus =>
      rw [show "-0".toList = ['-', '0'] by decide, List.cons.injEq, List.cons.injEq,
        List.map_eq_nil_iff]
      constructor
      · rintro ⟨-, hchar, rfl⟩
        obtain rfl := (hdigit d hd).2 hchar
        exact ⟨rfl, rfl⟩
      · rintro ⟨-, h⟩
        have hfirst : d ∈ (d :: ds).reverse := List.mem_reverse.mpr List.mem_cons_self
        obtain rfl := Nat.digits_zero_of_eq_zero (by decide) h d hfirst
        exact ⟨rfl, rfl, (List.cons.inj (hzero rfl)).2⟩

end Numeral

theorem spells_of_readNumber {s r : List Char} {x : Number} (h : readNumber s = .ok (x, r)) :
    ∃ n, SpellsNumber s n r ∧ n.value = .ok x := by
  unfold readNumber at h
  split at h
  · cases h
  · next n t hs =>
    split at h
    · next hv =>
      cases h
      exact ⟨n, Numeral.spells_of_scan hs, hv⟩
    · cases h

/-! ## Strings -/

theorem digitChar_digit_eq {n : Nat} (h : n < 10) : n.digitChar = Char.ofNat (n + 48) := by
  interval_cases n <;> rfl

theorem digitChar_letter_eq {n : Nat} (h : n < 6) :
    (n + 10).digitChar = Char.ofNat (n + 97) ∧
      (n + 10).digitChar.toUpper = Char.ofNat (n + 65) := by
  interval_cases n <;> exact ⟨rfl, rfl⟩

theorem isHexDigit_of_hexDigit? {c : Char} {n : Nat} (h : hexDigit? c = some n) :
    IsHexDigit c n := by
  unfold hexDigit? at h
  split at h
  · next hc =>
    obtain ⟨hl, hu⟩ : 48 ≤ c.toNat ∧ c.toNat ≤ 57 := toNat_of_range hc
    obtain rfl : c.toNat - 48 = n := Option.some.inj h
    refine ⟨by omega, .inl ?_⟩
    rw [digitChar_digit_eq (by omega), Nat.sub_add_cancel hl, Char.ofNat_toNat]
  · split at h
    · next hc =>
      obtain ⟨hl, hu⟩ : 97 ≤ c.toNat ∧ c.toNat ≤ 102 := toNat_of_range hc
      obtain rfl : c.toNat - 97 + 10 = n := Option.some.inj h
      refine ⟨by omega, .inl ?_⟩
      rw [(digitChar_letter_eq (by omega)).1, Nat.sub_add_cancel hl, Char.ofNat_toNat]
    · split at h
      · next hc =>
        obtain ⟨hl, hu⟩ : 65 ≤ c.toNat ∧ c.toNat ≤ 70 := toNat_of_range hc
        obtain rfl : c.toNat - 65 + 10 = n := Option.some.inj h
        refine ⟨by omega, .inr ?_⟩
        rw [(digitChar_letter_eq (by omega)).2, Nat.sub_add_cancel hl, Char.ofNat_toNat]
      · cases h

theorem spells_of_readHex {s r : List Char} {n : Nat} (h : readHex s = .ok (n, r)) :
    SpellsHex s n r := by
  unfold readHex at h
  split at h
  · next hs =>
    cases h
    unfold hexDigits? at hs
    split at hs
    · simp only [bind, Option.bind_eq_some_iff] at hs
      obtain ⟨i, hi, j, hj, k, hk, l, hl, hs⟩ := hs
      cases hs
      exact .mk (isHexDigit_of_hexDigit? hi) (isHexDigit_of_hexDigit? hj)
        (isHexDigit_of_hexDigit? hk) (isHexDigit_of_hexDigit? hl)
    · cases hs
  · split at h <;> cases h

theorem SpellsHex.lt {s t : List Char} {n : Nat} (h : SpellsHex s n t) : n < 0x10000 := by
  obtain ⟨⟨hi, -⟩, ⟨hj, -⟩, ⟨hk, -⟩, ⟨hl, -⟩⟩ := h
  omega

theorem toNat_ofNat {n : Nat} (h : n.isValidChar) : (Char.ofNat n).toNat = n := by
  rw [Char.ofNat, dif_pos h]
  rfl

/-- A code unit that is no surrogate is a character. -/
theorem charUnits_ofNat {n : Nat} (h : n < 0xD800 ∨ 0xDFFF < n ∧ n < 0x10000) :
    charUnits (Char.ofNat n) = [n] := by
  have hn : (Char.ofNat n).toNat = n := toNat_ofNat (h.imp_right fun h => ⟨h.1, by omega⟩)
  rw [charUnits, hn, if_pos (by omega)]

theorem charUnits_pairChar {lead trail : Nat} (hl : isLead lead) (ht : isTrail trail) :
    charUnits (pairChar lead trail) = [lead, trail] := by
  simp only [isLead, isTrail, Bool.and_eq_true, decide_eq_true_eq] at hl ht
  have hn : (pairChar lead trail).toNat =
      0x10000 + (lead - 0xD800) * 0x400 + (trail - 0xDC00) :=
    toNat_ofNat (.inr ⟨by omega, by omega⟩)
  have hlead : 0xD800 + ((pairChar lead trail).toNat - 0x10000) / 0x400 = lead := by omega
  have htrail : 0xDC00 + ((pairChar lead trail).toNat - 0x10000) % 0x400 = trail := by omega
  rw [charUnits, if_neg (by omega), hlead, htrail]

theorem spells_of_readTrail {lead : Nat} {c : Char} {s r t : List Char} {us : List Nat}
    (hl : isLead lead) (h : readTrail lead s = .ok (c, r)) (hr : SpellsUnits r us t) :
    ∃ trail, charUnits c = [lead, trail] ∧ SpellsUnits s (trail :: us) t := by
  unfold readTrail at h
  split at h
  · cases h
  · cases h
  · split at h
    · cases h
    · next n u hs =>
      split at h
      · next ht =>
        simp only [Except.ok.injEq, Prod.mk.injEq] at h
        obtain ⟨rfl, rfl⟩ := h
        exact ⟨n, charUnits_pairChar hl ht, .unit (spells_of_readHex hs) hr⟩
      · cases h
  · cases h
  · cases h

theorem spells_of_readUnicode {c : Char} {s r t : List Char} {us : List Nat}
    (h : readUnicode s = .ok (c, r)) (hr : SpellsUnits r us t) :
    SpellsUnits ('\\' :: 'u' :: s) (charUnits c ++ us) t := by
  unfold readUnicode at h
  split at h
  · cases h
  · next n u hs =>
    have hs := spells_of_readHex hs
    have hlt := hs.lt
    split at h
    · cases h
    · next ht =>
      split at h
      · next hl =>
        obtain ⟨trail, hc, hu⟩ := spells_of_readTrail hl h hr
        rw [hc]
        exact .unit hs hu
      · next hl =>
        cases h
        simp only [isLead, isTrail, Bool.and_eq_true, decide_eq_true_eq] at hl ht
        rw [charUnits_ofNat (by omega)]
        exact .unit hs hr

theorem mem_escapes_of_shortEscape? {c d : Char} (h : shortEscape? c = some d) :
    (c, d) ∈ escapes := by
  unfold shortEscape? at h
  split at h <;> cases h <;> decide

theorem spells_of_readEscape {c : Char} {s r t : List Char} {us : List Nat}
    (h : readEscape s = .ok (c, r)) (hr : SpellsUnits r us t) :
    SpellsUnits ('\\' :: s) (charUnits c ++ us) t := by
  unfold readEscape at h
  split at h
  · cases h
  · split at h
    · next hu => exact hu ▸ spells_of_readUnicode h hr
    · split at h
      · next he =>
        cases h
        exact .escape (mem_escapes_of_shortEscape? he) hr
      · cases h

theorem spells_of_readString {cs s r : List Char} (h : readString s = .ok (cs, r)) :
    SpellsUnits s (cs.flatMap charUnits) r := by
  fun_induction readString s generalizing cs r with
  | case1 => cases h
  | case2 => cases h; exact .close
  | case3 => cases h
  | case4 s d t he hl hq ih =>
    obtain ⟨⟨ds, u⟩, ht, heq⟩ := map_eq_ok.mp h
    cases heq
    exact spells_of_readEscape he (ih ht)
  | case5 => cases h
  | case6 c s hq hb hc ih =>
    obtain ⟨⟨ds, u⟩, ht, heq⟩ := map_eq_ok.mp h
    cases heq
    exact .plain hq hb (by simpa [isControl] using hc) (ih ht)

/-- The units of the text of a string. -/
theorem codeUnits_ofList (cs : List Char) : codeUnits (String.ofList cs) = cs.flatMap charUnits := by
  rw [codeUnits, String.toList_ofList]

theorem spells_of_skipEscape {s r t : List Char} {us : List Nat} (h : skipEscape s = .ok r)
    (hr : SpellsUnits r us t) : ∃ vs, SpellsUnits ('\\' :: s) vs t := by
  unfold skipEscape at h
  split at h
  · cases h
  · split at h
    · next hu =>
      obtain ⟨⟨n, u⟩, hs, rfl⟩ := map_eq_ok.mp h
      exact ⟨n :: us, hu ▸ .unit (spells_of_readHex hs) hr⟩
    · split at h
      · next he =>
        cases h
        obtain ⟨d, hd⟩ := Option.isSome_iff_exists.mp he
        exact ⟨charUnits d ++ us, .escape (mem_escapes_of_shortEscape? hd) hr⟩
      · cases h

theorem spells_of_skipString {s r : List Char} (h : skipString s = .ok r) :
    ∃ us, SpellsUnits s us r := by
  fun_induction skipString s with
  | case1 => cases h
  | case2 => cases h; exact ⟨[], .close⟩
  | case3 => cases h
  | case4 s t he hl hq ih =>
    obtain ⟨us, hs⟩ := ih h
    exact spells_of_skipEscape he hs
  | case5 => cases h
  | case6 c s hq hb hc ih =>
    obtain ⟨us, hs⟩ := ih h
    exact ⟨charUnits c ++ us, .plain hq hb (by simpa [isControl] using hc) hs⟩

end GrammarTables.Json
