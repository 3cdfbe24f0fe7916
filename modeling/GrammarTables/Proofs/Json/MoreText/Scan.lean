import GrammarTables.Json.Numeral
import GrammarTables.Json.Quote

/-!
# More text behind what is read

What a scanner finds does not depend on what stands behind it: if more text is
appended, the same is found and the appended text is left as well. Only a
numeral at the very end of a text could go on, so where numerals are scanned
something has to be left unread.
-/

namespace GrammarTables.Json

theorem ne_nil_of_length_le {s r : List Char} (h : r.length ≤ s.length) (hr : r ≠ []) : s ≠ [] := by
  rintro rfl
  exact hr (List.length_eq_zero_iff.mp (Nat.le_zero.mp h))

theorem map_eq_ok {α β : Type} {x : Except Failure α} {f : α → β} {b : β} :
    x.map f = .ok b ↔ ∃ a, x = .ok a ∧ f a = b := by
  cases x <;> simp [Except.map]

section Map

variable {α β : Type} {r u : List Char}

/-- What holds of a result and of a longer one still holds when the value is changed. -/
theorem map_value_append {x y : Except Failure (α × List Char)} {f : α → β} {b : β}
    (h : (x.map fun (a, r) => (f a, r)) = .ok (b, r))
    (hy : ∀ a, x = .ok (a, r) → y = .ok (a, r ++ u)) :
    (y.map fun (a, r) => (f a, r)) = .ok (b, r ++ u) := by
  obtain ⟨⟨a, t⟩, hx, heq⟩ := map_eq_ok.mp h
  cases heq
  exact map_eq_ok.mpr ⟨_, hy a hx, rfl⟩

theorem map_rest_append {x y : Except Failure (List Char)} {a b : α} (h : x.map (a, ·) = .ok (b, r))
    (hy : x = .ok r → y = .ok (r ++ u)) : y.map (a, ·) = .ok (b, r ++ u) := by
  obtain ⟨t, hx, heq⟩ := map_eq_ok.mp h
  cases heq
  exact map_eq_ok.mpr ⟨_, hy hx, rfl⟩

end Map

/-! ## Blanks and words -/

theorem dropBlank_append_of_ne_nil {s : List Char} (h : dropBlank s ≠ []) (u : List Char) :
    dropBlank (s ++ u) = dropBlank s ++ u := by
  unfold dropBlank at h ⊢
  rw [List.dropWhile_append, if_neg (by rwa [List.isEmpty_iff])]

theorem dropBlank_append {c : Char} {s r : List Char} (h : dropBlank s = c :: r) (u : List Char) :
    dropBlank (s ++ u) = c :: (r ++ u) := by
  rw [dropBlank_append_of_ne_nil (h ▸ List.cons_ne_nil c r), h, List.cons_append]

theorem word_append {w s r : List Char} (h : word w s = .ok r) (u : List Char) :
    word w (s ++ u) = .ok (r ++ u) := by
  fun_induction word w s with
  | case1 => cases h; rfl
  | case2 => cases h
  | case3 w ws s ih => rw [List.cons_append, word, if_pos rfl, ih h]
  | case4 => cases h

/-! ## Numerals -/

theorem digits_append_of_dropDigits {s : List Char} (h : dropDigits s ≠ []) (u : List Char) :
    digits (s ++ u) = digits s ∧ dropDigits (s ++ u) = dropDigits s ++ u := by
  induction s with
  | nil => exact absurd rfl h
  | cons c s ih =>
    by_cases hc : isDigit c
    · simp only [digits, dropDigits, List.cons_append, List.takeWhile_cons, List.dropWhile_cons, hc,
        if_true, List.map_cons] at h ih ⊢
      exact ⟨congrArg _ (ih h).1, (ih h).2⟩
    · simp [digits, dropDigits, hc]

theorem dropDigits_of_digits {s : List Char} (h : digits s = []) : dropDigits s = s := by
  cases s with
  | nil => rfl
  | cons c s =>
    by_cases hc : isDigit c
    · simp [digits, hc] at h
    · simp [dropDigits, hc]

namespace Numeral

variable {p : Problem}

theorem scanWhole_append {s r : List Char} {ds : List Nat} (h : scanWhole p s = .ok (ds, r))
    (hr : r ≠ []) (u : List Char) : scanWhole p (s ++ u) = .ok (ds, r ++ u) := by
  cases s with
  | nil => cases h
  | cons c s =>
    rw [scanWhole] at h
    rw [List.cons_append, scanWhole]
    split at h
    · next hc =>
      split at h
      · next hd =>
        cases h
        have hd := List.isEmpty_iff.mp hd
        have hdrop : dropDigits r ≠ [] := by rwa [dropDigits_of_digits hd]
        rw [if_pos hc, (digits_append_of_dropDigits hdrop u).1, hd]
        rfl
      · cases h
    · next hc =>
      split at h
      · next hd =>
        cases h
        have hcs : dropDigits (c :: s) ≠ [] := by rwa [dropDigits, List.dropWhile_cons, if_pos hd]
        rw [if_neg hc, if_pos hd, (digits_append_of_dropDigits hr u).2, ← List.cons_append,
          (digits_append_of_dropDigits hcs u).1]
      · cases h

theorem scanFraction_of_ne {c : Char} (hc : c ≠ '.') (s : List Char) :
    scanFraction p (c :: s) = .ok ([], c :: s) := by
  unfold scanFraction
  split
  · next h => cases h; exact absurd rfl hc
  · rfl

theorem scanFraction_point {s r : List Char} {ds : List Nat} :
    scanFraction p ('.' :: s) = .ok (ds, r) ↔ digits s ≠ [] ∧ ds = digits s ∧ r = dropDigits s := by
  unfold scanFraction
  cases hd : digits s with
  | nil => cases s <;> simp [hd]
  | cons d ds =>
    simp only [hd, Except.ok.injEq, Prod.mk.injEq, ne_eq, reduceCtorEq, not_false_eq_true, true_and]
    exact and_congr eq_comm eq_comm

theorem scanFraction_append {s r : List Char} {ds : List Nat} (h : scanFraction p s = .ok (ds, r))
    (hr : r ≠ []) (u : List Char) : scanFraction p (s ++ u) = .ok (ds, r ++ u) := by
  cases s with
  | nil => cases h; exact absurd rfl hr
  | cons c s =>
    by_cases hc : c = '.'
    · subst hc
      obtain ⟨hd, rfl, rfl⟩ := scanFraction_point.mp h
      obtain ⟨hds, hdrop⟩ := digits_append_of_dropDigits hr u
      exact scanFraction_point.mpr ⟨hds ▸ hd, hds.symm, hdrop.symm⟩
    · rw [scanFraction_of_ne hc] at h
      cases h
      rw [List.cons_append, scanFraction_of_ne hc]

theorem scanSign_append {s : List Char} (hs : s ≠ []) (u : List Char) :
    scanSign (s ++ u) = ((scanSign s).1, (scanSign s).2 ++ u) := by
  obtain ⟨c, s, rfl⟩ := List.exists_cons_of_ne_nil hs
  by_cases hp : c = '+'
  · subst hp
    rfl
  by_cases hm : c = '-'
  · subst hm
    rfl
  simp [scanSign, hp, hm]

theorem scanExponent_append {s r : List Char} {e : Option (Bool × List Nat)}
    (h : scanExponent p s = .ok (e, r)) (hr : r ≠ []) (u : List Char) :
    scanExponent p (s ++ u) = .ok (e, r ++ u) := by
  cases s with
  | nil => cases h; exact absurd rfl hr
  | cons c s =>
    rw [scanExponent] at h
    rw [List.cons_append, scanExponent]
    by_cases hc : c = 'e' ∨ c = 'E'
    · rw [if_pos hc] at h ⊢
      split at h
      · cases h
      · next negative d t hsign =>
        split at h
        · next hd =>
          cases h
          have hs : s ≠ [] := by rintro rfl; cases hsign
          have hdt : dropDigits (d :: t) ≠ [] := by rwa [dropDigits, List.dropWhile_cons, if_pos hd]
          rw [scanSign_append hs, hsign, List.cons_append]
          simp only [hd, if_true, (digits_append_of_dropDigits hr u).2]
          rw [← List.cons_append, (digits_append_of_dropDigits hdt u).1]
        · cases h
    · rw [if_neg hc] at h ⊢
      cases h
      rfl

theorem scanUnsigned_eq_ok {negative : Bool} {s r : List Char} {n : Numeral} :
    scanUnsigned p negative s = .ok (n, r) ↔ ∃ whole t fraction v exponent,
      scanWhole p s = .ok (whole, t) ∧ scanFraction p t = .ok (fraction, v) ∧
        scanExponent p v = .ok (exponent, r) ∧ n = ⟨negative, whole, fraction, exponent⟩ := by
  simp only [scanUnsigned, bind, Except.bind, pure, Except.pure]
  constructor
  · intro h
    split at h
    · cases h
    · next hw =>
      split at h
      · cases h
      · next hf =>
        split at h
        · cases h
        · next he =>
          simp only [Except.ok.injEq, Prod.mk.injEq] at h
          exact ⟨_, _, _, _, _, hw, hf, h.2 ▸ he, h.1.symm⟩
  · rintro ⟨whole, t, fraction, v, exponent, hw, hf, he, rfl⟩
    simp only [hw, hf, he]

theorem scanUnsigned_append {negative : Bool} {s r : List Char} {n : Numeral}
    (h : scanUnsigned p negative s = .ok (n, r)) (hr : r ≠ []) (u : List Char) :
    scanUnsigned p negative (s ++ u) = .ok (n, r ++ u) := by
  obtain ⟨whole, t, fraction, v, exponent, hw, hf, he, rfl⟩ := scanUnsigned_eq_ok.mp h
  have hv : v ≠ [] := ne_nil_of_length_le (length_of_scanExponent he) hr
  have ht : t ≠ [] := ne_nil_of_length_le (length_of_scanFraction hf) hv
  exact scanUnsigned_eq_ok.mpr ⟨whole, t ++ u, fraction, v ++ u, exponent,
    scanWhole_append hw ht u, scanFraction_append hf hv u, scanExponent_append he hr u, rfl⟩

theorem scan_of_ne {c : Char} (hc : c ≠ '-') (s : List Char) :
    scan p (c :: s) = scanUnsigned p false (c :: s) := by
  unfold scan
  split
  · next hs => cases hs; exact absurd rfl hc
  · rfl

theorem scan_append {s r : List Char} {n : Numeral} (h : scan p s = .ok (n, r)) (hr : r ≠ [])
    (u : List Char) : scan p (s ++ u) = .ok (n, r ++ u) := by
  cases s with
  | nil => cases h
  | cons c s =>
    by_cases hc : c = '-'
    · subst hc
      exact scanUnsigned_append (s := s) h hr u
    · rw [scan_of_ne hc] at h
      rw [List.cons_append, scan_of_ne hc]
      exact scanUnsigned_append h hr u

end Numeral

theorem readNumber_append {s r : List Char} {n : Number} (h : readNumber s = .ok (n, r))
    (hr : r ≠ []) (u : List Char) : readNumber (s ++ u) = .ok (n, r ++ u) := by
  unfold readNumber at h ⊢
  split at h
  · cases h
  · next hs =>
    split at h
    · next hv =>
      cases h
      simp only [Numeral.scan_append hs hr, hv]
    · cases h

/-! ## Strings -/

theorem hexDigits?_append {s r : List Char} {n : Nat} (h : hexDigits? s = some (n, r))
    (u : List Char) : hexDigits? (s ++ u) = some (n, r ++ u) := by
  unfold hexDigits? at h
  split at h
  · simp only [bind, Option.bind_eq_some_iff] at h
    obtain ⟨w, hw, x, hx, y, hy, z, hz, h⟩ := h
    cases h
    simp [hexDigits?, hw, hx, hy, hz]
  · cases h

theorem readHex_append {s r : List Char} {n : Nat} (h : readHex s = .ok (n, r)) (u : List Char) :
    readHex (s ++ u) = .ok (n, r ++ u) := by
  unfold readHex at h ⊢
  split at h
  · next hs =>
    cases h
    rw [hexDigits?_append hs]
  · split at h <;> cases h

theorem readTrail_append {lead : Nat} {c : Char} {s r : List Char}
    (h : readTrail lead s = .ok (c, r)) (u : List Char) :
    readTrail lead (s ++ u) = .ok (c, r ++ u) := by
  unfold readTrail at h
  split at h
  · cases h
  · cases h
  · next s =>
    split at h
    · cases h
    · next hs =>
      split at h
      · next ht =>
        simp only [Except.ok.injEq, Prod.mk.injEq] at h
        simp [readTrail, readHex_append hs, ht, h]
      · cases h
  · cases h
  · cases h

theorem readUnicode_append {c : Char} {s r : List Char} (h : readUnicode s = .ok (c, r))
    (u : List Char) : readUnicode (s ++ u) = .ok (c, r ++ u) := by
  unfold readUnicode at h ⊢
  split at h
  · cases h
  · next hs =>
    rw [readHex_append hs]
    split at h
    · cases h
    · next ht =>
      split at h
      · next hl => simp only [if_neg ht, if_pos hl, readTrail_append h]
      · next hl =>
        simp only [Except.ok.injEq, Prod.mk.injEq] at h
        simp only [if_neg ht, if_neg hl, h]

theorem readEscape_append {c : Char} {s r : List Char} (h : readEscape s = .ok (c, r))
    (u : List Char) : readEscape (s ++ u) = .ok (c, r ++ u) := by
  unfold readEscape at h
  split at h
  · cases h
  · next d s =>
    rw [List.cons_append, readEscape]
    split at h
    · next hd => rw [if_pos hd, readUnicode_append h]
    · next hd =>
      rw [if_neg hd]
      split at h
      · next he =>
        cases h
        rfl
      · cases h

theorem readString_append {ds s r : List Char} (h : readString s = .ok (ds, r)) (u : List Char) :
    readString (s ++ u) = .ok (ds, r ++ u) := by
  fun_induction readString s generalizing ds r with
  | case1 => cases h
  | case2 =>
    cases h
    rw [List.cons_append, readString, if_pos rfl]
  | case3 => cases h
  | case4 s d t he hl hq ih =>
    rw [List.cons_append, readString, if_neg hq, if_pos rfl]
    split
    · next h' => rw [readEscape_append he] at h'; cases h'
    · next h' =>
      rw [readEscape_append he] at h'
      cases h'
      exact map_value_append h fun _ => ih
  | case5 => cases h
  | case6 c s hq hb hc ih =>
    rw [List.cons_append, readString, if_neg hq, if_neg hb, if_neg hc]
    exact map_value_append h fun _ => ih

end GrammarTables.Json
