import GrammarTables.Json.Skip
import GrammarTables.Proofs.Json.MoreText.Scan

/-!
# More text behind what is passed over

Passing over a value stops at the same place whatever is appended to the text.
-/

namespace GrammarTables.Json

theorem skipEscape_append {s r : List Char} (h : skipEscape s = .ok r) (u : List Char) :
    skipEscape (s ++ u) = .ok (r ++ u) := by
  cases s with
  | nil => cases h
  | cons c s =>
    rw [skipEscape] at h
    rw [List.cons_append, skipEscape]
    by_cases hc : c = 'u'
    · rw [if_pos hc] at h ⊢
      obtain ⟨⟨n, t⟩, hs, rfl⟩ := map_eq_ok.mp h
      rw [readHex_append hs]
      rfl
    rw [if_neg hc] at h ⊢
    split at h
    · next he =>
      cases h
      rw [if_pos he]
    · cases h

theorem skipString_append {s r : List Char} (h : skipString s = .ok r) (u : List Char) :
    skipString (s ++ u) = .ok (r ++ u) := by
  fun_induction skipString s with
  | case1 => cases h
  | case2 =>
    cases h
    rw [List.cons_append, skipString, if_pos rfl]
  | case3 => cases h
  | case4 s t he hl hq ih =>
    rw [List.cons_append, skipString, if_neg hq, if_pos rfl]
    split
    · next h' => rw [skipEscape_append he] at h'; cases h'
    · next h' =>
      rw [skipEscape_append he] at h'
      cases h'
      exact ih h
  | case5 => cases h
  | case6 c s hq hb hc ih =>
    rw [List.cons_append, skipString, if_neg hq, if_neg hb, if_neg hc, ih h]

theorem readColon_append {s r : List Char} (h : readColon s = .ok r) (u : List Char) :
    readColon (s ++ u) = .ok (r ++ u) := by
  unfold readColon at h ⊢
  split at h
  · next hs =>
    cases h
    simp only [dropBlank_append hs]
  · cases h
  · cases h

theorem skipScalar_append {s r : List Char} (h : skipScalar s = .ok r) (hr : r ≠ [])
    (u : List Char) : skipScalar (s ++ u) = .ok (r ++ u) := by
  cases s with
  | nil => cases h
  | cons c s =>
    rw [skipScalar] at h
    rw [List.cons_append, skipScalar]
    by_cases hn : c = 'n'
    · rw [if_pos hn] at h ⊢
      exact word_append h u
    rw [if_neg hn] at h ⊢
    by_cases ht : c = 't'
    · rw [if_pos ht] at h ⊢
      exact word_append h u
    rw [if_neg ht] at h ⊢
    by_cases hf : c = 'f'
    · rw [if_pos hf] at h ⊢
      exact word_append h u
    rw [if_neg hf] at h ⊢
    by_cases hq : c = '"'
    · rw [if_pos hq] at h ⊢
      exact skipString_append h u
    rw [if_neg hq] at h ⊢
    by_cases hd : c = '-' ∨ isDigit c
    · rw [if_pos hd] at h ⊢
      obtain ⟨⟨n, t⟩, hs, rfl⟩ := map_eq_ok.mp h
      rw [← List.cons_append, Numeral.scan_append hs hr]
      rfl
    · rw [if_neg hd] at h
      cases h

theorem skipKey_append {b : Bracket} {s r : List Char} (h : skipKey b s = .ok r) (u : List Char) :
    skipKey b (s ++ u) = .ok (r ++ u) := by
  cases b with
  | list => cases h; rfl
  | object =>
    rw [skipKey] at h ⊢
    split at h
    · next hs =>
      split at h
      · cases h
      · next ht => simp only [dropBlank_append hs, skipString_append ht, readColon_append h]
    · cases h
    · cases h

/-! ## Steps -/

section Steps

variable {outer : List Bracket} {b : Bracket} {c : Char} {s r t : List Char}

theorem skipTo_blank (h : dropBlank s = []) :
    skipTo outer s = .error (Problem.eofInValue.on []) := by
  rw [skipTo]
  split <;> simp_all
  split <;> simp_all [skipScalar]

theorem skipTo_list (h : dropBlank s = '[' :: r) : skipTo outer s = skipOpened .list outer r := by
  rw [skipTo]
  split <;> simp_all

theorem skipTo_object (h : dropBlank s = '{' :: r) :
    skipTo outer s = skipOpened .object outer r := by
  rw [skipTo]
  split <;> simp_all

theorem skipTo_scalar (hl : ∀ r, dropBlank s ≠ '[' :: r) (ho : ∀ r, dropBlank s ≠ '{' :: r)
    (h : skipScalar (dropBlank s) = .ok r) : skipTo outer s = skipAfter outer r := by
  rw [skipTo]
  split <;> simp_all
  split <;> simp_all

/-- A value that is passed over is a list, an object, or neither. -/
theorem skipTo_cases (h : skipTo outer s = .ok r) :
    (∃ t, dropBlank s = '[' :: t ∧ skipOpened .list outer t = .ok r) ∨
    (∃ t, dropBlank s = '{' :: t ∧ skipOpened .object outer t = .ok r) ∨
    ∃ c v t, dropBlank s = c :: v ∧ c ≠ '[' ∧ c ≠ '{' ∧ skipScalar (c :: v) = .ok t ∧
      skipAfter outer t = .ok r := by
  rw [skipTo] at h
  split at h
  · next t hd => exact .inl ⟨t, hd, h⟩
  · next t hd => exact .inr (.inl ⟨t, hd, h⟩)
  · next hl ho =>
    split at h
    · cases h
    · next t hs =>
      cases hd : dropBlank s with
      | nil => rw [hd] at hs; cases hs
      | cons c v =>
        exact .inr (.inr ⟨c, v, t, rfl, fun hc => hl v (hc ▸ hd), fun hc => ho v (hc ▸ hd),
          hd ▸ hs, h⟩)

theorem skipOpened_close (h : dropBlank s = b.closer :: r) :
    skipOpened b outer s = skipAfter outer r := by
  rw [skipOpened]
  split <;> simp_all

theorem skipOpened_value (h : dropBlank s = c :: r) (hc : c ≠ b.closer)
    (hk : skipKey b (c :: r) = .ok t) : skipOpened b outer s = skipTo (b :: outer) t := by
  rw [skipOpened]
  split <;> simp_all
  split <;> simp_all

/-- Behind an opening bracket stands the closer or the first item. -/
theorem skipOpened_cases (h : skipOpened b outer s = .ok r) :
    (∃ t, dropBlank s = b.closer :: t ∧ skipAfter outer t = .ok r) ∨
    ∃ c v t, dropBlank s = c :: v ∧ c ≠ b.closer ∧ skipKey b (c :: v) = .ok t ∧
      skipTo (b :: outer) t = .ok r := by
  rw [skipOpened] at h
  split at h
  · cases h
  · next c v hd =>
    by_cases hc : c = b.closer
    · rw [if_pos hc] at h
      exact .inl ⟨v, hc ▸ hd, h⟩
    rw [if_neg hc] at h
    split at h
    · cases h
    · next t hk => exact .inr ⟨c, v, t, hd, hc, hk, h⟩

theorem skipAfter_comma (h : dropBlank s = ',' :: r) (hk : skipKey b r = .ok t) :
    skipAfter (b :: outer) s = skipTo (b :: outer) t := by
  rw [skipAfter]
  split <;> simp_all
  split <;> simp_all

theorem skipAfter_close (h : dropBlank s = b.closer :: r) :
    skipAfter (b :: outer) s = skipAfter outer r := by
  have hc : b.closer ≠ ',' := by cases b <;> decide
  rw [skipAfter]
  split <;> simp_all

/-- Behind an item stands a comma and the next item, or the closer. -/
theorem skipAfter_cases (h : skipAfter (b :: outer) s = .ok r) :
    (∃ v t, dropBlank s = ',' :: v ∧ skipKey b v = .ok t ∧ skipTo (b :: outer) t = .ok r) ∨
    ∃ t, dropBlank s = b.closer :: t ∧ skipAfter outer t = .ok r := by
  rw [skipAfter] at h
  split at h
  · cases h
  · next c v hd =>
    by_cases hc : c = ','
    · rw [if_pos hc] at h
      split at h
      · cases h
      · next t hk => exact .inl ⟨v, t, hc ▸ hd, hk, h⟩
    rw [if_neg hc] at h
    by_cases hb : c = b.closer
    · rw [if_pos hb] at h
      exact .inr ⟨v, hb ▸ hd, h⟩
    · rw [if_neg hb] at h
      cases h

end Steps

/-! ## Values -/

mutual

theorem skipTo_append {outer : List Bracket} {s r : List Char} (h : skipTo outer s = .ok r)
    (hr : r ≠ []) (u : List Char) : skipTo outer (s ++ u) = .ok (r ++ u) := by
  rcases skipTo_cases h with ⟨t, hd, ht⟩ | ⟨t, hd, ht⟩ | ⟨c, v, t, hd, hl, ho, hs, ht⟩
  · rw [skipTo_list (dropBlank_append hd u)]
    exact skipOpened_append ht hr u
  · rw [skipTo_object (dropBlank_append hd u)]
    exact skipOpened_append ht hr u
  · have hdu := dropBlank_append hd u
    -- more text may only follow a scalar that something stands behind already
    have hne : t ≠ [] := ne_nil_of_length_le (length_of_skip.2.1 outer t r ht) hr
    rw [skipTo_scalar (r := t ++ u) (by simp [hdu, hl]) (by simp [hdu, ho])
      (by rw [hdu]; exact skipScalar_append hs hne u)]
    exact skipAfter_append ht hr u
termination_by (s.length, 0)
decreasing_by
  · exact .left _ _ (length_lt_of_dropBlank hd)
  · exact .left _ _ (length_lt_of_dropBlank hd)
  · have h1 := length_of_skipScalar hs
    have h2 := length_dropBlank_le s
    exact .left _ _ (by rw [hd] at h2; omega)

theorem skipOpened_append {b : Bracket} {outer : List Bracket} {s r : List Char}
    (h : skipOpened b outer s = .ok r) (hr : r ≠ []) (u : List Char) :
    skipOpened b outer (s ++ u) = .ok (r ++ u) := by
  rcases skipOpened_cases h with ⟨t, hd, ht⟩ | ⟨c, v, t, hd, hc, hk, ht⟩
  · rw [skipOpened_close (dropBlank_append hd u)]
    exact skipAfter_append ht hr u
  · rw [skipOpened_value (dropBlank_append hd u) hc (skipKey_append hk u)]
    exact skipTo_append ht hr u
termination_by (s.length, 1)
decreasing_by
  · exact .left _ _ (length_lt_of_dropBlank hd)
  · have h1 := length_of_skipKey hk
    have h2 := length_lt_of_dropBlank hd
    rw [List.length_cons] at h1
    rcases Nat.lt_or_eq_of_le (Nat.le_trans h1 h2) with hlt | heq
    · exact .left _ _ hlt
    · rw [heq]
      exact .right _ Nat.zero_lt_one

theorem skipAfter_append {outer : List Bracket} {s r : List Char} (h : skipAfter outer s = .ok r)
    (hr : r ≠ []) (u : List Char) : skipAfter outer (s ++ u) = .ok (r ++ u) := by
  cases outer with
  | nil =>
    rw [skipAfter] at h ⊢
    cases h
    rfl
  | cons b outer =>
    rcases skipAfter_cases h with ⟨v, t, hd, hk, ht⟩ | ⟨t, hd, ht⟩
    · rw [skipAfter_comma (dropBlank_append hd u) (skipKey_append hk u)]
      exact skipTo_append ht hr u
    · rw [skipAfter_close (dropBlank_append hd u)]
      exact skipAfter_append ht hr u
termination_by (s.length, 0)
decreasing_by
  · have h1 := length_of_skipKey hk
    have h2 := length_lt_of_dropBlank hd
    exact .left _ _ (by omega)
  · exact .left _ _ (length_lt_of_dropBlank hd)

end

theorem skipValue_append {s r : List Char} (h : skipValue s = .ok r) (hr : r ≠ []) (u : List Char) :
    skipValue (s ++ u) = .ok (r ++ u) :=
  skipTo_append h hr u

end GrammarTables.Json
