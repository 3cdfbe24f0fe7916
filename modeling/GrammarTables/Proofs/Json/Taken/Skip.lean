import GrammarTables.Proofs.Json.MoreText.Skip
import GrammarTables.Proofs.Json.Taken.Scan

/-!
# Any value is passed over

The walk that passes over a value gets behind it whatever the value is. The induction is on the
document; what stands on the stack below the value's own brackets does not matter to it.
-/

namespace GrammarTables.Json

variable {s t : List Char}

theorem skipScalar_of_number {n : Numeral} (h : SpellsNumber s n t) (ht : Delimited t) :
    skipScalar s = .ok t := by
  obtain ⟨c, r, rfl, hc⟩ := h.head
  rw [skipScalar, if_neg (ne_of_number hc (by decide)), if_neg (ne_of_number hc (by decide)),
    if_neg (ne_of_number hc (by decide)), if_neg (ne_of_number hc (by decide)), if_pos hc,
    Numeral.scan_of_spells h ht]
  rfl

/-! ## Between brackets -/

/-- Goes on between brackets, before the first or a later item. -/
def skipBody (b : Bracket) (first : Bool) (outer : List Bracket) (s : List Char) :
    Except Failure (List Char) :=
  if first then skipOpened b outer s else skipAfter (b :: outer) s

variable {outer : List Bracket} {first : Bool}

theorem skipBody_close {b : Bracket} (h : Gap s (b.closer :: t)) :
    skipBody b first outer s = skipAfter outer t := by
  have hd : dropBlank s = b.closer :: t := dropBlank_of_gap h (by cases b <;> decide)
  cases first with
  | true => exact skipOpened_close hd
  | false => exact skipAfter_close hd

theorem skipBody_item (outer : List Bracket) {u w : List Char} {v : Doc} (hl : Lead first s u)
    (hv : Spells u v w) :
    ∃ r, Gap r u ∧ skipBody .list first outer s = skipTo (.list :: outer) r := by
  obtain ⟨c, r, rfl, hc, hne⟩ := hv.start
  cases hl with
  | first hs => exact ⟨_, .refl _, skipOpened_value (dropBlank_of_gap hs hc) hne rfl⟩
  | next hs hr => exact ⟨_, hr, skipAfter_comma (dropBlank_of_gap hs (by decide)) rfl⟩

theorem skipKey_of_spells {u w : List Char} {key : List Nat} (hs : Gap s ('"' :: u))
    (hu : SpellsUnits u key w) (hw : Gap w (':' :: t)) : skipKey .object s = .ok t := by
  simp only [skipKey, dropBlank_of_gap hs (by decide), skipString_of_spells hu, readColon_of_gap hw]

theorem skipBody_member {u w : List Char} {key : List Nat} (hl : Lead first s ('"' :: u))
    (hu : SpellsUnits u key w) (hw : Gap w (':' :: t)) :
    skipBody .object first outer s = skipTo (.object :: outer) t := by
  cases hl with
  | first hs =>
    exact skipOpened_value (dropBlank_of_gap hs (by decide)) (by decide)
      (skipKey_of_spells (.refl _) hu hw)
  | next hs hr => exact skipAfter_comma (dropBlank_of_gap hs (by decide)) (skipKey_of_spells hr hu hw)

/-! ## Values -/

theorem skipTo_of_scalar {c : Char} {u : List Char} (hs : Gap s (c :: u)) (hc : c ∉ blanks)
    (hl : c ≠ '[') (ho : c ≠ '{') (h : skipScalar (c :: u) = .ok t) :
    skipTo outer s = skipAfter outer t := by
  have hd := dropBlank_of_gap hs hc
  exact skipTo_scalar (by simp [hd, hl]) (by simp [hd, ho]) (hd ▸ h)

mutual

theorem skipTo_of_spells {v : Doc} {outer : List Bracket} {s t u : List Char} (hs : Gap s u)
    (h : Spells u v t) (ht : Delimited t) : skipTo outer s = skipAfter outer t := by
  cases v with
  | null =>
    cases h
    exact skipTo_of_scalar hs (by decide) (by decide) (by decide) (word_append_self ..)
  | bool b =>
    cases h with
    | yes => exact skipTo_of_scalar hs (by decide) (by decide) (by decide) (word_append_self ..)
    | no => exact skipTo_of_scalar hs (by decide) (by decide) (by decide) (word_append_self ..)
  | number n =>
    cases h with
    | number hn =>
      have hscalar := skipScalar_of_number hn ht
      obtain ⟨c, r, rfl, hc⟩ := hn.head
      exact skipTo_of_scalar hs (not_blank_of_number hc) (ne_of_number hc (by decide))
        (ne_of_number hc (by decide)) hscalar
  | string us =>
    cases h with
    | string hu =>
      exact skipTo_of_scalar hs (by decide) (by decide) (by decide) (skipString_of_spells hu)
  | list vs =>
    cases h with
    | list hi =>
      rw [skipTo_list (dropBlank_of_gap hs (by decide))]
      exact skipBody_of_items hi
  | object ms =>
    cases h with
    | object hm =>
      rw [skipTo_object (dropBlank_of_gap hs (by decide))]
      exact skipBody_of_members hm
termination_by structural v

theorem skipBody_of_items {vs : List Doc} {first : Bool} {outer : List Bracket} {s t : List Char}
    (h : SpellsItems first s vs t) : skipBody .list first outer s = skipAfter outer t := by
  cases vs with
  | nil =>
    cases h with
    | close hs => exact skipBody_close hs
  | cons v vs =>
    cases h with
    | item hl hv hi =>
      obtain ⟨r, hr, hbody⟩ := skipBody_item outer hl hv
      rw [hbody, skipTo_of_spells hr hv hi.delimited]
      exact skipBody_of_items hi
termination_by structural vs

theorem skipTo_of_member {m : List Nat × Doc} {first : Bool} {outer : List Bracket}
    {s t u : List Char} (hl : Lead first s u) (h : SpellsMember u m t) (ht : Delimited t) :
    skipBody .object first outer s = skipAfter (.object :: outer) t := by
  obtain ⟨key, v⟩ := m
  cases h with
  | mk hk hc hv =>
    obtain ⟨hw, hv⟩ := hv
    rw [skipBody_member hl hk hc, skipTo_of_spells hw hv ht]
termination_by structural m

theorem skipBody_of_members {ms : List (List Nat × Doc)} {first : Bool} {outer : List Bracket}
    {s t : List Char} (h : SpellsMembers first s ms t) :
    skipBody .object first outer s = skipAfter outer t := by
  cases ms with
  | nil =>
    cases h with
    | close hs => exact skipBody_close hs
  | cons m ms =>
    cases h with
    | member hl hm hi =>
      rw [skipTo_of_member hl hm hi.delimited]
      exact skipBody_of_members hi
termination_by structural ms

end

theorem skipValue_of_front {v : Doc} (h : Front s v t) (ht : Delimited t) : skipValue s = .ok t := by
  obtain ⟨hs, hv⟩ := h
  rw [skipValue, skipTo_of_spells hs hv ht, skipAfter]

end GrammarTables.Json
