import GrammarTables.Proofs.Json.MoreText.Skip
import GrammarTables.Proofs.Json.Steps

/-!
# More text behind what is decoded

`Settled d`: the decoder needs something other than blanks, and gives the same
value for a longer text, unless the value went up to the very end of the text.
-/

namespace GrammarTables.Json

variable {α β : Type}

namespace Decoder

structure Settled (d : Decoder α) : Prop where
  dropBlank_ne_nil {s r : List Char} {a : α} (h : d.run s = .ok (a, r)) : dropBlank s ≠ []
  append {s r : List Char} {a : α} (h : d.run s = .ok (a, r)) (hr : r ≠ []) (u : List Char) :
    d.run (s ++ u) = .ok (a, r ++ u)

theorem Settled.map {d : Decoder α} (f : α → β) (h : d.Settled) : (d.map f).Settled where
  dropBlank_ne_nil hs := by
    obtain ⟨_, hs, -⟩ := map_eq_ok.mp hs
    exact h.dropBlank_ne_nil hs
  append hs hr u := map_value_append hs fun _ hs => h.append hs hr u

/-! ## Values without parts -/

theorem Settled.string : string.Settled where
  dropBlank_ne_nil h hd := by
    simp only [Decoder.string, hd] at h
    cases h
  append h _ u := by
    simp only [Decoder.string] at h ⊢
    split at h
    · next hs =>
      rw [dropBlank_append hs]
      exact map_value_append h fun _ ht => readString_append ht u
    · cases h

theorem Settled.bool : bool.Settled where
  dropBlank_ne_nil h hd := by
    simp only [Decoder.bool, hd] at h
    cases h
  append h _ u := by
    simp only [Decoder.bool] at h ⊢
    split at h
    · next hs =>
      rw [dropBlank_append hs]
      exact map_rest_append h fun ht => word_append ht u
    · next hs =>
      rw [dropBlank_append hs]
      exact map_rest_append h fun ht => word_append ht u
    · cases h

theorem Settled.unit : unit.Settled where
  dropBlank_ne_nil h hd := by
    simp only [Decoder.unit, hd] at h
    cases h
  append h _ u := by
    simp only [Decoder.unit] at h ⊢
    split at h
    · next hs =>
      rw [dropBlank_append hs]
      exact map_rest_append h fun ht => word_append ht u
    · cases h

theorem Settled.optional {d : Decoder α} (hd : d.Settled) : d.optional.Settled where
  dropBlank_ne_nil h hb := by
    simp only [Decoder.optional, hb] at h
    obtain ⟨_, hs, -⟩ := map_eq_ok.mp h
    exact hd.dropBlank_ne_nil hs hb
  append {s r a} h hr u := by
    simp only [Decoder.optional] at h ⊢
    split at h
    · next hs =>
      rw [dropBlank_append hs]
      exact map_rest_append h fun ht => word_append ht u
    · next hn =>
      obtain ⟨_, hs, -⟩ := map_eq_ok.mp h
      obtain ⟨c, v, hv⟩ := List.exists_cons_of_ne_nil (hd.dropBlank_ne_nil hs)
      have hc : c ≠ 'n' := fun hc => hn v (hc ▸ hv)
      rw [dropBlank_append hv]
      split
      · next heq => cases heq; exact absurd rfl hc
      · exact map_value_append h fun _ hs => hd.append hs hr u

theorem Settled.ignored : ignored.Settled where
  dropBlank_ne_nil h hd := by
    obtain ⟨t, hs, -⟩ := map_eq_ok.mp h
    rw [skipValue, skipTo_blank hd] at hs
    cases hs
  append h hr u := map_rest_append h fun hs => skipValue_append hs hr u

end Decoder

theorem readScalar_append {s r : List Char} {v : Json} (h : readScalar s = .ok (v, r)) (hr : r ≠ [])
    (u : List Char) : readScalar (s ++ u) = .ok (v, r ++ u) := by
  cases s with
  | nil => cases h
  | cons c s =>
    rw [readScalar] at h
    rw [List.cons_append, readScalar]
    by_cases hn : c = 'n'
    · rw [if_pos hn] at h ⊢
      exact map_rest_append h fun ht => word_append ht u
    rw [if_neg hn] at h ⊢
    by_cases ht : c = 't'
    · rw [if_pos ht] at h ⊢
      exact map_rest_append h fun ht => word_append ht u
    rw [if_neg ht] at h ⊢
    by_cases hf : c = 'f'
    · rw [if_pos hf] at h ⊢
      exact map_rest_append h fun ht => word_append ht u
    rw [if_neg hf] at h ⊢
    by_cases hq : c = '"'
    · rw [if_pos hq] at h ⊢
      exact map_value_append (f := fun t => Json.string (String.ofList t)) h fun _ ht =>
        readString_append ht u
    rw [if_neg hq] at h ⊢
    by_cases hd : c = '-' ∨ isDigit c
    · rw [if_pos hd] at h ⊢
      exact map_value_append h fun _ ht => readNumber_append ht hr u
    · rw [if_neg hd] at h
      cases h

/-! ## Lists -/

/-- The same with more text behind it. -/
def Next.append (u : List Char) : Next → Next
  | close r => close (r ++ u)
  | item r => item (r ++ u)

theorem nextItem_append {first : Bool} {s : List Char} {n : Next} (h : nextItem first s = .ok n)
    (u : List Char) : nextItem first (s ++ u) = .ok (n.append u) := by
  unfold nextItem at h ⊢
  cases hs : dropBlank s with
  | nil => rw [hs] at h; cases h
  | cons c r =>
    rw [hs] at h
    rw [dropBlank_append hs]
    dsimp only at h ⊢
    by_cases hc : c = ']'
    · rw [if_pos hc] at h ⊢
      cases h
      rfl
    rw [if_neg hc] at h ⊢
    by_cases hf : first
    · rw [if_pos hf] at h ⊢
      cases h
      rfl
    rw [if_neg hf] at h ⊢
    by_cases hk : c = ','
    · rw [if_pos hk] at h ⊢
      cases hr : dropBlank r with
      | nil => rw [hr] at h; cases h
      | cons d t =>
        rw [hr] at h
        rw [dropBlank_append hr]
        dsimp only at h ⊢
        by_cases hd : d = ']'
        · rw [if_pos hd] at h
          cases h
        rw [if_neg hd] at h ⊢
        cases h
        rfl
    · rw [if_neg hk] at h
      cases h

/-- A reader that gets to its end has left the texts of the items before something. -/
theorem ne_nil_of_length_lt {s r : List Char} (h : r.length < s.length) : s ≠ [] := by
  rintro rfl
  exact absurd h (Nat.not_lt_zero _)

theorem items_append {item : Decoder α} (hi : item.Settled) {first : Bool} {s r : List Char}
    {as : List α} (h : items item first s = .ok (as, r)) (u : List Char) :
    items item first (s ++ u) = .ok (as, r ++ u) := by
  fun_induction items item first s generalizing as r with
  | case1 => cases h
  | case2 first s t hn =>
    cases h
    exact items_close (nextItem_append hn u)
  | case3 => cases h
  | case4 first s t hn a v hv ih =>
    obtain ⟨⟨bs, w⟩, hw, heq⟩ := map_eq_ok.mp h
    cases heq
    have hv := hi.append hv (ne_nil_of_length_lt (length_of_items hw)) u
    rw [items_item (nextItem_append hn u)]
    simp only [hv, ih hw]
    rfl

namespace Decoder

theorem Settled.list {item : Option (Decoder α)} (hi : ∀ d ∈ item, d.Settled) :
    (list item).Settled where
  dropBlank_ne_nil h hd := by
    simp only [Decoder.list, hd] at h
    cases h
  append h _ u := by
    simp only [Decoder.list] at h ⊢
    split at h
    · next hs =>
      rw [dropBlank_append hs]
      cases item with
      | none => cases h
      | some d => exact items_append (hi d rfl) h u
    · cases h

end Decoder

/-! ## Objects -/

/-- The same with more text behind it. -/
def NextKey.append (u : List Char) : NextKey → NextKey
  | close r => close (r ++ u)
  | key k r => key k (r ++ u)

theorem readKey_append {s : List Char} {n : NextKey} (h : readKey s = .ok n) (u : List Char) :
    readKey (s ++ u) = .ok (n.append u) := by
  unfold readKey at h
  split at h
  · obtain ⟨⟨t, r⟩, ht, rfl⟩ := map_eq_ok.mp h
    exact map_eq_ok.mpr ⟨_, readString_append ht u, rfl⟩
  · cases h

theorem nextKey_append {first : Bool} {s : List Char} {n : NextKey} (h : nextKey first s = .ok n)
    (u : List Char) : nextKey first (s ++ u) = .ok (n.append u) := by
  unfold nextKey at h ⊢
  cases hs : dropBlank s with
  | nil => rw [hs] at h; cases h
  | cons c r =>
    rw [hs] at h
    rw [dropBlank_append hs]
    dsimp only at h ⊢
    by_cases hc : c = '}'
    · rw [if_pos hc] at h ⊢
      cases h
      rfl
    rw [if_neg hc] at h ⊢
    by_cases hf : first
    · rw [if_pos hf] at h ⊢
      exact readKey_append h u
    rw [if_neg hf] at h ⊢
    by_cases hk : c = ','
    · rw [if_pos hk] at h ⊢
      cases hr : dropBlank r with
      | nil => rw [hr] at h; cases h
      | cons d t =>
        rw [hr] at h
        rw [dropBlank_append hr]
        dsimp only at h ⊢
        by_cases hd : d = '}'
        · rw [if_pos hd] at h
          cases h
        rw [if_neg hd] at h ⊢
        exact readKey_append h u
    · rw [if_neg hk] at h
      cases h

theorem memberValue_append {d : Decoder α} (hd : d.Settled) {s r : List Char} {a : α}
    (h : memberValue d s = .ok (a, r)) (hr : r ≠ []) (u : List Char) :
    memberValue d (s ++ u) = .ok (a, r ++ u) := by
  unfold memberValue at h ⊢
  split at h
  · cases h
  · next hc => simp only [readColon_append hc, hd.append h hr]

theorem members_append {value : Decoder α} (hv : value.Settled) {first : Bool} {s r : List Char}
    {ms : List (String × α)} (h : members value first s = .ok (ms, r)) (u : List Char) :
    members value first (s ++ u) = .ok (ms, r ++ u) := by
  fun_induction members value first s generalizing ms r with
  | case1 => cases h
  | case2 first s t hn =>
    cases h
    exact members_close (nextKey_append hn u)
  | case3 => cases h
  | case4 first s k t hn a v hm ih =>
    obtain ⟨⟨ns, w⟩, hw, heq⟩ := map_eq_ok.mp h
    cases heq
    have hm := memberValue_append hv hm (ne_nil_of_length_lt (length_of_members hw)) u
    rw [members_key (nextKey_append hn u)]
    simp only [hm, ih hw]
    rfl

namespace Decoder

theorem Settled.nameMap {value : Option (Decoder α)} (hv : ∀ d ∈ value, d.Settled) :
    (nameMap value).Settled where
  dropBlank_ne_nil h hd := by
    simp only [Decoder.nameMap, hd] at h
    cases h
  append h _ u := by
    simp only [Decoder.nameMap] at h ⊢
    split at h
    · next hs =>
      rw [dropBlank_append hs]
      cases value with
      | none => cases h
      | some d =>
        exact map_value_append h fun _ hm => members_append (hv d rfl) hm u
    · cases h

/-! ## Values of any kind -/

theorem Settled.anyOf {inner : Option (Decoder Json)} (hi : ∀ d ∈ inner, d.Settled) :
    (anyOf inner).Settled where
  dropBlank_ne_nil h hd := by
    simp only [Decoder.anyOf, hd] at h
    cases h
  append {s r v} h hr u := by
    simp only [Decoder.anyOf] at h ⊢
    split at h
    · next hs =>
      rw [dropBlank_append hs]
      cases inner with
      | none => cases h
      | some d =>
        exact map_value_append h fun _ hv => items_append (hi d rfl) hv u
    · next hs =>
      rw [dropBlank_append hs]
      cases inner with
      | none => cases h
      | some d =>
        exact map_value_append h fun _ hm => members_append (hi d rfl) hm u
    · next hl ho =>
      have hd : dropBlank s ≠ [] := fun hd => by rw [hd] at h; cases h
      obtain ⟨c, t, ht⟩ := List.exists_cons_of_ne_nil hd
      have hcl : c ≠ '[' := fun hc => hl t (hc ▸ ht)
      have hco : c ≠ '{' := fun hc => ho t (hc ▸ ht)
      rw [dropBlank_append ht]
      split
      · next heq => cases heq; exact absurd rfl hcl
      · next heq => cases heq; exact absurd rfl hco
      · rw [← List.cons_append, ← ht]
        exact readScalar_append h hr u

theorem Settled.any (room : Nat) : (any room).Settled := by
  induction room with
  | zero => exact .anyOf nofun
  | succ room ih => exact .anyOf fun d hd => Option.mem_some.mp hd ▸ ih

end Decoder

end GrammarTables.Json
