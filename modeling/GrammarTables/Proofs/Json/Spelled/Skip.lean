import GrammarTables.Proofs.Json.MoreText.Skip
import GrammarTables.Proofs.Json.Spelled.Scan

/-!
# What is passed over

A value that is passed over is spelled like any other, however deep its brackets nest. The walk
keeps the open brackets on a stack, so each step is matched with what it leaves: the walk goes on
behind a whole value, or behind the end of a whole bracket.
-/

namespace GrammarTables.Json

theorem gap_of_readColon {s r : List Char} (h : readColon s = .ok r) : Gap s (':' :: r) := by
  unfold readColon at h
  split at h
  · next hs =>
    cases h
    exact gap_of_dropBlank hs
  · cases h
  · cases h

theorem spells_of_skipScalar {s r : List Char} (h : skipScalar s = .ok r) :
    ∃ v, Spells s v r := by
  cases s with
  | nil => cases h
  | cons c s =>
    rw [skipScalar] at h
    by_cases hn : c = 'n'
    · rw [if_pos hn] at h
      exact ⟨.null, hn ▸ spells_null h⟩
    rw [if_neg hn] at h
    by_cases ht : c = 't'
    · rw [if_pos ht] at h
      exact ⟨.bool true, ht ▸ spells_true h⟩
    rw [if_neg ht] at h
    by_cases hf : c = 'f'
    · rw [if_pos hf] at h
      exact ⟨.bool false, hf ▸ spells_false h⟩
    rw [if_neg hf] at h
    by_cases hq : c = '"'
    · rw [if_pos hq] at h
      obtain ⟨us, hs⟩ := spells_of_skipString h
      exact ⟨.string us, hq ▸ .string hs⟩
    rw [if_neg hq] at h
    by_cases hd : c = '-' ∨ isDigit c
    · rw [if_pos hd] at h
      obtain ⟨⟨n, t⟩, hs, rfl⟩ := map_eq_ok.mp h
      exact ⟨.number n, .number (Numeral.spells_of_scan hs)⟩
    · rw [if_neg hd] at h
      cases h

/-! ## Brackets -/

/-- What is between brackets, from the first or from a later item on, and the closer. -/
def Body : Bracket → Bool → List Char → List Char → Prop
  | .list, first, s, t => ∃ vs, SpellsItems first s vs t
  | .object, first, s, t => ∃ ms, SpellsMembers first s ms t

theorem Body.close {b : Bracket} {first : Bool} {s t : List Char} (h : Gap s (b.closer :: t)) :
    Body b first s t := by
  cases b with
  | list => exact ⟨[], .close h⟩
  | object => exact ⟨[], .close h⟩

theorem member_of_skipKey {s t u : List Char} {v : Doc} (hk : skipKey .object s = .ok t)
    (hv : Front t v u) : ∃ r m, Gap s r ∧ SpellsMember r m u := by
  rw [skipKey] at hk
  split at hk
  · next r hs =>
    split at hk
    · cases hk
    · next w hr =>
      obtain ⟨key, hkey⟩ := spells_of_skipString hr
      exact ⟨'"' :: r, (key, v), gap_of_dropBlank hs, .mk hkey (gap_of_readColon hk) hv⟩
  · cases hk
  · cases hk

theorem Body.item {b : Bracket} {first : Bool} {s t u w x : List Char} {v : Doc}
    (hl : Lead first s u) (hk : skipKey b u = .ok w) (hv : Front w v x) (hb : Body b false x t) :
    Body b first s t := by
  cases b with
  | list =>
    cases hk
    obtain ⟨vs, hvs⟩ := hb
    exact ⟨v :: vs, .front hl hv hvs⟩
  | object =>
    obtain ⟨ms, hms⟩ := hb
    obtain ⟨r, m, hr, hm⟩ := member_of_skipKey hk hv
    exact ⟨m :: ms, .member (hl.gap hr) hm hms⟩

theorem front_of_opened {s t u : List Char} {b : Bracket} {c : Char}
    (hc : c = '[' ∧ b = .list ∨ c = '{' ∧ b = .object) (hs : dropBlank s = c :: t)
    (hb : Body b true t u) : ∃ v, Front s v u := by
  rcases hc with ⟨rfl, rfl⟩ | ⟨rfl, rfl⟩
  · obtain ⟨vs, hvs⟩ := hb
    exact ⟨.list vs, .mk (gap_of_dropBlank hs) (.list hvs)⟩
  · obtain ⟨ms, hms⟩ := hb
    exact ⟨.object ms, .mk (gap_of_dropBlank hs) (.object hms)⟩

/-! ## Values -/

mutual

theorem front_of_skipTo {outer : List Bracket} {s r : List Char} (h : skipTo outer s = .ok r) :
    ∃ v t, Front s v t ∧ t.length < s.length ∧ skipAfter outer t = .ok r := by
  rcases skipTo_cases h with ⟨t, hd, ht⟩ | ⟨t, hd, ht⟩ | ⟨c, v, t, hd, -, -, hs, ht⟩
  · have hlt := length_lt_of_dropBlank hd
    obtain ⟨u, hb, hu, hr⟩ := body_of_skipOpened ht
    obtain ⟨v, hv⟩ := front_of_opened (.inl ⟨rfl, rfl⟩) hd hb
    exact ⟨v, u, hv, Nat.lt_trans hu hlt, hr⟩
  · have hlt := length_lt_of_dropBlank hd
    obtain ⟨u, hb, hu, hr⟩ := body_of_skipOpened ht
    obtain ⟨v, hv⟩ := front_of_opened (.inr ⟨rfl, rfl⟩) hd hb
    exact ⟨v, u, hv, Nat.lt_trans hu hlt, hr⟩
  · have hlt := length_of_skipScalar hs
    have hle := length_dropBlank_le s
    rw [hd] at hle
    obtain ⟨d, hs⟩ := spells_of_skipScalar hs
    exact ⟨d, t, .mk (gap_of_dropBlank hd) hs, Nat.lt_of_lt_of_le hlt hle, ht⟩
termination_by (s.length, 0)
decreasing_by
  · exact .left _ _ (length_lt_of_dropBlank hd)
  · exact .left _ _ (length_lt_of_dropBlank hd)

theorem body_of_skipOpened {b : Bracket} {outer : List Bracket} {s r : List Char}
    (h : skipOpened b outer s = .ok r) :
    ∃ t, Body b true s t ∧ t.length < s.length ∧ skipAfter outer t = .ok r := by
  rcases skipOpened_cases h with ⟨t, hd, ht⟩ | ⟨c, v, t, hd, -, hk, ht⟩
  · exact ⟨t, .close (gap_of_dropBlank hd), length_lt_of_dropBlank hd, ht⟩
  · have hle : t.length ≤ s.length := by
      have h1 := length_of_skipKey hk
      have h2 := length_dropBlank_le s
      rw [hd] at h2
      exact Nat.le_trans h1 h2
    obtain ⟨d, w, hv, hw, ha⟩ := front_of_skipTo ht
    obtain ⟨x, hb, hx, hr⟩ := body_of_skipAfter ha
    exact ⟨x, .item (.first (gap_of_dropBlank hd)) hk hv hb, by omega, hr⟩
termination_by (s.length, 1)
decreasing_by
  · rcases Nat.lt_or_eq_of_le hle with hlt | heq
    · exact .left _ _ hlt
    · rw [heq]
      exact .right _ Nat.zero_lt_one
  · exact .left _ _ (by omega)

theorem body_of_skipAfter {b : Bracket} {outer : List Bracket} {s r : List Char}
    (h : skipAfter (b :: outer) s = .ok r) :
    ∃ t, Body b false s t ∧ t.length < s.length ∧ skipAfter outer t = .ok r := by
  rcases skipAfter_cases h with ⟨v, t, hd, hk, ht⟩ | ⟨t, hd, ht⟩
  · have hlt : t.length < s.length := Nat.lt_of_le_of_lt (length_of_skipKey hk)
      (length_lt_of_dropBlank hd)
    obtain ⟨d, w, hv, hw, ha⟩ := front_of_skipTo ht
    obtain ⟨x, hb, hx, hr⟩ := body_of_skipAfter ha
    exact ⟨x, .item (.next (gap_of_dropBlank hd) (.refl v)) hk hv hb, by omega, hr⟩
  · exact ⟨t, .close (gap_of_dropBlank hd), length_lt_of_dropBlank hd, ht⟩
termination_by (s.length, 0)
decreasing_by
  · exact .left _ _ hlt
  · exact .left _ _ (Nat.lt_trans hw hlt)

end

theorem front_of_skipValue {s r : List Char} (h : skipValue s = .ok r) : ∃ v, Front s v r := by
  obtain ⟨v, t, hv, -, ht⟩ := front_of_skipTo h
  rw [skipAfter] at ht
  cases ht
  exact ⟨v, hv⟩

end GrammarTables.Json
