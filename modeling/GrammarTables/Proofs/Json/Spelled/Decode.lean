import GrammarTables.Json.Record
import GrammarTables.Proofs.Json.Denotes
import GrammarTables.Proofs.Json.Spelled.Skip
import GrammarTables.Proofs.NameMap

/-!
# What decoders read

`Sound d P`: whatever the decoder reads is spelled at the front of the text, by a document that
stands in the relation `P` to what was read.
-/

namespace GrammarTables.Json

variable {α β : Type} {P : Doc → α → Prop}

namespace Decoder

def Sound (d : Decoder α) (P : Doc → α → Prop) : Prop :=
  ∀ s t a, d.run s = .ok (a, t) → ∃ v, Front s v t ∧ P v a

theorem Sound.map {d : Decoder α} {f : α → β} {Q : Doc → β → Prop} (hd : d.Sound P)
    (hf : ∀ v a, P v a → Q v (f a)) : (d.map f).Sound Q := by
  intro s t b h
  obtain ⟨⟨a, u⟩, hs, heq⟩ := map_eq_ok.mp h
  cases heq
  obtain ⟨v, hv, hp⟩ := hd _ _ _ hs
  exact ⟨v, hv, hf v a hp⟩

/-! ## Values without parts -/

theorem Sound.string : string.Sound Doc.DenotesText := by
  intro s t a h
  simp only [Decoder.string] at h
  split at h
  · next r hs =>
    obtain ⟨⟨cs, u⟩, hr, heq⟩ := map_eq_ok.mp h
    cases heq
    exact ⟨.string _, .mk (gap_of_dropBlank hs) (.string (spells_of_readString hr)),
      congrArg Doc.string (codeUnits_ofList cs).symm⟩
  · cases h

theorem Sound.bool : bool.Sound Doc.DenotesBool := by
  intro s t b h
  simp only [Decoder.bool] at h
  split at h
  · next r hs =>
    obtain ⟨u, hr, heq⟩ := map_eq_ok.mp h
    cases heq
    exact ⟨.bool true, .mk (gap_of_dropBlank hs) (spells_true hr), rfl⟩
  · next r hs =>
    obtain ⟨u, hr, heq⟩ := map_eq_ok.mp h
    cases heq
    exact ⟨.bool false, .mk (gap_of_dropBlank hs) (spells_false hr), rfl⟩
  · cases h

theorem Sound.unit : unit.Sound fun v _ => v = .null := by
  intro s t a h
  simp only [Decoder.unit] at h
  split at h
  · next r hs =>
    obtain ⟨u, hr, heq⟩ := map_eq_ok.mp h
    cases heq
    exact ⟨.null, .mk (gap_of_dropBlank hs) (spells_null hr), rfl⟩
  · cases h

theorem Sound.optional {d : Decoder α} (hd : d.Sound P) :
    d.optional.Sound (Doc.DenotesOptional P) := by
  intro s t a h
  simp only [Decoder.optional] at h
  split at h
  · next r hs =>
    obtain ⟨u, hr, heq⟩ := map_eq_ok.mp h
    cases heq
    exact ⟨.null, .mk (gap_of_dropBlank hs) (spells_null hr), .null⟩
  · obtain ⟨⟨b, u⟩, hr, heq⟩ := map_eq_ok.mp h
    cases heq
    obtain ⟨v, hv, hp⟩ := hd _ _ _ hr
    exact ⟨v, hv, .some hp⟩

theorem Sound.ignored : ignored.Sound fun _ _ => True := by
  intro s t a h
  obtain ⟨u, hs, heq⟩ := map_eq_ok.mp h
  cases heq
  obtain ⟨v, hv⟩ := front_of_skipValue hs
  exact ⟨v, hv, trivial⟩

end Decoder

theorem spells_of_readScalar {s r : List Char} {j : Json} (h : readScalar s = .ok (j, r)) :
    ∃ v, Spells s v r ∧ v.DenotesJson j := by
  cases s with
  | nil => cases h
  | cons c s =>
    rw [readScalar] at h
    by_cases hn : c = 'n'
    · rw [if_pos hn] at h
      obtain ⟨t, ht, heq⟩ := map_eq_ok.mp h
      cases heq
      exact ⟨.null, hn ▸ spells_null ht, .null⟩
    rw [if_neg hn] at h
    by_cases ht : c = 't'
    · rw [if_pos ht] at h
      obtain ⟨t, hs, heq⟩ := map_eq_ok.mp h
      cases heq
      exact ⟨.bool true, ht ▸ spells_true hs, .bool⟩
    rw [if_neg ht] at h
    by_cases hf : c = 'f'
    · rw [if_pos hf] at h
      obtain ⟨t, hs, heq⟩ := map_eq_ok.mp h
      cases heq
      exact ⟨.bool false, hf ▸ spells_false hs, .bool⟩
    rw [if_neg hf] at h
    by_cases hq : c = '"'
    · rw [if_pos hq] at h
      obtain ⟨⟨cs, t⟩, hs, heq⟩ := map_eq_ok.mp h
      cases heq
      have hs := spells_of_readString hs
      rw [← codeUnits_ofList] at hs
      exact ⟨.string _, hq ▸ .string hs, .string⟩
    rw [if_neg hq] at h
    by_cases hd : c = '-' ∨ isDigit c
    · rw [if_pos hd] at h
      obtain ⟨⟨x, t⟩, hs, heq⟩ := map_eq_ok.mp h
      cases heq
      obtain ⟨n, hs, hx⟩ := spells_of_readNumber hs
      exact ⟨.number n, .number hs, .number hx⟩
    · rw [if_neg hd] at h
      cases h

/-! ## Lists -/

theorem gap_of_nextItem {first : Bool} {s t : List Char}
    (h : nextItem first s = .ok (.close t)) : Gap s (']' :: t) := by
  unfold nextItem at h
  split at h
  · cases h
  · next c r hs =>
    by_cases hc : c = ']'
    · rw [if_pos hc] at h
      cases h
      exact gap_of_dropBlank (hc ▸ hs)
    rw [if_neg hc] at h
    repeat' split at h
    all_goals cases h

theorem lead_of_nextItem {first : Bool} {s t : List Char}
    (h : nextItem first s = .ok (.item t)) : Lead first s t := by
  unfold nextItem at h
  split at h
  · cases h
  · next c r hs =>
    by_cases hc : c = ']'
    · rw [if_pos hc] at h
      cases h
    rw [if_neg hc] at h
    cases first with
    | true =>
      cases h
      exact .first (gap_of_dropBlank hs)
    | false =>
      rw [if_neg Bool.false_ne_true] at h
      by_cases hk : c = ','
      · rw [if_pos hk] at h
        split at h
        · cases h
        · next hr =>
          split at h
          · cases h
          · cases h
            exact .next (gap_of_dropBlank (hk ▸ hs)) (gap_of_dropBlank hr)
      · rw [if_neg hk] at h
        cases h

theorem spells_of_items {d : Decoder α} (hd : d.Sound P) {first : Bool} {s t : List Char}
    {as : List α} (h : items d first s = .ok (as, t)) :
    ∃ vs, SpellsItems first s vs t ∧ List.Forall₂ P vs as := by
  fun_induction items d first s generalizing as t with
  | case1 => cases h
  | case2 first s r hn =>
    cases h
    exact ⟨[], .close (gap_of_nextItem hn), .nil⟩
  | case3 => cases h
  | case4 first s r hn a u hr ih =>
    obtain ⟨⟨bs, w⟩, hw, heq⟩ := map_eq_ok.mp h
    cases heq
    obtain ⟨v, hv, hp⟩ := hd _ _ _ hr
    obtain ⟨vs, hvs, hps⟩ := ih hw
    exact ⟨v :: vs, .front (lead_of_nextItem hn) hv hvs, .cons hp hps⟩

theorem Decoder.Sound.list {item : Option (Decoder α)} (hi : ∀ d ∈ item, d.Sound P) :
    (list item).Sound (Doc.DenotesList P) := by
  intro s t as h
  simp only [Decoder.list] at h
  split at h
  · next r hs =>
    cases item with
    | none => cases h
    | some d =>
      obtain ⟨vs, hvs, hps⟩ := spells_of_items (hi d rfl) h
      exact ⟨.list vs, .mk (gap_of_dropBlank hs) (.list hvs), .mk hps⟩
  · cases h

/-! ## Objects -/

theorem spells_of_readKey {s t : List Char} {k : String} (h : readKey s = .ok (.key k t)) :
    ∃ r, s = '"' :: r ∧ SpellsUnits r (codeUnits k) t := by
  unfold readKey at h
  split at h
  · next r =>
    obtain ⟨⟨cs, u⟩, hr, heq⟩ := map_eq_ok.mp h
    cases heq
    exact ⟨r, rfl, codeUnits_ofList cs ▸ spells_of_readString hr⟩
  · cases h

theorem gap_of_nextKey {first : Bool} {s t : List Char}
    (h : nextKey first s = .ok (.close t)) : Gap s ('}' :: t) := by
  unfold nextKey at h
  split at h
  · cases h
  · next c r hs =>
    by_cases hc : c = '}'
    · rw [if_pos hc] at h
      cases h
      exact gap_of_dropBlank (hc ▸ hs)
    rw [if_neg hc] at h
    repeat' split at h
    all_goals first
      | cases h
      | exact absurd h readKey_ne_close

theorem lead_of_nextKey {first : Bool} {s t : List Char} {k : String}
    (h : nextKey first s = .ok (.key k t)) :
    ∃ r, Lead first s ('"' :: r) ∧ SpellsUnits r (codeUnits k) t := by
  unfold nextKey at h
  split at h
  · cases h
  · next c r hs =>
    by_cases hc : c = '}'
    · rw [if_pos hc] at h
      cases h
    rw [if_neg hc] at h
    cases first with
    | true =>
      obtain ⟨u, heq, hu⟩ := spells_of_readKey h
      exact ⟨u, .first (gap_of_dropBlank (heq ▸ hs)), hu⟩
    | false =>
      rw [if_neg Bool.false_ne_true] at h
      by_cases hk : c = ','
      · rw [if_pos hk] at h
        split at h
        · cases h
        · next hr =>
          split at h
          · cases h
          · obtain ⟨u, heq, hu⟩ := spells_of_readKey h
            exact ⟨u, .next (gap_of_dropBlank (hk ▸ hs)) (gap_of_dropBlank (heq ▸ hr)), hu⟩
      · rw [if_neg hk] at h
        cases h

theorem spells_of_memberValue {d : Decoder α} (hd : d.Sound P) {s t : List Char} {a : α}
    (h : memberValue d s = .ok (a, t)) : ∃ r v, Gap s (':' :: r) ∧ Front r v t ∧ P v a := by
  unfold memberValue at h
  split at h
  · cases h
  · next r hc =>
    obtain ⟨v, hv, hp⟩ := hd _ _ _ h
    exact ⟨r, v, gap_of_readColon hc, hv, hp⟩

/-- The key and the value of a member. -/
theorem spells_of_member {d : Decoder α} (hd : d.Sound P) {first : Bool} {s t u : List Char}
    {k : String} {a : α} (hk : nextKey first s = .ok (.key k t))
    (ha : memberValue d t = .ok (a, u)) :
    ∃ r v, Lead first s r ∧ SpellsMember r (codeUnits k, v) u ∧ P v a := by
  obtain ⟨r, hl, hr⟩ := lead_of_nextKey hk
  obtain ⟨w, v, hw, hv, hp⟩ := spells_of_memberValue hd ha
  exact ⟨'"' :: r, v, hl, .mk hr hw hv, hp⟩

theorem spells_of_members {d : Decoder α} (hd : d.Sound P) {first : Bool} {s t : List Char}
    {es : List (String × α)} (h : members d first s = .ok (es, t)) :
    ∃ ms, SpellsMembers first s ms t ∧ List.Forall₂ (Doc.DenotesMember P) ms es := by
  fun_induction members d first s generalizing es t with
  | case1 => cases h
  | case2 first s r hn =>
    cases h
    exact ⟨[], .close (gap_of_nextKey hn), .nil⟩
  | case3 => cases h
  | case4 first s k r hn a u hr ih =>
    obtain ⟨⟨fs, w⟩, hw, heq⟩ := map_eq_ok.mp h
    cases heq
    obtain ⟨r, v, hl, hm, hp⟩ := spells_of_member hd hn hr
    obtain ⟨ms, hms, hps⟩ := ih hw
    exact ⟨(codeUnits k, v) :: ms, .member hl hm hms, .cons (.mk hp) hps⟩

/-! ## Maps -/

namespace Doc

theorem DenotesMap.empty : DenotesMap P (.object []) NameMap.empty := ⟨fun _ => .rfl, nofun⟩

/-- One more member takes the place of an earlier one with the same key. -/
theorem DenotesMap.insert {ms : List (List Nat × Doc)} {m : NameMap α}
    (h : DenotesMap P (.object ms) m) {v : Doc} {name : String} {a : α} (hp : P v a) :
    DenotesMap P (.object (ms ++ [(codeUnits name, v)])) (m.insert name a) := by
  obtain ⟨keys, last⟩ := h
  refine ⟨fun key => ?_, fun e he => ?_⟩
  · rw [List.map_append, List.mem_append, keys, or_comm]
    simp [NameMap.mem_names_insert, or_and_right, exists_or, eq_comm]
  · rcases NameMap.mem_entries_insert.mp he with rfl | ⟨he, hne⟩
    · exact ⟨v, .concat ms _ v, hp⟩
    · obtain ⟨w, hw, hp⟩ := last e he
      exact ⟨w, hw.append fun h => hne (codeUnits_inj h), hp⟩

theorem DenotesMap.foldl_insert {ms ns : List (List Nat × Doc)} {es : List (String × α)}
    {m : NameMap α} (h : DenotesMap P (.object ms) m) (hes : List.Forall₂ (DenotesMember P) ns es) :
    DenotesMap P (.object (ms ++ ns)) (es.foldl (fun m e => m.insert e.1 e.2) m) := by
  induction hes generalizing ms m with
  | nil => rwa [List.append_nil]
  | cons hmem _ ih =>
    obtain ⟨hp⟩ := hmem
    rw [List.append_cons]
    exact ih (h.insert hp)

theorem DenotesMap.ofList {ms : List (List Nat × Doc)} {es : List (String × α)}
    (h : List.Forall₂ (DenotesMember P) ms es) : DenotesMap P (.object ms) (NameMap.ofList es) :=
  DenotesMap.empty.foldl_insert h

end Doc

theorem Decoder.Sound.nameMap {value : Option (Decoder α)} (hv : ∀ d ∈ value, d.Sound P) :
    (nameMap value).Sound (Doc.DenotesMap P) := by
  intro s t m h
  simp only [Decoder.nameMap] at h
  split at h
  · next r hs =>
    cases value with
    | none => cases h
    | some d =>
      obtain ⟨⟨es, u⟩, hm, heq⟩ := map_eq_ok.mp h
      cases heq
      obtain ⟨ms, hms, hes⟩ := spells_of_members (hv d rfl) hm
      exact ⟨.object ms, .mk (gap_of_dropBlank hs) (.object hms), .ofList hes⟩
  · cases h

/-! ## Values of any kind -/

namespace Decoder

theorem Sound.anyOf {inner : Option (Decoder Json)} (hi : ∀ d ∈ inner, d.Sound Doc.DenotesJson) :
    (anyOf inner).Sound Doc.DenotesJson := by
  intro s t j h
  simp only [Decoder.anyOf] at h
  split at h
  · next r hs =>
    cases inner with
    | none => cases h
    | some d =>
      obtain ⟨⟨as, u⟩, hr, heq⟩ := map_eq_ok.mp h
      cases heq
      obtain ⟨vs, hvs, hps⟩ := spells_of_items (hi d rfl) hr
      exact ⟨.list vs, .mk (gap_of_dropBlank hs) (.list hvs), .list hps⟩
  · next r hs =>
    cases inner with
    | none => cases h
    | some d =>
      obtain ⟨⟨es, u⟩, hr, heq⟩ := map_eq_ok.mp h
      cases heq
      obtain ⟨ms, hms, hps⟩ := spells_of_members (hi d rfl) hr
      exact ⟨.object ms, .mk (gap_of_dropBlank hs) (.object hms), .object hps⟩
  · obtain ⟨v, hv, hp⟩ := spells_of_readScalar h
    exact ⟨v, .mk (gap_dropBlank s) hv, hp⟩

theorem Sound.any (room : Nat) : (any room).Sound Doc.DenotesJson := by
  induction room with
  | zero => exact .anyOf nofun
  | succ room ih => exact .anyOf fun d hd => Option.mem_some.mp hd ▸ ih

end Decoder

end GrammarTables.Json
