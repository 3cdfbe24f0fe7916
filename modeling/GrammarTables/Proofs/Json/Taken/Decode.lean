import GrammarTables.Proofs.Json.Determined
import GrammarTables.Proofs.Json.Spelled.Decode
import GrammarTables.Proofs.Json.Steps
import GrammarTables.Proofs.Json.Taken.Skip

/-!
# What decoders take

Whether a decoder takes a text is a matter of the document that the text spells: it takes the texts
of just those documents that have a certain property, however they are written. What it gives for
them does not matter here.
-/

namespace GrammarTables.Json

variable {α β : Type}

/-! ## Documents -/

namespace Doc

def IsString (v : Doc) : Prop := ∃ s, v.DenotesText s

def IsBool (v : Doc) : Prop := ∃ b, v.DenotesBool b

def OptionalOf (A : Doc → Prop) (v : Doc) : Prop := v = .null ∨ A v

/-- A list, if there is room for one, of items that have the property. -/
inductive ListOf (A : Option (Doc → Prop)) : Doc → Prop where
  | mk {B : Doc → Prop} {vs : List Doc} : A = some B → (∀ v ∈ vs, B v) → ListOf A (.list vs)

/-- An object, if there is room for one, of values that have the property. -/
inductive MapOf (A : Option (Doc → Prop)) : Doc → Prop where
  | mk {B : Doc → Prop} {ms : List (List Nat × Doc)} : A = some B →
      (∀ m ∈ ms, IsKey m.1 ∧ B m.2) → MapOf A (.object ms)

end Doc

open Doc (IsString IsBool OptionalOf ListOf MapOf)

/-- The decoder takes the texts of the documents with the property. -/
structure Decoder.Takes (d : Decoder α) (A : Doc → Prop) : Prop where
  sound : d.Sound fun v _ => A v
  complete : ∀ {s t : List Char} {v : Doc}, A v → Front s v t → Delimited t →
    ∃ a, d.run s = .ok (a, t)

variable {d : Decoder α} {A : Doc → Prop} {s t : List Char} {v : Doc}

/-- A decoder that takes no text takes just the documents of an empty kind. -/
theorem Decoder.takes_nothing (hd : ∀ s p, d.run s ≠ .ok p) (hA : ∀ v, ¬ A v) : d.Takes A where
  sound s t a h := absurd h (hd s (a, t))
  complete {_ _ v} hv := absurd hv (hA v)

/-! ## Values without parts -/

theorem dropBlank_of_front (h : Front s v t) :
    ∃ c r, dropBlank s = c :: r ∧ c ∉ blanks ∧ Spells (c :: r) v t := by
  obtain ⟨hs, hv⟩ := h
  obtain ⟨c, r, rfl, hc, -⟩ := hv.start
  exact ⟨c, r, dropBlank_of_gap hs hc, hc, hv⟩

namespace Decoder

theorem run_string {text : String} (h : Front s v t) (hv : v.DenotesText text) :
    string.run s = .ok (text, t) := by
  obtain ⟨hs, hspells⟩ := h
  rw [hv] at hspells
  cases hspells with
  | string hu =>
    simp only [string, dropBlank_of_gap hs (by decide), readString_of_spells hu, Except.map,
      String.ofList_toList]

theorem takes_string : string.Takes IsString where
  sound s t a h := by
    obtain ⟨v, hv, htext⟩ := Sound.string s t a h
    exact ⟨v, hv, a, htext⟩
  complete := by
    rintro s t v ⟨text, htext⟩ h -
    exact ⟨text, run_string h htext⟩

theorem takes_bool : bool.Takes IsBool where
  sound s t a h := by
    obtain ⟨v, hv, hbool⟩ := Sound.bool s t a h
    exact ⟨v, hv, a, hbool⟩
  complete := by
    rintro s t v ⟨b, rfl⟩ ⟨hs, h⟩ -
    refine ⟨b, ?_⟩
    cases h with
    | yes =>
      have hd := dropBlank_of_gap (t := "rue".toList ++ t) hs (by decide)
      simp only [bool, hd]
      rfl
    | no =>
      have hd := dropBlank_of_gap (t := "alse".toList ++ t) hs (by decide)
      simp only [bool, hd]
      rfl

theorem run_optional_null (h : Front s .null t) : d.optional.run s = .ok (none, t) := by
  obtain ⟨hs, h⟩ := h
  cases h
  have hd := dropBlank_of_gap (t := "ull".toList ++ t) hs (by decide)
  simp only [optional, hd]
  rfl

theorem run_optional {a : α} (h : Front s v t) (hv : v ≠ .null) (hd : d.run s = .ok (a, t)) :
    d.optional.run s = .ok (some a, t) := by
  obtain ⟨c, r, hs, -, hspells⟩ := dropBlank_of_front h
  have hn : c ≠ 'n' := by
    rintro rfl
    exact hv hspells.of_cons.1
  simp only [optional, hs]
  split
  · next heq => exact absurd (List.cons.inj heq).1 hn
  · rw [hd]
    rfl

theorem Takes.optional (h : d.Takes A) : d.optional.Takes (OptionalOf A) where
  sound s t a ha := by
    obtain ⟨v, hv, hopt⟩ := h.sound.optional s t a ha
    refine ⟨v, hv, ?_⟩
    cases hopt with
    | null => exact .inl rfl
    | some hp => exact .inr hp
  complete {s t v} hv hs ht := by
    by_cases hn : v = .null
    · subst hn
      exact ⟨none, run_optional_null hs⟩
    · obtain ⟨a, ha⟩ := h.complete (hv.resolve_left hn) hs ht
      exact ⟨some a, run_optional hs hn ha⟩

/-! ## Texts and numbers of any kind -/

theorem run_any {c : Char} {r : List Char} (room : Nat) (h : dropBlank s = c :: r) (hl : c ≠ '[')
    (ho : c ≠ '{') : (any room).run s = readScalar (c :: r) := by
  cases room <;> simp [any, anyOf, h, hl, ho]

theorem run_any_string {text : String} (room : Nat) (h : Front s v t) (hv : v.DenotesText text) :
    (any room).run s = .ok (.string text, t) := by
  obtain ⟨hs, hspells⟩ := h
  rw [hv] at hspells
  cases hspells with
  | string hu =>
    rw [run_any room (dropBlank_of_gap hs (by decide)) (by decide) (by decide), readScalar,
      readString_of_spells hu]
    simp only [Except.map, String.ofList_toList]
    rfl

theorem run_any_number {n : Numeral} {x : Number} (room : Nat) (h : Front s (.number n) t)
    (hx : n.value = .ok x) (ht : Delimited t) : (any room).run s = .ok (.number x, t) := by
  obtain ⟨hs, hspells⟩ := h
  cases hspells with
  | number hn =>
    have hread := readNumber_of_spells hn hx ht
    obtain ⟨c, r, rfl, hc⟩ := hn.head
    rw [run_any room (dropBlank_of_gap hs (not_blank_of_number hc)) (ne_of_number hc (by decide))
      (ne_of_number hc (by decide)), readScalar, if_neg (ne_of_number hc (by decide)),
      if_neg (ne_of_number hc (by decide)), if_neg (ne_of_number hc (by decide)),
      if_neg (ne_of_number hc (by decide)), if_pos hc, hread]
    rfl

theorem takes_inside {d : Nat → Decoder α} {B : Nat → Doc → Prop} {room : Nat}
    (h : ∀ r < room, (d r).Takes (B r)) : Option.Rel Takes (inside d room) (inside B room) := by
  cases room with
  | zero => exact .none
  | succ room => exact .some (h room (Nat.lt_succ_self room))

end Decoder

/-! ## Lists -/

theorem exists_mem_of_forall₂ {P : Doc → α → Prop} {vs : List Doc} {as : List α} {a : α}
    (h : List.Forall₂ P vs as) (ha : a ∈ as) : ∃ v ∈ vs, P v a := by
  induction h with
  | nil => cases ha
  | cons hp _ ih =>
    rcases List.mem_cons.mp ha with rfl | ha
    · exact ⟨_, List.mem_cons_self, hp⟩
    · obtain ⟨v, hv, hp⟩ := ih ha
      exact ⟨v, List.mem_cons_of_mem _ hv, hp⟩

theorem forall_of_forall₂ {vs : List Doc} {as : List α}
    (h : List.Forall₂ (fun v (_ : α) => A v) vs as) : ∀ v ∈ vs, A v := by
  induction h with
  | nil => exact List.forall_mem_nil _
  | cons hv _ ih => exact List.forall_mem_cons.mpr ⟨hv, ih⟩

theorem nextItem_of_spells {first : Bool} {u w : List Char} (hl : Lead first s u)
    (hv : Spells u v w) : nextItem first s = .ok (.item u) := by
  obtain ⟨c, r, rfl, hc, hne⟩ := hv.start
  exact nextItem_of_lead hl hc hne

theorem items_of_spells (hd : d.Takes A) {vs : List Doc} {first : Bool} {s t : List Char}
    (h : SpellsItems first s vs t) (hvs : ∀ v ∈ vs, A v) : ∃ as, items d first s = .ok (as, t) := by
  induction vs generalizing first s with
  | nil =>
    cases h with
    | close hs => exact ⟨[], items_close (nextItem_close first hs)⟩
  | cons v vs ih =>
    cases h with
    | item hl hv hi =>
      obtain ⟨hA, hvs⟩ := List.forall_mem_cons.mp hvs
      obtain ⟨a, ha⟩ := hd.complete hA (.mk (.refl _) hv) hi.delimited
      obtain ⟨as, has⟩ := ih hi hvs
      refine ⟨a :: as, ?_⟩
      simp only [items_item (nextItem_of_spells hl hv), ha, has]
      rfl

theorem Decoder.takes_list {item : Option (Decoder α)} {A : Option (Doc → Prop)}
    (h : Option.Rel Takes item A) : (list item).Takes (ListOf A) := by
  cases h with
  | none =>
    refine takes_nothing (fun s p hp => ?_) ?_
    · simp only [list] at hp
      split at hp <;> cases hp
    · rintro _ ⟨hA, -⟩
      cases hA
  | @some d B h =>
    refine ⟨?_, ?_⟩
    · intro s t as ha
      have hsound : ∀ e ∈ some d, e.Sound fun v _ => B v := fun e he => Option.mem_some.mp he ▸ h.sound
      obtain ⟨v, hv, ⟨hvs⟩⟩ := Sound.list hsound s t as ha
      exact ⟨_, hv, .mk rfl (forall_of_forall₂ hvs)⟩
    · rintro s t _ ⟨hB, hvs⟩ ⟨hs, hv⟩ -
      cases hB
      cases hv with
      | list hi =>
        simp only [list, dropBlank_of_gap hs (by decide)]
        exact items_of_spells h hi hvs

/-! ## Maps -/

theorem memberValue_of_spells {u w : List Char} {a : α} (hu : Gap u (':' :: w))
    (h : d.run w = .ok (a, t)) : memberValue d u = .ok (a, t) := by
  simp only [memberValue, readColon_of_gap hu, h]

theorem members_of_spells (hd : d.Takes A) {ms : List (List Nat × Doc)} {first : Bool}
    {s t : List Char} (h : SpellsMembers first s ms t) (hms : ∀ m ∈ ms, IsKey m.1 ∧ A m.2) :
    ∃ es, members d first s = .ok (es, t) := by
  induction ms generalizing first s with
  | nil =>
    cases h with
    | close hs => exact ⟨[], members_close (nextKey_close first hs)⟩
  | cons m ms ih =>
    cases h with
    | member hl hm hi =>
      obtain ⟨⟨⟨key, hkey⟩, hA⟩, hrest⟩ := List.forall_mem_cons.mp hms
      cases hm with
      | mk hk hu hv =>
        obtain rfl := hkey
        obtain ⟨a, ha⟩ := hd.complete hA hv hi.delimited
        obtain ⟨es, hes⟩ := ih hi hrest
        refine ⟨(key, a) :: es, ?_⟩
        simp only [members_key (nextKey_of_lead hl hk), memberValue_of_spells hu ha, hes]
        rfl

theorem keys_of_forall₂ {ms : List (List Nat × Doc)} {es : List (String × α)}
    (h : List.Forall₂ (Doc.DenotesMember fun v _ => A v) ms es) : ∀ m ∈ ms, IsKey m.1 ∧ A m.2 := by
  induction h with
  | nil => exact List.forall_mem_nil _
  | cons hm _ ih =>
    obtain ⟨hA⟩ := hm
    exact List.forall_mem_cons.mpr ⟨⟨⟨_, rfl⟩, hA⟩, ih⟩

theorem Decoder.takes_nameMap {value : Option (Decoder α)} {A : Option (Doc → Prop)}
    (h : Option.Rel Takes value A) : (nameMap value).Takes (MapOf A) := by
  cases h with
  | none =>
    refine takes_nothing (fun s p hp => ?_) ?_
    · simp only [nameMap] at hp
      split at hp <;> cases hp
    · rintro _ ⟨hA, -⟩
      cases hA
  | @some d B h =>
    refine ⟨?_, ?_⟩
    · intro s t m hm
      simp only [nameMap] at hm
      split at hm
      · next r hs =>
        obtain ⟨⟨es, u⟩, hr, heq⟩ := map_eq_ok.mp hm
        cases heq
        obtain ⟨ms, hms, hes⟩ := spells_of_members h.sound hr
        exact ⟨.object ms, .mk (gap_of_dropBlank hs) (.object hms), .mk rfl (keys_of_forall₂ hes)⟩
      · cases hm
    · rintro s t _ ⟨hB, hms⟩ ⟨hs, hv⟩ -
      cases hB
      cases hv with
      | object hm =>
        obtain ⟨es, hes⟩ := members_of_spells h hm hms
        simp only [nameMap, dropBlank_of_gap hs (by decide), hes]
        exact ⟨_, rfl⟩

/-! ## Whole texts -/

theorem Decoder.Sound.decode {P : Doc → α → Prop} {text : String} {a : α} (h : d.Sound P)
    (hd : d.decode text = .ok a) : ∃ v : Doc, v.IsText text ∧ P v a := by
  obtain ⟨r, hr, hblank⟩ := Decoder.decode_eq_ok.mp hd
  obtain ⟨v, hv, hp⟩ := h _ _ _ hr
  exact ⟨v, ⟨r, hv, hblank⟩, hp⟩

/-- A text is taken or not by the document that it spells. -/
theorem Decoder.Takes.decode_iff {text : String} (h : d.Takes A) (hv : v.IsText text) :
    (∃ a, d.decode text = .ok a) ↔ A v := by
  constructor
  · rintro ⟨a, ha⟩
    obtain ⟨w, hw, hA⟩ := h.sound.decode ha
    exact hv.unique hw ▸ hA
  · intro hA
    obtain ⟨t, hfront, hblank⟩ := hv
    obtain ⟨a, ha⟩ := h.complete hA hfront (delimited_of_blanks hblank)
    exact ⟨a, Decoder.decode_eq_ok.mpr ⟨t, ha, hblank⟩⟩

/-- What is read from a text is what its document denotes, if the document is taken. -/
theorem Decoder.Takes.decode_eq_ok_iff {P : Doc → α → Prop} {text : String} {a : α}
    (h : d.Takes A) (sound : d.Sound P) (determines : Doc.Determines P a) (hv : v.IsText text) :
    d.decode text = .ok a ↔ A v ∧ P v a := by
  have denotes {b : α} (hb : d.decode text = .ok b) : P v b := by
    obtain ⟨w, hw, hp⟩ := sound.decode hb
    exact hv.unique hw ▸ hp
  constructor
  · intro ha
    exact ⟨(h.decode_iff hv).mp ⟨a, ha⟩, denotes ha⟩
  · rintro ⟨hA, hp⟩
    obtain ⟨b, hb⟩ := (h.decode_iff hv).mpr hA
    rw [determines v b hp (denotes hb)]
    exact hb

theorem Decoder.Takes.decode_error {text : String} (h : d.Takes A) (hv : v.IsText text)
    (hA : ¬ A v) : ∃ f, d.decode text = .error f := by
  cases hd : d.decode text with
  | error f => exact ⟨f, rfl⟩
  | ok a => exact absurd ((h.decode_iff hv).mp ⟨a, hd⟩) hA

end GrammarTables.Json
