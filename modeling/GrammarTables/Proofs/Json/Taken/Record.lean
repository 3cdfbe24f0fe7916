import GrammarTables.Proofs.Json.Determined
import GrammarTables.Proofs.Json.Spelled.Record
import GrammarTables.Proofs.Json.Taken.Decode

/-!
# What record decoders take

A record is taken if each of its fields is, by a clause of its own. In an object a field is met once,
or not at all if it may be left out; in what order, and what else stands there, does not matter.
-/

namespace GrammarTables.Json

variable {R α : Type} {A : Doc → Prop} {s t : List Char}

/-! ## Fields -/

/-- The values that the field takes, whatever the record is that they are put into, and whether the
field may be left out, are told by the clause. -/
structure Field.Takes (f : Field R) (c : Clause) : Prop where
  key : c.key = f.key
  absent : c.Absent ↔ f.required = false
  sound : f.read.Sound fun v set => ∀ r r', set r = .ok r' → c.Present v
  complete : ∀ {s t : List Char} {v : Doc}, c.Present v → Front s v t → Delimited t →
    ∃ set, f.read.run s = .ok (set, t) ∧ ∀ r, ∃ r', set r = .ok r'

namespace Field

variable {d : Decoder α} {key : String}

theorem takes_map (hd : d.Takes A) {required : Bool} {absent : Prop}
    (ha : absent ↔ required = false) {set : α → R → R} :
    Takes ⟨key, required, d.map fun a r => .ok (set a r)⟩ ⟨key, A, absent⟩ where
  key := rfl
  absent := ha
  sound := by
    show (d.map fun a r => (.ok (set a r) : Except Problem R)).Sound _
    exact hd.sound.map fun _ _ hA _ _ _ => hA
  complete hA hs ht := by
    obtain ⟨a, ha⟩ := hd.complete hA hs ht
    exact ⟨_, map_eq_ok.mpr ⟨(a, _), ha, rfl⟩, fun r => ⟨set a r, rfl⟩⟩

theorem takes_ofRequired (hd : d.Takes A) {set : α → R → R} :
    (ofRequired key d set).Takes ⟨key, A, False⟩ :=
  takes_map hd ⟨nofun, nofun⟩

theorem takes_ofDefault (hd : d.Takes A) {set : α → R → R} :
    (ofDefault key d set).Takes ⟨key, A, True⟩ :=
  takes_map hd ⟨fun _ => rfl, fun _ => trivial⟩

theorem takes_ofOptional (hd : d.Takes A) {set : Option α → R → R} :
    (ofOptional key d set).Takes ⟨key, Doc.OptionalOf A, True⟩ :=
  takes_ofDefault hd.optional

end Field

/-- The layout goes by the clauses, one for each field. -/
structure Layout.Takes (l : Layout R) (cs : List Clause) : Prop where
  nodup : (l.fields.map Field.key).Nodup
  fields : List.Forall₂ Field.Takes l.fields cs

/-- A record by the clauses, if there is room for one. -/
inductive Doc.RecordOf (cs : Option (List Clause)) (v : Doc) : Prop where
  | mk {ds : List Clause} : cs = some ds → v.DenotesRecord ds → v.HasKeys → RecordOf cs v

namespace Layout

variable {l : Layout R} {cs : List Clause}

theorem Takes.getElem? (hl : l.Takes cs) {f : Field R} {i : Nat} (hf : l.fields[i]? = some f) :
    ∃ c, cs[i]? = some c ∧ f.Takes c := by
  obtain ⟨hlen, hzip⟩ := List.forall₂_iff_zip.mp hl.fields
  obtain ⟨hlt, -⟩ := List.getElem?_eq_some_iff.mp hf
  have hc : cs[i]? = some cs[i] := List.getElem?_eq_getElem (hlen ▸ hlt)
  exact ⟨_, hc, hzip (List.mem_of_getElem? (List.getElem?_zip_eq_some.mpr ⟨hf, hc⟩))⟩

theorem Takes.keys (hl : l.Takes cs) : cs.map Clause.key = l.fields.map Field.key := by
  have h : List.Forall₂ (fun f c => f.key = c.key) l.fields cs :=
    hl.fields.imp fun _ _ h => h.key.symm
  rw [← List.forall₂_eq_eq_eq, List.forall₂_map_left_iff, List.forall₂_map_right_iff]
  exact h.flip.imp fun _ _ h => h.symm

/-- The clauses say the same of all records. -/
theorem Takes.describes (hl : l.Takes cs) : l.Describes fun _ => cs where
  keys _ := hl.keys
  nodup := hl.nodup
  blank p hp := (((List.forall₂_iff_zip.mp hl.fields).2 hp).absent.mpr ·)
  sets := by
    rintro ⟨f, i⟩ hf
    obtain ⟨c, hc, hfc⟩ := hl.getElem? (List.mem_zipIdx_iff_getElem?.mp hf)
    obtain ⟨hlt, rfl⟩ := List.getElem?_eq_some_iff.mp hc
    intro s t set hset
    obtain ⟨v, hv, hpresent⟩ := hfc.sound s t set hset
    exact ⟨v, hv, fun r r' hr => ⟨_, hpresent r r' hr, (List.set_getElem_self hlt).symm⟩⟩

end Layout

/-! ## Members -/

section Members

variable {ms : List (List Nat × Doc)} {m : List Nat × Doc} {key : List Nat} {v : Doc} {c : Clause}

theorem OnlyMember.of_cons_ne (h : OnlyMember (m :: ms) key v) (hne : key ≠ m.1) :
    OnlyMember ms key v := by
  obtain ⟨_ | ⟨n, front⟩, back, heq, hfront, hback⟩ := h
  · exact absurd (congrArg Prod.fst (List.cons.inj heq).1).symm hne
  · obtain ⟨-, rfl⟩ := List.cons.inj heq
    exact ⟨front, back, rfl, fun h => hfront (List.mem_cons_of_mem _ h), hback⟩

theorem OnlyMember.of_cons_eq {w : Doc} (h : OnlyMember ((key, w) :: ms) key v) :
    w = v ∧ key ∉ ms.map Prod.fst := by
  obtain ⟨_ | ⟨n, front⟩, back, heq, hfront, hback⟩ := h
  · obtain ⟨hm, rfl⟩ := List.cons.inj heq
    exact ⟨(Prod.mk.inj hm).2, hback⟩
  · obtain ⟨rfl, -⟩ := List.cons.inj heq
    exact absurd List.mem_cons_self hfront

theorem Clause.MetBy.of_cons_ne (h : c.MetBy (m :: ms)) (hne : codeUnits c.key ≠ m.1) :
    c.MetBy ms := by
  cases h with
  | once hm hp => exact .once (hm.of_cons_ne hne) hp
  | absent hm ha => exact .absent (fun h => hm (List.mem_cons_of_mem _ h)) ha

theorem Clause.MetBy.of_cons_eq (h : c.MetBy ((codeUnits c.key, v) :: ms)) :
    c.Present v ∧ codeUnits c.key ∉ ms.map Prod.fst := by
  cases h with
  | once hm hp =>
    obtain ⟨rfl, hrest⟩ := hm.of_cons_eq
    exact ⟨hp, hrest⟩
  | absent hm => exact absurd List.mem_cons_self hm

end Members

namespace Layout

/-- Where a field stands when `ms` are still to be read: it is among the fields `seen` and does not
come again, or it is not and the clause is met by what comes. -/
inductive Awaits (f : Field R) (c : Clause) (seen : List String) (ms : List (List Nat × Doc)) :
    Prop where
  | done : f.key ∈ seen → codeUnits f.key ∉ ms.map Prod.fst → Awaits f c seen ms
  | due : f.key ∉ seen → c.MetBy ms → Awaits f c seen ms

variable {l : Layout R} {cs : List Clause} {f : Field R} {c : Clause} {seen seen' : List String}
  {ms : List (List Nat × Doc)} {k : String} {v : Doc}

theorem Awaits.other (h : Awaits f c seen ((codeUnits k, v) :: ms)) (hc : c.key = f.key)
    (hk : f.key ≠ k) (hs : f.key ∈ seen' ↔ f.key ∈ seen) : Awaits f c seen' ms := by
  cases h with
  | done hseen hm => exact .done (hs.mpr hseen) fun h => hm (List.mem_cons_of_mem _ h)
  | due hseen hm =>
    refine .due (fun h => hseen (hs.mp h)) (hm.of_cons_ne fun h => hk ?_)
    exact codeUnits_inj (hc ▸ h)

theorem Awaits.field (h : Awaits f c seen ((codeUnits f.key, v) :: ms)) (hc : c.key = f.key) :
    f.key ∉ seen ∧ c.Present v ∧ codeUnits f.key ∉ ms.map Prod.fst := by
  cases h with
  | done _ hm => exact absurd List.mem_cons_self hm
  | due hseen hm =>
    rw [← hc] at hm
    obtain ⟨hp, hrest⟩ := hm.of_cons_eq
    exact ⟨hseen, hp, hc ▸ hrest⟩

def AwaitsAll (l : Layout R) (cs : List Clause) (seen : List String)
    (ms : List (List Nat × Doc)) : Prop :=
  ∀ (i : Nat) (f : Field R) (c : Clause), l.fields[i]? = some f → cs[i]? = some c → f.Takes c →
    Awaits f c seen ms

theorem awaitsAll_of_met (h : ∀ c ∈ cs, c.MetBy ms) : l.AwaitsAll cs [] ms :=
  fun _ _ _ _ hc _ => .due List.not_mem_nil (h _ (List.mem_of_getElem? hc))

theorem AwaitsAll.other (h : l.AwaitsAll cs seen ((codeUnits k, v) :: ms))
    (hk : l.field? k = none) : l.AwaitsAll cs seen ms := by
  intro i f c hf hc hfc
  have hne : f.key ≠ k := by
    simpa using List.find?_eq_none.mp hk f (List.mem_of_getElem? hf)
  exact (h i f c hf hc hfc).other hfc.key hne .rfl

theorem AwaitsAll.field (hl : l.Takes cs) (h : l.AwaitsAll cs seen ((codeUnits k, v) :: ms))
    (hk : l.field? k = some f) :
    k ∉ seen ∧ (∃ c, f.Takes c ∧ c.Present v) ∧ l.AwaitsAll cs (k :: seen) ms := by
  obtain ⟨i, hf⟩ := List.mem_iff_getElem?.mp (List.mem_of_find?_eq_some hk)
  obtain rfl : f.key = k := by simpa using List.find?_some hk
  obtain ⟨c, hc, hfc⟩ := hl.getElem? hf
  obtain ⟨hseen, hp, hrest⟩ := (h i f c hf hc hfc).field hfc.key
  refine ⟨hseen, ⟨c, hfc, hp⟩, fun j g b hg hb hgb => ?_⟩
  by_cases hj : j = i
  · subst hj
    obtain rfl : f = g := Option.some.inj (hf.symm.trans hg)
    exact .done List.mem_cons_self hrest
  · have hne := hl.describes.key_ne hg hf hj
    exact (h j g b hg hb hgb).other hgb.key hne (by simp [hne])

theorem AwaitsAll.missing? (hl : l.Takes cs) (h : l.AwaitsAll cs seen []) :
    l.missing? seen = none := by
  refine List.find?_eq_none.mpr fun f hf hm => ?_
  obtain ⟨i, hf⟩ := List.mem_iff_getElem?.mp hf
  obtain ⟨c, hc, hfc⟩ := hl.getElem? hf
  simp only [Bool.and_eq_true, Bool.not_eq_true', ← Bool.not_eq_true, List.contains_iff_mem] at hm
  cases h i f c hf hc hfc with
  | done hseen => exact hm.2 hseen
  | due _ hmet =>
    cases hmet with
    | once honly => exact absurd honly.mem_keys List.not_mem_nil
    | absent _ ha => exact absurd (hfc.absent.mp ha) (by simp [hm.1])

/-! ## Reading -/

theorem readField_of_spells {u w : List Char} {r : R} (hf : f.Takes c) (hp : c.Present v)
    (hu : Gap u (':' :: w)) (hv : Front w v t) (ht : Delimited t) :
    ∃ r', readField f r u = .ok (r', t) := by
  obtain ⟨set, hset, hok⟩ := hf.complete hp hv ht
  obtain ⟨r', hr⟩ := hok r
  refine ⟨r', ?_⟩
  simp only [readField, memberValue_of_spells hu hset, hr]

theorem readMembers_of_spells (hl : l.Takes cs) {first : Bool} {r : R} {s t : List Char}
    (h : SpellsMembers first s ms t) (hkeys : ∀ m ∈ ms, IsKey m.1) (hms : l.AwaitsAll cs seen ms) :
    ∃ r', l.readMembers seen r first s = .ok (r', t) := by
  induction ms generalizing first s seen r with
  | nil =>
    cases h with
    | close hs =>
      rw [readMembers_close (nextKey_close first hs), hms.missing? hl]
      exact ⟨r, rfl⟩
  | cons m ms ih =>
    cases h with
    | member hl' hm hi =>
      obtain ⟨⟨k, hkey⟩, hrest⟩ := List.forall_mem_cons.mp hkeys
      cases hm with
      | mk hk hu hv =>
        obtain rfl := hkey
        have hnext := nextKey_of_lead hl' hk
        cases hf : l.field? k with
        | none =>
          have hskip : Decoder.ignored.run _ = .ok ((), _) :=
            map_eq_ok.mpr ⟨_, skipValue_of_front hv hi.delimited, rfl⟩
          rw [readMembers_unknown hnext hf, memberValue_of_spells hu hskip]
          exact ih hi hrest (hms.other hf)
        | some f =>
          obtain ⟨hseen, ⟨c, hfc, hp⟩, hms⟩ := hms.field hl hf
          obtain ⟨r₁, hr⟩ := readField_of_spells (r := r) hfc hp hu hv hi.delimited
          rw [readMembers_field hnext hf hseen, hr]
          exact ih hi hrest hms

theorem not_required_of_absent {fs : List (Field R)} (h : List.Forall₂ Field.Takes fs cs)
    (ha : ∀ c ∈ cs, c.Absent) : ∀ f ∈ fs, f.required = false := by
  induction h with
  | nil => exact List.forall_mem_nil _
  | cons hf _ ih =>
    obtain ⟨hc, hcs⟩ := List.forall_mem_cons.mp ha
    exact List.forall_mem_cons.mpr ⟨hf.absent.mp hc, ih hcs⟩

theorem readItems_of_spells {fs : List (Field R)} (hfs : List.Forall₂ Field.Takes fs cs)
    {index : Nat} {r : R} {s t : List Char} {vs : List Doc}
    (h : SpellsItems (index == 0) s vs t) (hvs : Clause.MetInOrder cs vs) :
    ∃ r', l.readItems fs index r s = .ok (r', t) := by
  induction hfs generalizing index r s vs with
  | nil =>
    cases hvs
    cases h with
    | close hs => exact ⟨r, map_eq_ok.mpr ⟨t, closeList_of_gap hs, rfl⟩⟩
  | @cons f c fs cs hf hfs ih =>
    cases hvs with
    | rest ha =>
      cases h with
      | close hs =>
        have hreq : (f :: fs).findIdx? (·.required) = none :=
          List.findIdx?_eq_none_iff.mpr (not_required_of_absent (.cons hf hfs) ha)
        simp only [readItems, nextItem_close _ hs, hreq]
        exact ⟨r, rfl⟩
    | item hp hvs =>
      cases h with
      | item hl' hv hi =>
        obtain ⟨set, hset, hok⟩ := hf.complete hp (.mk (.refl _) hv) hi.delimited
        obtain ⟨r₁, hr⟩ := hok r
        simp only [readItems, nextItem_of_spells hl' hv, hset, hr]
        exact ih hi hvs

end Layout

theorem Decoder.takes_record {name : String} {layout : Option (Layout R)}
    {cs : Option (List Clause)} (h : Option.Rel Layout.Takes layout cs) :
    (record name layout).Takes (Doc.RecordOf cs) := by
  cases h with
  | none =>
    refine takes_nothing (fun s p hp => ?_) ?_
    · simp only [record] at hp
      split at hp <;> cases hp
    · rintro _ ⟨hcs, -, -⟩
      cases hcs
  | @some l cs hl =>
    refine ⟨?_, ?_⟩
    · intro s t r hr
      have hdescribes : ∀ m ∈ some l, m.Describes fun _ => cs := fun m hm =>
        Option.mem_some.mp hm ▸ hl.describes
      obtain ⟨v, hv, hkeys, hrecord⟩ := spells_of_record hdescribes hr
      exact ⟨v, hv, .mk rfl hrecord hkeys⟩
    · rintro s t v ⟨hcs, hrecord, hkeys⟩ ⟨hs, hv⟩ -
      cases hcs
      cases hrecord with
      | object hmet =>
        cases hv with
        | object hm =>
          simp only [record, dropBlank_of_gap hs (by decide)]
          exact Layout.readMembers_of_spells hl hm (hkeys _ rfl) (Layout.awaitsAll_of_met hmet)
      | list hmet =>
        cases hv with
        | list hi =>
          simp only [record, dropBlank_of_gap hs (by decide)]
          exact Layout.readItems_of_spells hl.fields hi hmet

/-! ## Variants -/

/-- A name of a variant, or, if there is room for a bracket, an object that has null under it. -/
def Doc.VariantOf (variants : List (String × α)) (room : Nat) (v : Doc) : Prop :=
  ∃ name a, variants.lookup name = some a ∧
    (v = .string (codeUnits name) ∨ room ≠ 0 ∧ v = .object [(codeUnits name, .null)])

section Variants

variable {variants : List (String × α)} {name : String} {a : α}

theorem readVariant_of_spells (h : SpellsUnits s (codeUnits name) t)
    (ha : variants.lookup name = some a) : readVariant variants s = .ok (a, t) := by
  simp only [readVariant, readString_of_spells h, known, String.ofList_toList, ha]

theorem run_unit (h : Front s .null t) : Decoder.unit.run s = .ok ((), t) := by
  obtain ⟨hs, h⟩ := h
  cases h
  have hd := dropBlank_of_gap (t := "ull".toList ++ t) hs (by decide)
  simp only [Decoder.unit, hd]
  rfl

theorem readVariantObject_of_spells (h : SpellsMembers true s [(codeUnits name, .null)] t)
    (ha : variants.lookup name = some a) : readVariantObject variants s = .ok (a, t) := by
  cases h with
  | member hl hm hi =>
    cases hl with
    | first hs =>
      cases hm with
      | mk hk hu hv =>
        cases hi with
        | close hclose =>
          simp only [readVariantObject, dropBlank_of_gap hs (by decide), readVariant_of_spells hk ha,
            memberValue_of_spells hu (run_unit hv), closeVariant,
            dropBlank_of_gap hclose (by decide)]
          rfl

theorem Decoder.takes_variant (room : Nat) :
    (variant variants room).Takes (Doc.VariantOf variants room) where
  sound s t a h := by
    obtain ⟨v, hv, name, hname, ha⟩ := Sound.variant room s t a h
    refine ⟨v, hv, name, a, ha, hname.imp_right fun hobject => ⟨?_, hobject⟩⟩
    subst hobject
    rintro rfl
    obtain ⟨hs, hv⟩ := hv
    cases hv
    simp only [variant, dropBlank_of_gap hs (by decide), if_true] at h
    cases h
  complete := by
    rintro s t v ⟨name, a, ha, rfl | ⟨hroom, rfl⟩⟩ ⟨hs, hv⟩ -
    · cases hv with
      | string hu =>
        simp only [variant, dropBlank_of_gap hs (by decide), readVariant_of_spells hu ha]
        exact ⟨a, rfl⟩
    · cases hv with
      | object hm =>
        simp only [variant, dropBlank_of_gap hs (by decide), if_neg hroom,
          readVariantObject_of_spells hm ha]
        exact ⟨a, rfl⟩

end Variants

end GrammarTables.Json
