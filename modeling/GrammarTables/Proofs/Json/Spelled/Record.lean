import GrammarTables.Proofs.Json.Spelled.Decode
import Mathlib.Data.List.Nodup

/-!
# What records denote

The clauses `cs r` say what the fields of a record `r` are read from. Setting a field changes the
clause of that field only. So while a record is read, the clauses of the fields that were read are
met, and the others hold of fields that are left out, unless those have to be there.
-/

namespace GrammarTables.Json

variable {R α : Type} {P : Doc → α → Prop} {cs : R → List Clause}

/-! ## Fields -/

namespace Field

variable {d : Decoder α} {key : String} {i : Nat}

/-- The value of the field meets the `i`-th clause of the record that it is put into, and the other
clauses stay. -/
def Sets (f : Field R) (cs : R → List Clause) (i : Nat) : Prop :=
  f.read.Sound fun v set => ∀ r r', set r = .ok r' →
    ∃ c : Clause, c.Present v ∧ cs r' = (cs r).set i c

theorem sets_map (hd : d.Sound P) {set : α → R → R} {clause : α → Clause}
    (hc : ∀ v a, P v a → (clause a).Present v)
    (hset : ∀ a r, cs (set a r) = (cs r).set i (clause a)) {required : Bool} :
    Sets ⟨key, required, d.map fun a r => .ok (set a r)⟩ cs i := by
  show (d.map fun a r => (.ok (set a r) : Except Problem R)).Sound _
  refine hd.map fun v a hp r r' hr => ?_
  cases hr
  exact ⟨clause a, hc v a hp, hset a r⟩

theorem sets_ofRequired {set : α → R → R} (hd : d.Sound P)
    (hset : ∀ a r, cs (set a r) = (cs r).set i (.required key P a)) :
    (ofRequired key d set).Sets cs i :=
  sets_map hd (fun _ _ hp => hp) hset

theorem sets_ofDefault {set : α → R → R} {a₀ : α} (hd : d.Sound P)
    (hset : ∀ a r, cs (set a r) = (cs r).set i (.default key P a₀ a)) :
    (ofDefault key d set).Sets cs i :=
  sets_map hd (fun _ _ hp => hp) hset

theorem sets_ofOptional {set : Option α → R → R} (hd : d.Sound P)
    (hset : ∀ a r, cs (set a r) = (cs r).set i (.optional key P a)) :
    (ofOptional key d set).Sets cs i :=
  sets_ofDefault hd.optional hset

end Field

namespace Layout

/-- The clauses go with the fields of the layout. -/
structure Describes (l : Layout R) (cs : R → List Clause) : Prop where
  keys : ∀ r, (cs r).map Clause.key = l.fields.map Field.key
  nodup : (l.fields.map Field.key).Nodup
  blank : ∀ p ∈ l.fields.zip (cs l.blank), p.1.required = false → p.2.Absent
  sets : ∀ p ∈ l.fields.zipIdx, p.1.Sets cs p.2

variable {l : Layout R} {r r' : R} {f : Field R} {c : Clause} {i : Nat}

theorem Describes.blank_absent (hl : l.Describes cs) (hf : l.fields[i]? = some f)
    (hc : (cs l.blank)[i]? = some c) : f.required = false → c.Absent :=
  hl.blank (f, c) (List.mem_of_getElem? (List.getElem?_zip_eq_some.mpr ⟨hf, hc⟩))

theorem Describes.sets_of_getElem? (hl : l.Describes cs) (hf : l.fields[i]? = some f) :
    f.Sets cs i :=
  hl.sets (f, i) (List.mem_zipIdx_iff_getElem?.mpr hf)

theorem Describes.exists_clause (hl : l.Describes cs) (hf : l.fields[i]? = some f) (r : R) :
    ∃ c, (cs r)[i]? = some c ∧ c.key = f.key := by
  have h : ((cs r).map Clause.key)[i]? = some f.key := by
    rw [hl.keys, List.getElem?_map, hf]
    rfl
  rw [List.getElem?_map] at h
  exact Option.map_eq_some_iff.mp h

theorem Describes.exists_field (hl : l.Describes cs) (hc : (cs r)[i]? = some c) :
    ∃ f, l.fields[i]? = some f ∧ f.key = c.key := by
  have h : (l.fields.map Field.key)[i]? = some c.key := by
    rw [← hl.keys r, List.getElem?_map, hc]
    rfl
  rw [List.getElem?_map] at h
  exact Option.map_eq_some_iff.mp h

theorem Describes.getElem?_set (hl : l.Describes cs) (hf : l.fields[i]? = some f)
    (hr : cs r' = (cs r).set i c) : (cs r')[i]? = some c := by
  obtain ⟨b, hb, -⟩ := hl.exists_clause hf r
  obtain ⟨hlt, -⟩ := List.getElem?_eq_some_iff.mp hb
  rw [hr, List.getElem?_set_self hlt]

theorem Describes.key_ne (hl : l.Describes cs) {j : Nat} {g : Field R}
    (hf : l.fields[i]? = some f) (hg : l.fields[j]? = some g) (hne : i ≠ j) : f.key ≠ g.key := by
  intro heq
  obtain ⟨hlt, -⟩ := List.getElem?_eq_some_iff.mp hf
  refine hne ((List.getElem?_inj (by simpa using hlt) hl.nodup).mp ?_)
  rw [List.getElem?_map, List.getElem?_map, hf, hg, Option.map_some, Option.map_some, heq]

/-! ## As an object -/

/-- How far a field has come when the members `ms` were read, and the fields `seen` with them. -/
inductive Stage (f : Field R) (c : Clause) (ms : List (List Nat × Doc)) (seen : List String) :
    Prop where
  | read {v : Doc} : f.key ∈ seen → OnlyMember ms (codeUnits f.key) v → c.Present v →
      Stage f c ms seen
  | unread : f.key ∉ seen → codeUnits f.key ∉ ms.map Prod.fst → (f.required = false → c.Absent) →
      Stage f c ms seen

theorem Stage.append {ms : List (List Nat × Doc)} {seen seen' : List String}
    (h : Stage f c ms seen) {k : String} (hk : f.key ≠ k) (hs : f.key ∈ seen' ↔ f.key ∈ seen)
    (v : Doc) : Stage f c (ms ++ [(codeUnits k, v)]) seen' := by
  have hk : codeUnits f.key ≠ codeUnits k := fun h => hk (codeUnits_inj h)
  cases h with
  | read hseen hm hp => exact .read (hs.mpr hseen) (hm.append hk) hp
  | unread hseen hm ha => exact .unread (fun h => hseen (hs.mp h)) (not_mem_keys_append hm hk) ha

def Progress (l : Layout R) (cs : R → List Clause) (ms : List (List Nat × Doc))
    (seen : List String) (r : R) : Prop :=
  ∀ (i : Nat) (f : Field R) (c : Clause), l.fields[i]? = some f → (cs r)[i]? = some c →
    Stage f c ms seen

section Progress

variable {ms : List (List Nat × Doc)} {seen : List String} {k : String} {v : Doc}

theorem progress_blank (hl : l.Describes cs) : l.Progress cs [] [] l.blank :=
  fun _ _ _ hf hc => .unread nofun nofun (hl.blank_absent hf hc)

/-- A member that is no field changes nothing. -/
theorem Progress.other (h : l.Progress cs ms seen r) (hk : l.field? k = none) (v : Doc) :
    l.Progress cs (ms ++ [(codeUnits k, v)]) seen r := by
  intro i f c hf hc
  have hne : f.key ≠ k := by
    simpa using List.find?_eq_none.mp hk f (List.mem_of_getElem? hf)
  exact (h i f c hf hc).append hne .rfl v

theorem Progress.field (hl : l.Describes cs) (h : l.Progress cs ms seen r)
    (hf : l.fields[i]? = some f) (hseen : f.key ∉ seen) (hp : c.Present v)
    (hr : cs r' = (cs r).set i c) :
    l.Progress cs (ms ++ [(codeUnits f.key, v)]) (f.key :: seen) r' := by
  intro j g b hg hb
  by_cases hj : i = j
  · subst hj
    obtain rfl : f = g := Option.some.inj (hf.symm.trans hg)
    obtain rfl : c = b := Option.some.inj ((hl.getElem?_set hf hr).symm.trans hb)
    obtain ⟨a, ha, -⟩ := hl.exists_clause hf r
    cases h i f a hf ha with
    | read hread => exact absurd hread hseen
    | unread _ hm => exact .read List.mem_cons_self (.concat hm v) hp
  · have hne := hl.key_ne hg hf (Ne.symm hj)
    rw [hr, List.getElem?_set_ne hj] at hb
    exact (h j g b hg hb).append hne (by simp [hne]) v

theorem Progress.met (hl : l.Describes cs) (h : l.Progress cs ms seen r)
    (hm : l.missing? seen = none) : ∀ c ∈ cs r, c.MetBy ms := by
  intro c hc
  obtain ⟨i, hc⟩ := List.mem_iff_getElem?.mp hc
  obtain ⟨f, hf, hkey⟩ := hl.exists_field hc
  cases h i f c hf hc with
  | read _ hmem hp => exact .once (hkey ▸ hmem) hp
  | unread hseen hmem ha =>
    have hreq := List.find?_eq_none.mp hm f (List.mem_of_getElem? hf)
    refine .absent (hkey ▸ hmem) (ha ?_)
    simpa [hseen] using hreq

end Progress

theorem spells_of_readField (hf : f.Sets cs i) {s t u : List Char} {k : String} {first : Bool}
    (hn : nextKey first s = .ok (.key k t)) (h : readField f r t = .ok (r', u)) :
    ∃ w v c, Lead first s w ∧ SpellsMember w (codeUnits k, v) u ∧ c.Present v ∧
      cs r' = (cs r).set i c := by
  unfold readField at h
  split at h
  · cases h
  · next hm =>
    split at h
    · cases h
    · next hset =>
      cases h
      obtain ⟨w, v, hw, hv, hc⟩ := spells_of_member hf hn hm
      obtain ⟨c, hp, hr⟩ := hc r _ hset
      exact ⟨w, v, c, hw, hv, hp, hr⟩

theorem spells_of_readMembers (hl : l.Describes cs) {ms : List (List Nat × Doc)}
    {seen : List String} {first : Bool} {s t : List Char}
    (h : l.readMembers seen r first s = .ok (r', t)) (hp : l.Progress cs ms seen r) :
    ∃ ns, SpellsMembers first s ns t ∧ (∀ m ∈ ns, IsKey m.1) ∧
      ∀ c ∈ cs r', c.MetBy (ms ++ ns) := by
  fun_induction readMembers l seen r first s generalizing ms with
  | case1 => cases h
  | case2 => cases h
  | case3 seen r first s u hn hm =>
    cases h
    refine ⟨[], .close (gap_of_nextKey hn), List.forall_mem_nil _, ?_⟩
    rw [List.append_nil]
    exact hp.met hl hm
  | case4 => cases h
  | case5 seen r first s k u hn hk a w hv ih =>
    obtain ⟨x, v, hx, hm, -⟩ := spells_of_member .ignored hn hv
    obtain ⟨ns, hns, hkeys, hmet⟩ := ih h (hp.other hk v)
    rw [← List.append_cons] at hmet
    exact ⟨_ :: ns, .member hx hm hns, List.forall_mem_cons.mpr ⟨⟨k, rfl⟩, hkeys⟩, hmet⟩
  | case6 => cases h
  | case7 => cases h
  | case8 seen r first s k u hn f hk hseen r₁ w hv ih =>
    obtain ⟨i, hf⟩ := List.mem_iff_getElem?.mp (List.mem_of_find?_eq_some hk)
    obtain rfl : f.key = k := by simpa using List.find?_some hk
    obtain ⟨x, v, c, hx, hm, hc, hr⟩ := spells_of_readField (hl.sets_of_getElem? hf) hn hv
    obtain ⟨ns, hns, hkeys, hmet⟩ := ih h (hp.field hl hf (by simpa using hseen) hc hr)
    rw [← List.append_cons] at hmet
    exact ⟨_ :: ns, .member hx hm hns, List.forall_mem_cons.mpr ⟨⟨_, rfl⟩, hkeys⟩, hmet⟩

/-! ## As a list -/

/-- The fields from number `index` on are not read yet. -/
def Pending (l : Layout R) (cs : R → List Clause) (index : Nat) (r : R) : Prop :=
  ∀ (i : Nat) (f : Field R) (c : Clause), index ≤ i → l.fields[i]? = some f →
    (cs r)[i]? = some c → f.required = false → c.Absent

theorem Pending.set {index : Nat} (h : l.Pending cs index r)
    (hr : cs r' = (cs r).set index c) : l.Pending cs (index + 1) r' := by
  intro i f b hi hf hb
  rw [hr, List.getElem?_set_ne (Nat.ne_of_lt hi)] at hb
  exact h i f b (Nat.le_of_lt hi) hf hb

/-- The list may end where no field that has to be there is left. -/
theorem Pending.met {index : Nat} (hl : l.Describes cs) (h : l.Pending cs index r)
    (hreq : ∀ f ∈ l.fields.drop index, f.required = false) :
    Clause.MetInOrder ((cs r).drop index) [] := by
  refine .rest fun c hc => ?_
  obtain ⟨j, hc⟩ := List.mem_iff_getElem?.mp hc
  rw [List.getElem?_drop] at hc
  obtain ⟨f, hf, -⟩ := hl.exists_field hc
  rw [← List.getElem?_drop] at hf
  exact h (index + j) f c (Nat.le_add_right ..) (List.getElem?_drop ▸ hf) hc
    (hreq f (List.mem_of_getElem? hf))

theorem gap_of_closeList {s t : List Char} (h : closeList s = .ok t) : Gap s (']' :: t) := by
  unfold closeList at h
  split at h
  · cases h
  · next hs =>
    cases h
    exact gap_of_dropBlank hs
  · split at h <;> cases h
  · cases h

/-- The items are the values of the fields from number `index` on. The clauses of the fields before
them stay. -/
theorem spells_of_readItems (hl : l.Describes cs) {fs : List (Field R)} {index : Nat}
    {s t : List Char} (h : l.readItems fs index r s = .ok (r', t))
    (hfs : l.fields.drop index = fs) (hp : l.Pending cs index r) :
    ∃ vs, SpellsItems (index == 0) s vs t ∧ Clause.MetInOrder ((cs r').drop index) vs ∧
      ∀ j < index, (cs r')[j]? = (cs r)[j]? := by
  induction fs generalizing index r s with
  | nil =>
    obtain ⟨u, hc, heq⟩ := map_eq_ok.mp h
    cases heq
    exact ⟨[], .close (gap_of_closeList hc), hp.met hl (by simp [hfs]), fun _ _ => rfl⟩
  | cons f fs ih =>
    have hf : l.fields[index]? = some f := by
      rw [← Nat.add_zero index, ← List.getElem?_drop, hfs]
      rfl
    unfold readItems at h
    split at h
    · cases h
    · next u hn =>
      split at h
      · cases h
      · next hreq =>
        cases h
        refine ⟨[], .close (gap_of_nextItem hn), hp.met hl fun g hg => ?_, fun _ _ => rfl⟩
        simpa using List.findIdx?_eq_none_iff.mp hreq g (hfs ▸ hg)
    · next u hn =>
      split at h
      · cases h
      · next set w hv =>
        split at h
        · cases h
        · next r₁ hset =>
          obtain ⟨v, hv, hc⟩ := hl.sets_of_getElem? hf _ _ _ hv
          obtain ⟨c, hpresent, hr⟩ := hc r r₁ hset
          have hfs : l.fields.drop (index + 1) = fs := by
            rw [← List.tail_drop, hfs, List.tail_cons]
          obtain ⟨vs, hvs, hmet, hkeep⟩ := ih h hfs (hp.set hr)
          have hc : (cs r')[index]? = some c :=
            (hkeep index (Nat.lt_succ_self index)).trans (hl.getElem?_set hf hr)
          refine ⟨v :: vs, .front (lead_of_nextItem hn) hv hvs, ?_, fun j hj => ?_⟩
          · obtain ⟨hlt, rfl⟩ := List.getElem?_eq_some_iff.mp hc
            rw [List.drop_eq_getElem_cons hlt]
            exact .item hpresent hmet
          · rw [hkeep j (Nat.lt_succ_of_lt hj), hr, List.getElem?_set_ne (Nat.ne_of_gt hj)]

end Layout

theorem Decoder.spells_of_record {name : String} {layout : Option (Layout R)}
    (hl : ∀ l ∈ layout, l.Describes cs) {s t : List Char} {r : R}
    (h : (record name layout).run s = .ok (r, t)) :
    ∃ v : Doc, Front s v t ∧ v.HasKeys ∧ v.DenotesRecord (cs r) := by
  simp only [Decoder.record] at h
  split at h
  · next u hs =>
    cases layout with
    | none => cases h
    | some l =>
      obtain ⟨ms, hms, hkeys, hmet⟩ :=
        Layout.spells_of_readMembers (hl l rfl) h (Layout.progress_blank (hl l rfl))
      exact ⟨.object ms, .mk (gap_of_dropBlank hs) (.object hms), Doc.hasKeys_object.mpr hkeys,
        .object hmet⟩
  · next u hs =>
    cases layout with
    | none => cases h
    | some l =>
      obtain ⟨vs, hvs, hmet, -⟩ := Layout.spells_of_readItems (hl l rfl) h rfl
        fun _ _ _ _ => (hl l rfl).blank_absent
      exact ⟨.list vs, .mk (gap_of_dropBlank hs) (.list hvs), Doc.hasKeys_list vs, .list hmet⟩
  · cases h

theorem Decoder.Sound.record {name : String} {layout : Option (Layout R)}
    (hl : ∀ l ∈ layout, l.Describes cs) :
    (record name layout).Sound fun v r => v.DenotesRecord (cs r) := by
  intro s t r h
  obtain ⟨v, hv, -, hrecord⟩ := spells_of_record hl h
  exact ⟨v, hv, hrecord⟩

/-! ## Variants -/

section Variants

variable {variants : List (String × α)} {a : α}

theorem lookup_of_known {name : String} (h : known variants name = .ok a) :
    variants.lookup name = some a := by
  unfold known at h
  split at h
  · next hk =>
    cases h
    exact hk
  · cases h

theorem spells_of_readVariant {s t : List Char} (h : readVariant variants s = .ok (a, t)) :
    ∃ name, SpellsUnits s (codeUnits name) t ∧ variants.lookup name = some a := by
  unfold readVariant at h
  split at h
  · cases h
  · next cs u hs =>
    split at h
    · cases h
    · next hk =>
      cases h
      exact ⟨String.ofList cs, codeUnits_ofList cs ▸ spells_of_readString hs, lookup_of_known hk⟩

theorem gap_of_closeVariant {s t : List Char} (h : closeVariant s = .ok t) :
    Gap s ('}' :: t) := by
  unfold closeVariant at h
  split at h
  · cases h
  · next hs =>
    cases h
    exact gap_of_dropBlank hs
  · cases h

theorem spells_of_readVariantObject {s t : List Char}
    (h : readVariantObject variants s = .ok (a, t)) :
    ∃ name, SpellsMembers true s [(codeUnits name, .null)] t ∧
      variants.lookup name = some a := by
  unfold readVariantObject at h
  split at h
  · cases h
  · cases h
  · next r hs =>
    split at h
    · cases h
    · next b u hv =>
      split at h
      · cases h
      · next w hm =>
        obtain ⟨x, hc, heq⟩ := map_eq_ok.mp h
        cases heq
        obtain ⟨name, hname, hlookup⟩ := spells_of_readVariant hv
        obtain ⟨y, v, hy, hnull, rfl⟩ := spells_of_memberValue .unit hm
        exact ⟨name, .member (.first (gap_of_dropBlank hs)) (.mk hname hy hnull)
          (.close (gap_of_closeVariant hc)), hlookup⟩
  · cases h

theorem Decoder.Sound.variant (room : Nat) :
    (variant variants room).Sound fun v a =>
      ∃ name, v.DenotesVariant name ∧ variants.lookup name = some a := by
  intro s t a h
  simp only [Decoder.variant] at h
  split at h
  · cases h
  · next r hs =>
    obtain ⟨name, hname, hlookup⟩ := spells_of_readVariant h
    exact ⟨.string _, .mk (gap_of_dropBlank hs) (.string hname), name, .inl rfl, hlookup⟩
  · next r hs =>
    by_cases hr : room = 0
    · rw [if_pos hr] at h
      cases h
    · rw [if_neg hr] at h
      obtain ⟨name, hms, hlookup⟩ := spells_of_readVariantObject h
      exact ⟨.object _, .mk (gap_of_dropBlank hs) (.object hms), name, .inr rfl, hlookup⟩
  · cases h

end Variants

end GrammarTables.Json
