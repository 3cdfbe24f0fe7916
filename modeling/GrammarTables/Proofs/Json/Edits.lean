import GrammarTables.Proofs.Json.Taken.Record

/-!
# Edits of documents

Edits of the members of records and maps and of the items of lists. What is said of a document by
clauses, or of each of its items, holds of the edited document too, provided that it is kept where
the edit takes place: only the clause of a field looks at its members, and of the members of a map
with one key only the last one counts.
-/

namespace GrammarTables.Json

open Doc (OptionalOf ListOf MapOf RecordOf DenotesOptional DenotesList DenotesMap DenotesRecord)

variable {α : Type} {ms ns front back : List (List Nat × Doc)} {key k : List Nat} {v w v' w' : Doc}

/-! ## Edits -/

/-- An edit of an object that is a record with the fields: its members may be permuted, there may be
one more that is no field, and an optional field that is left out may be set to null. -/
inductive RecordEdit (fields optional : List String) : Doc → Doc → Prop where
  | permute {ms ns : List (List Nat × Doc)} : ms.Perm ns →
      RecordEdit fields optional (.object ms) (.object ns)
  | unknown {front back : List (List Nat × Doc)} {key : String} {v : Doc} : key ∉ fields →
      RecordEdit fields optional (.object (front ++ back))
        (.object (front ++ (codeUnits key, v) :: back))
  | null {front back : List (List Nat × Doc)} {key : String} : key ∈ optional →
      codeUnits key ∉ (front ++ back).map Prod.fst →
      RecordEdit fields optional (.object (front ++ back))
        (.object (front ++ (codeUnits key, .null) :: back))

/-- A record in either form, and the same with `w` for the value `v` of a field. -/
inductive Replaced (fields : List String) (key : String) (v w : Doc) : Doc → Doc → Prop where
  | member {front back : List (List Nat × Doc)} : Replaced fields key v w
      (.object (front ++ (codeUnits key, v) :: back)) (.object (front ++ (codeUnits key, w) :: back))
  | item {front back : List Doc} : fields[front.length]? = some key →
      Replaced fields key v w (.list (front ++ v :: back)) (.list (front ++ w :: back))

inductive ItemEdit (E : Doc → Doc → Prop) : Doc → Doc → Prop where
  | mk {front back : List Doc} {v w : Doc} : E v w →
      ItemEdit E (.list (front ++ v :: back)) (.list (front ++ w :: back))

/-- An edit of an object that is a map: members with one key stay in their order. -/
inductive MapEdit (E : Doc → Doc → Prop) : Doc → Doc → Prop where
  | permute {ms ns : List (List Nat × Doc)} : ms.Perm ns →
      (∀ key, ms.filter (·.1 = key) = ns.filter (·.1 = key)) → MapEdit E (.object ms) (.object ns)
  | value {front back : List (List Nat × Doc)} {key : List Nat} {v w : Doc} : E v w →
      MapEdit E (.object (front ++ (key, v) :: back)) (.object (front ++ (key, w) :: back))

/-- What holds of a document holds of it after an edit. -/
def Keeps (E : Doc → Doc → Prop) (Q : Doc → Prop) : Prop := ∀ v w, E v w → Q v → Q w

section Values

variable {E : Doc → Doc → Prop} {P : Doc → α → Prop}

/-! ## Values that may be null -/

theorem optionalOf_imp {A : Doc → Prop} (h : A v → A w) (hnull : v ≠ .null) (hv : OptionalOf A v) :
    OptionalOf A w :=
  .inr (h (hv.resolve_left hnull))

theorem denotesOptional_imp (h : ∀ a, P v a → P w a) (hnull : v ≠ .null) {x : Option α}
    (hv : DenotesOptional P v x) : DenotesOptional P w x := by
  cases hv with
  | null => exact absurd rfl hnull
  | some hp => exact .some (h _ hp)

theorem denotesOptional_null {x : Option α} (h : x = none) : DenotesOptional P .null x := h ▸ .null

/-! ## Lists -/

theorem Keeps.list {A : Option (Doc → Prop)} (h : ∀ B ∈ A, Keeps E B) :
    Keeps (ItemEdit E) (ListOf A) := by
  rintro _ _ ⟨hE⟩ ⟨hB, hvs⟩
  refine .mk hB ?_
  simp only [List.forall_mem_append, List.forall_mem_cons] at hvs ⊢
  obtain ⟨hfront, hv, hback⟩ := hvs
  exact ⟨hfront, h _ hB _ _ hE hv, hback⟩

theorem forall₂_modify {f : α → α} (h : ∀ a, P v a → P w (f a)) {front back : List Doc}
    {as : List α} (has : List.Forall₂ P (front ++ v :: back) as) :
    List.Forall₂ P (front ++ w :: back) (as.modify front.length f) := by
  induction front generalizing as with
  | nil =>
    cases has with
    | cons hp hrest => exact .cons (h _ hp) hrest
  | cons u front ih =>
    cases has with
    | cons hp hrest => exact .cons hp (ih hrest)

theorem Keeps.denotesList (h : ∀ a, Keeps E (P · a)) (as : List α) :
    Keeps (ItemEdit E) (DenotesList P · as) := by
  rintro _ _ ⟨hE⟩ ⟨has⟩
  have has' := forall₂_modify (f := id) (fun a => h a _ _ hE) has
  exact .mk (List.modify_id _ as ▸ has')

theorem ne_null_of_itemEdit (h : ItemEdit E v w) : v ≠ .null := by
  cases h
  nofun

end Values

/-! ## Maps -/

theorem filter_eq_nil : ms.filter (·.1 = key) = [] ↔ key ∉ ms.map Prod.fst := by
  simp only [List.filter_eq_nil_iff, List.mem_map, decide_eq_true_eq, not_exists, not_and]

/-- The last member with a key is the last one of those with that key. -/
theorem lastMember_iff : LastMember ms key v ↔ (ms.filter (·.1 = key)).getLast? = some (key, v) := by
  constructor
  · rintro ⟨front, back, rfl, hback⟩
    simp [filter_eq_nil.mpr hback]
  · intro h
    obtain ⟨init, hinit⟩ := List.getLast?_eq_some_iff.mp h
    obtain ⟨front, rest, rfl, -, hrest⟩ := List.filter_eq_append_iff.mp hinit
    obtain ⟨between, back, rfl, -, -, hback⟩ := List.filter_eq_cons_iff.mp hrest
    exact ⟨front ++ between, back, by simp, filter_eq_nil.mp hback⟩

theorem lastMember_append : LastMember (front ++ back) key v ↔
    LastMember back key v ∨ key ∉ back.map Prod.fst ∧ LastMember front key v := by
  simp only [lastMember_iff, List.filter_append, List.getLast?_append, Option.or_eq_some_iff,
    List.getLast?_eq_none_iff, filter_eq_nil]

theorem lastMember_cons : LastMember ((k, w) :: ms) key v ↔
    LastMember ms key v ∨ key ∉ ms.map Prod.fst ∧ k = key ∧ w = v := by
  rw [← List.singleton_append, lastMember_append, @lastMember_iff [(k, w)]]
  by_cases heq : k = key <;> simp [heq]

/-- An earlier member with a key is not looked at. -/
theorem LastMember.insert (h : LastMember (front ++ back) key v) (hk : k ∈ back.map Prod.fst) :
    LastMember (front ++ (k, w) :: back) key v := by
  refine lastMember_append.mpr ?_
  rcases lastMember_append.mp h with h | ⟨hback, h⟩
  · exact .inl (lastMember_cons.mpr (.inl h))
  · exact .inr ⟨List.not_mem_cons_of_ne_of_not_mem (fun heq => hback (heq ▸ hk)) hback, h⟩

theorem LastMember.replace (h : LastMember (front ++ (k, v) :: back) key v') :
    LastMember (front ++ (k, w) :: back) key v' ∨
      v' = v ∧ LastMember (front ++ (k, w) :: back) key w := by
  rcases lastMember_append.mp h with h | ⟨hback, h⟩
  · rcases lastMember_cons.mp h with h | ⟨hback, heq, rfl⟩
    · exact .inl (lastMember_append.mpr (.inl (lastMember_cons.mpr (.inl h))))
    · have hw : LastMember ((k, w) :: back) key w := lastMember_cons.mpr (.inr ⟨hback, heq, rfl⟩)
      exact .inr ⟨rfl, lastMember_append.mpr (.inl hw)⟩
  · exact .inl (lastMember_append.mpr (.inr ⟨hback, h⟩))

section Maps

variable {E : Doc → Doc → Prop} {P : Doc → α → Prop}

theorem Keeps.map {A : Option (Doc → Prop)} (h : ∀ B ∈ A, Keeps E B) :
    Keeps (MapEdit E) (MapOf A) := by
  rintro _ _ hE ⟨hB, hms⟩
  cases hE with
  | permute hperm _ => exact .mk hB fun m hm => hms m (hperm.mem_iff.mpr hm)
  | value hE =>
    refine .mk hB ?_
    simp only [List.forall_mem_append, List.forall_mem_cons] at hms ⊢
    obtain ⟨hfront, ⟨hkey, hv⟩, hback⟩ := hms
    exact ⟨hfront, ⟨hkey, h _ hB _ _ hE hv⟩, hback⟩

theorem Keeps.denotesMap (h : ∀ a, Keeps E (P · a)) (m : NameMap α) :
    Keeps (MapEdit E) (DenotesMap P · m) := by
  rintro _ _ hE ⟨keys, last⟩
  cases hE with
  | permute hperm horder =>
    refine .mk (fun key => ?_) fun e he => ?_
    · rw [← keys key]
      exact (hperm.map Prod.fst).symm.mem_iff
    · obtain ⟨v, hv, hp⟩ := last e he
      rw [lastMember_iff, horder, ← lastMember_iff] at hv
      exact ⟨v, hv, hp⟩
  | @value front back k v w hE =>
    refine .mk (fun key => ?_) fun e he => ?_
    · rw [← keys key]
      simp
    · obtain ⟨u, hu, hp⟩ := last e he
      rcases hu.replace (w := w) with hu | ⟨rfl, hw⟩
      · exact ⟨u, hu, hp⟩
      · exact ⟨w, hw, h _ _ _ hE hp⟩

theorem mapOf_insert {A : Option (Doc → Prop)} (hk : k ∈ back.map Prod.fst) (hw : ∀ B ∈ A, B w)
    (h : MapOf A (.object (front ++ back))) : MapOf A (.object (front ++ (k, w) :: back)) := by
  obtain ⟨hB, hms⟩ := h
  refine .mk hB ?_
  simp only [List.forall_mem_append, List.forall_mem_cons] at hms ⊢
  obtain ⟨hfront, hback⟩ := hms
  obtain ⟨m, hm, rfl⟩ := List.mem_map.mp hk
  exact ⟨hfront, ⟨(hback m hm).1, hw _ hB⟩, hback⟩

theorem denotesMap_insert (hk : k ∈ back.map Prod.fst) {m : NameMap α}
    (h : DenotesMap P (.object (front ++ back)) m) :
    DenotesMap P (.object (front ++ (k, w) :: back)) m := by
  obtain ⟨keys, last⟩ := h
  refine .mk (fun key => ?_) fun e he => ?_
  · have same : k ∈ (front ++ back).map Prod.fst := by
      rw [List.map_append]
      exact List.mem_append_right _ hk
    rw [← keys key, (List.perm_middle.map Prod.fst).mem_iff, List.map_cons, List.mem_cons]
    exact or_iff_right_of_imp fun heq => heq ▸ same
  · obtain ⟨v, hv, hp⟩ := last e he
    exact ⟨v, hv.insert hk, hp⟩

theorem ne_null_of_mapEdit (h : MapEdit E v w) : v ≠ .null := by
  cases h <;> nofun

end Maps

/-! ## Records -/

theorem onlyMember_iff :
    OnlyMember ms key v ↔ ∃ rest, ms.Perm ((key, v) :: rest) ∧ key ∉ rest.map Prod.fst := by
  constructor
  · rintro ⟨front, back, rfl, hfront, hback⟩
    refine ⟨front ++ back, List.perm_middle, ?_⟩
    rw [List.map_append, List.mem_append]
    exact not_or_intro hfront hback
  · rintro ⟨rest, hperm, hrest⟩
    obtain ⟨front, back, rfl⟩ := List.append_of_mem (hperm.mem_iff.mpr List.mem_cons_self)
    -- what is left of either list when the member is taken out of it
    have h : (front ++ back).Perm rest := (List.perm_middle.symm.trans hperm).cons_inv
    rw [← (h.map Prod.fst).mem_iff, List.map_append, List.mem_append] at hrest
    exact ⟨front, back, rfl, fun h => hrest (.inl h), fun h => hrest (.inr h)⟩

namespace Clause

variable {c : Clause} {cs : List Clause} {fields optional : List String}

/-- A clause does not look at the order of the members. -/
theorem MetBy.perm (h : c.MetBy ms) (hperm : ms.Perm ns) : c.MetBy ns := by
  cases h with
  | once hm hp =>
    obtain ⟨rest, hms, hrest⟩ := onlyMember_iff.mp hm
    exact .once (onlyMember_iff.mpr ⟨rest, hperm.symm.trans hms, hrest⟩) hp
  | absent hm ha => exact .absent (fun h => hm ((hperm.map Prod.fst).mem_iff.mpr h)) ha

theorem metBy_middle {m : List Nat × Doc} :
    c.MetBy (front ++ m :: back) ↔ c.MetBy (m :: (front ++ back)) :=
  ⟨(·.perm List.perm_middle), (·.perm List.perm_middle.symm)⟩

/-- A clause looks only at the members with its key. -/
theorem MetBy.cons_ne {m : List Nat × Doc} (h : c.MetBy ms) (hne : codeUnits c.key ≠ m.1) :
    c.MetBy (m :: ms) := by
  cases h with
  | once hm hp =>
    obtain ⟨front, back, rfl, hfront, hback⟩ := hm
    exact .once ⟨m :: front, back, rfl, List.not_mem_cons_of_ne_of_not_mem hne hfront, hback⟩ hp
  | absent hm ha => exact .absent (List.not_mem_cons_of_ne_of_not_mem hne hm) ha

theorem metBy_cons (hm : codeUnits c.key ∉ ms.map Prod.fst) (hp : c.Present v) :
    c.MetBy ((codeUnits c.key, v) :: ms) :=
  .once ⟨[], ms, rfl, List.not_mem_nil, hm⟩ hp

theorem MetBy.unknown {key : String} (h : c.MetBy (front ++ back)) (hne : c.key ≠ key) :
    c.MetBy (front ++ (codeUnits key, v) :: back) :=
  metBy_middle.mpr (h.cons_ne fun heq => hne (codeUnits_inj heq))

theorem MetBy.null {key : String} (h : c.MetBy (front ++ back))
    (hm : codeUnits key ∉ (front ++ back).map Prod.fst)
    (hnull : c.key = key → c.Absent → c.Present .null) :
    c.MetBy (front ++ (codeUnits key, .null) :: back) := by
  by_cases heq : c.key = key
  · subst heq
    cases h with
    | once honly => exact absurd honly.mem_keys hm
    | absent _ ha => exact metBy_middle.mpr (metBy_cons hm (hnull rfl ha))
  · exact h.unknown heq

theorem MetBy.replace_other {key : String} (h : c.MetBy (front ++ (codeUnits key, v) :: back))
    (hne : c.key ≠ key) : c.MetBy (front ++ (codeUnits key, w) :: back) := by
  have hunits : codeUnits c.key ≠ codeUnits key := fun h => hne (codeUnits_inj h)
  exact metBy_middle.mpr (((metBy_middle.mp h).of_cons_ne hunits).cons_ne hunits)

/-- Another value meets another clause, if it is one for the same field. -/
theorem MetBy.set {d : Clause} (h : c.MetBy (front ++ (codeUnits c.key, v) :: back))
    (hkey : d.key = c.key) (hp : c.Present v → d.Present w) :
    d.MetBy (front ++ (codeUnits d.key, w) :: back) := by
  obtain ⟨hv, hrest⟩ := (metBy_middle.mp h).of_cons_eq
  exact metBy_middle.mpr (metBy_cons (hkey ▸ hrest) (hp hv))

theorem MetInOrder.set {d : Clause} {front back : List Doc} (h : MetInOrder cs (front ++ v :: back))
    (hc : cs[front.length]? = some c) (hp : c.Present v → d.Present w) :
    MetInOrder (cs.set front.length d) (front ++ w :: back) := by
  induction front generalizing cs with
  | nil =>
    cases h with
    | item hv hrest =>
      cases hc
      exact .item (hp hv) hrest
  | cons u front ih =>
    cases h with
    | item hu hrest => exact .item hu (ih hrest hc)

end Clause

/-- The clauses are those of a record with the fields, and let an optional field be null when they
let it be left out. -/
structure Clause.Fit (fields optional : List String) (cs : List Clause) : Prop where
  keys : cs.map Clause.key = fields
  nodup : fields.Nodup
  null : ∀ c ∈ cs, c.key ∈ optional → c.Absent → c.Present .null

section Records

variable {cs : List Clause} {fields optional : List String} {key : String} {P : Doc → Prop}
  {absent : Prop} {i : Nat}

theorem ne_null_of_recordEdit (h : RecordEdit fields optional v w) : v ≠ .null := by
  cases h <;> nofun

theorem Replaced.symm (h : Replaced fields key v w v' w') : Replaced fields key w v w' v' := by
  cases h with
  | member => exact .member
  | item hkey => exact .item hkey

theorem ne_null_of_replaced (h : Replaced fields key v w v' w') : v' ≠ .null := by
  cases h <;> nofun

namespace Clause.Fit

theorem denotesRecord (h : Fit fields optional cs) :
    Keeps (RecordEdit fields optional) (DenotesRecord cs) := by
  rintro _ _ hE hv
  cases hE with
  | permute hperm =>
    cases hv with
    | object hms => exact .object fun c hc => (hms c hc).perm hperm
  | @unknown _ _ key _ hkey =>
    have hne : ∀ c ∈ cs, c.key ≠ key := by
      rintro c hc rfl
      exact hkey (h.keys ▸ List.mem_map_of_mem hc)
    cases hv with
    | object hms => exact .object fun c hc => (hms c hc).unknown (hne c hc)
  | null hkey hm =>
    cases hv with
    | object hms =>
      exact .object fun c hc => (hms c hc).null hm fun heq => h.null c hc (heq ▸ hkey)

/-- With another value for one field, a record meets the clauses with another one for that field. -/
theorem denotesRecord_set (h : Fit fields optional cs) (hr : Replaced fields key v w v' w')
    {c d : Clause} (hi : cs[i]? = some c) (hc : c.key = key) (hd : d.key = key)
    (hp : c.Present v → d.Present w) (hv : v'.DenotesRecord cs) :
    w'.DenotesRecord (cs.set i d) := by
  -- no two fields have one key, so the value is looked at by this one clause
  have hindex {j : Nat} (hj : fields[j]? = some key) : i = j := by
    have hkey : fields[i]? = some key := by rw [← h.keys, List.getElem?_map, hi, ← hc]; rfl
    have hlt := (List.getElem?_eq_some_iff.mp hkey).1
    exact (List.getElem?_inj hlt h.nodup).mp (hkey.trans hj.symm)
  subst hc
  cases hr with
  | member =>
    cases hv with
    | object hms =>
      refine .object fun e he => ?_
      obtain ⟨j, hj⟩ := List.mem_iff_getElem?.mp he
      by_cases hij : i = j
      · obtain ⟨hlt, -⟩ := List.getElem?_eq_some_iff.mp hi
        subst hij
        rw [List.getElem?_set_self hlt] at hj
        cases hj
        exact hd ▸ (hms c (List.mem_of_getElem? hi)).set hd hp
      · rw [List.getElem?_set_ne hij] at hj
        refine (hms e (List.mem_of_getElem? hj)).replace_other fun heq => hij (hindex ?_)
        rw [← h.keys, List.getElem?_map, hj, ← heq]
        rfl
  | item hkey =>
    cases hv with
    | list hvs =>
      obtain rfl := hindex hkey
      exact .list (hvs.set hi hp)

theorem denotesRecord_replaced (h : Fit fields optional cs) (hr : Replaced fields key v w v' w')
    (hi : cs[i]? = some ⟨key, P, absent⟩) (hp : P v → P w) (hv : v'.DenotesRecord cs) :
    w'.DenotesRecord cs := by
  have hset := h.denotesRecord_set hr hi rfl (d := ⟨key, P, absent⟩) rfl hp hv
  obtain ⟨hlt, hget⟩ := List.getElem?_eq_some_iff.mp hi
  rwa [← hget, List.set_getElem_self] at hset

end Clause.Fit

/-! ## Keys of records -/

theorem hasKeys_middle : (Doc.object (front ++ (k, v) :: back)).HasKeys ↔
    IsKey k ∧ (Doc.object (front ++ back)).HasKeys := by
  simp only [Doc.hasKeys_object, List.forall_mem_append, List.forall_mem_cons]
  exact and_left_comm

theorem keeps_hasKeys : Keeps (RecordEdit fields optional) Doc.HasKeys := by
  intro v w hE h
  cases hE with
  | permute hperm =>
    rw [Doc.hasKeys_object] at h ⊢
    exact fun m hm => h m (hperm.mem_iff.mpr hm)
  | unknown => exact hasKeys_middle.mpr ⟨⟨_, rfl⟩, h⟩
  | null => exact hasKeys_middle.mpr ⟨⟨_, rfl⟩, h⟩

theorem Replaced.hasKeys (h : Replaced fields key v w v' w') (hv : v'.HasKeys) : w'.HasKeys := by
  cases h with
  | member => exact hasKeys_middle.mpr (hasKeys_middle.mp hv)
  | item => exact Doc.hasKeys_list _

namespace Clause.Fit

theorem record (h : Fit fields optional cs) :
    Keeps (RecordEdit fields optional) (RecordOf (some cs)) := by
  rintro v w hE ⟨⟨⟩, hv, hkeys⟩
  exact .mk rfl (h.denotesRecord v w hE hv) (keeps_hasKeys v w hE hkeys)

theorem record_replaced (h : Fit fields optional cs) (hr : Replaced fields key v w v' w')
    (hi : cs[i]? = some ⟨key, P, absent⟩) (hp : P v → P w) (hv : RecordOf (some cs) v') :
    RecordOf (some cs) w' := by
  obtain ⟨⟨⟩, hv, hkeys⟩ := hv
  exact .mk rfl (h.denotesRecord_replaced hr hi hp hv) (hr.hasKeys hkeys)

end Clause.Fit

end Records

end GrammarTables.Json
