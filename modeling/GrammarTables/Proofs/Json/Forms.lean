import GrammarTables.Proofs.Json.Edits
import GrammarTables.Proofs.Json.Height
import GrammarTables.Proofs.Json.ReadsRecord

/-!
# Forms of records

A record may be written by key or by position. By key it is an object of just the fields that are
set; by position it is a list of the values of all fields, with null or an empty list for one that is
not set, which may be cut off behind the last one that is set or has to be there. What is read from
one form is read from the other too.
-/

namespace GrammarTables.Json

variable {α : Type} {P Q : Doc → α → Prop} {v w : Doc} {vs : List Doc}

/-! ## Forms -/

/-- The members are those of the fields that are set, in the order of the fields. -/
inductive Clause.Keyed : List Clause → List (List Nat × Doc) → Prop where
  | nil : Keyed [] []
  | set {c : Clause} {cs : List Clause} {ms : List (List Nat × Doc)} {v : Doc} : ¬ c.Absent →
      c.Present v → Keyed cs ms → Keyed (c :: cs) ((codeUnits c.key, v) :: ms)
  | unset {c : Clause} {cs : List Clause} {ms : List (List Nat × Doc)} : c.Absent → Keyed cs ms →
      Keyed (c :: cs) ms

namespace Doc

/-- The document is one of the ways to write a record. -/
inductive WritesRecord (cs : List Clause) : Doc → Prop where
  | byKey {ms : List (List Nat × Doc)} : Clause.Keyed cs ms → WritesRecord cs (.object ms)
  | byPosition {vs : List Doc} : Clause.MetInOrder cs vs → WritesRecord cs (.list vs)

/-- An object with a member for each entry of the map, in any order. -/
inductive WritesMap (P : Doc → α → Prop) : Doc → NameMap α → Prop where
  | mk {ms : List (List Nat × Doc)} {es : List (String × α)} {m : NameMap α} : es.Perm m.entries →
      List.Forall₂ (DenotesMember P) ms es → WritesMap P (.object ms) m

/-- The document is a record with the keys, in either form, and has the value for one of them. -/
inductive HasField (keys : List String) (key : String) (w : Doc) : Doc → Prop where
  | member {ms : List (List Nat × Doc)} : (codeUnits key, w) ∈ ms →
      HasField keys key w (.object ms)
  | item {vs : List Doc} {i : Nat} : keys[i]? = some key → vs[i]? = some w →
      HasField keys key w (.list vs)

end Doc

/-! ## By key and by position -/

namespace Clause

variable {c d : Clause} {cs ds : List Clause} {ms : List (List Nat × Doc)} {n : Nat}

/-- What holds by the first clause holds by the second one too, for values up to a height. -/
structure Follows (n : Nat) (c d : Clause) : Prop where
  key : c.key = d.key
  present : ∀ v : Doc, v.height ≤ n → c.Present v → d.Present v
  absent : c.Absent → d.Absent

theorem keys_of_follows (h : List.Forall₂ (Follows n) cs ds) :
    cs.map Clause.key = ds.map Clause.key := by
  rw [← List.forall₂_eq_eq_eq, List.forall₂_map_left_iff, List.forall₂_map_right_iff]
  exact h.imp fun _ _ h => h.key

theorem absent_of_follows (h : List.Forall₂ (Follows n) cs ds) (hcs : ∀ c ∈ cs, c.Absent) :
    ∀ d ∈ ds, d.Absent := by
  induction h with
  | nil => exact List.forall_mem_nil _
  | cons hc _ ih =>
    obtain ⟨ha, hcs⟩ := List.forall_mem_cons.mp hcs
    exact List.forall_mem_cons.mpr ⟨hc.absent ha, ih hcs⟩

theorem Keyed.exists_clause (h : Keyed cs ms) {m : List Nat × Doc} (hm : m ∈ ms) :
    ∃ c ∈ cs, m.1 = codeUnits c.key := by
  induction h with
  | nil => cases hm
  | @set c cs ms v _ _ _ ih =>
    rcases List.mem_cons.mp hm with rfl | hm
    · exact ⟨c, List.mem_cons_self, rfl⟩
    · obtain ⟨d, hd, heq⟩ := ih hm
      exact ⟨d, List.mem_cons_of_mem c hd, heq⟩
  | @unset c _ _ _ _ ih =>
    obtain ⟨d, hd, heq⟩ := ih hm
    exact ⟨d, List.mem_cons_of_mem c hd, heq⟩

theorem Keyed.not_mem_keys (h : Keyed cs ms) {key : String} (hk : key ∉ cs.map Clause.key) :
    codeUnits key ∉ ms.map Prod.fst := by
  intro hmem
  obtain ⟨m, hm, heq⟩ := List.mem_map.mp hmem
  obtain ⟨c, hc, hkey⟩ := h.exists_clause hm
  exact hk (codeUnits_inj (hkey.symm.trans heq) ▸ List.mem_map_of_mem hc)

theorem Keyed.metBy (h : Keyed cs ms) (nodup : (cs.map Clause.key).Nodup)
    (hcs : List.Forall₂ (Follows n) cs ds) (hms : ∀ m ∈ ms, m.2.height ≤ n) :
    ∀ d ∈ ds, d.MetBy ms := by
  induction h generalizing ds with
  | nil =>
    cases hcs
    exact List.forall_mem_nil _
  | set _ hp hkeyed ih =>
    cases hcs with
    | @cons c d cs ds hc hcs =>
      obtain ⟨hkey, hrest⟩ := List.nodup_cons.mp nodup
      obtain ⟨hv, hms⟩ := List.forall_mem_cons.mp hms
      have hmem := hkeyed.not_mem_keys hkey
      rw [hc.key] at hmem ⊢
      refine List.forall_mem_cons.mpr ⟨metBy_cons hmem (hc.present _ hv hp), fun e he => ?_⟩
      refine (ih hrest hcs hms e he).cons_ne fun heq => hkey ?_
      rw [hc.key, keys_of_follows hcs, ← codeUnits_inj heq]
      exact List.mem_map_of_mem he
  | unset ha hkeyed ih =>
    cases hcs with
    | @cons c d cs ds hc hcs =>
      obtain ⟨hkey, hrest⟩ := List.nodup_cons.mp nodup
      have hmem := hkeyed.not_mem_keys hkey
      exact List.forall_mem_cons.mpr ⟨.absent (hc.key ▸ hmem) (hc.absent ha), ih hrest hcs hms⟩

theorem MetInOrder.follows (h : MetInOrder cs vs) (hcs : List.Forall₂ (Follows n) cs ds)
    (hvs : ∀ v ∈ vs, v.height ≤ n) : MetInOrder ds vs := by
  induction h generalizing ds with
  | rest ha => exact .rest (absent_of_follows hcs ha)
  | item hp _ ih =>
    cases hcs with
    | cons hc hcs =>
      obtain ⟨hv, hvs⟩ := List.forall_mem_cons.mp hvs
      exact .item (hc.present _ hv hp) (ih hcs hvs)

/-- A field that is set is written in either form. -/
theorem Keyed.exists_present (h : Keyed cs ms) (hc : c ∈ cs) (ha : ¬ c.Absent) :
    ∃ m ∈ ms, c.Present m.2 := by
  induction h with
  | nil => cases hc
  | set _ hp _ ih =>
    rcases List.mem_cons.mp hc with rfl | hc
    · exact ⟨_, List.mem_cons_self, hp⟩
    · obtain ⟨m, hm, hp⟩ := ih hc
      exact ⟨m, List.mem_cons_of_mem _ hm, hp⟩
  | unset habsent _ ih =>
    rcases List.mem_cons.mp hc with rfl | hc
    · exact absurd habsent ha
    · exact ih hc

theorem MetInOrder.exists_present (h : MetInOrder cs vs) (hc : c ∈ cs) (ha : ¬ c.Absent) :
    ∃ v ∈ vs, c.Present v := by
  induction h with
  | rest habsent => exact absurd (habsent c hc) ha
  | item hp _ ih =>
    rcases List.mem_cons.mp hc with rfl | hc
    · exact ⟨_, List.mem_cons_self, hp⟩
    · obtain ⟨v, hv, hp⟩ := ih hc
      exact ⟨v, List.mem_cons_of_mem _ hv, hp⟩

theorem MetBy.present (h : c.MetBy ms) (hv : (codeUnits c.key, v) ∈ ms) : c.Present v := by
  cases h with
  | once hm hp =>
    obtain ⟨front, back, rfl, hfront, hback⟩ := hm
    rcases List.mem_append.mp hv with hv | hv
    · exact absurd (List.mem_map_of_mem hv) hfront
    · rcases List.mem_cons.mp hv with heq | hv
      · cases heq
        exact hp
      · exact absurd (List.mem_map_of_mem hv) hback
  | absent hm => exact absurd (List.mem_map_of_mem hv) hm

theorem MetInOrder.present (h : MetInOrder cs vs) {i : Nat} (hc : cs[i]? = some c)
    (hv : vs[i]? = some v) : c.Present v := by
  induction h generalizing i with
  | rest => cases hv
  | item hp _ ih =>
    cases i with
    | zero =>
      cases hc
      cases hv
      exact hp
    | succ i => exact ih hc hv

/-- A list that meets the clauses has no more items than there are clauses, and has one for each that
may not be left out. -/
theorem MetInOrder.length_le (h : MetInOrder cs vs) : vs.length ≤ cs.length := by
  induction h with
  | rest => exact Nat.zero_le _
  | item _ _ ih => exact Nat.succ_le_succ ih

theorem MetInOrder.lt_length (h : MetInOrder cs vs) {i : Nat} (hc : cs[i]? = some c)
    (ha : ¬ c.Absent) : i < vs.length := by
  induction h generalizing i with
  | rest habsent => exact absurd (habsent c (List.mem_of_getElem? hc)) ha
  | item _ _ ih =>
    cases i with
    | zero => exact Nat.zero_lt_succ _
    | succ i => exact Nat.succ_lt_succ (ih hc)

end Clause

/-! ## Records -/

namespace Doc

variable {cs ds : List Clause} {n : Nat}

/-- What the clauses of a written record imply holds of it as well, whichever the form. -/
theorem WritesRecord.follows (h : v.WritesRecord cs) (nodup : (cs.map Clause.key).Nodup)
    (hcs : List.Forall₂ (Clause.Follows n) cs ds) (hv : v.height ≤ n + 1) :
    v.DenotesRecord ds ∧ v.HasKeys := by
  cases h with
  | @byKey ms hkeyed =>
    have hms : ∀ m ∈ ms, m.2.height ≤ n := fun m hm =>
      Nat.le_of_lt_succ (Nat.lt_of_lt_of_le (height_lt_of_mem_object hm) hv)
    refine ⟨.object (hkeyed.metBy nodup hcs hms), hasKeys_object.mpr fun m hm => ?_⟩
    obtain ⟨c, -, heq⟩ := hkeyed.exists_clause hm
    exact ⟨c.key, heq⟩
  | @byPosition vs hmet =>
    have hvs : ∀ v ∈ vs, v.height ≤ n := fun v hmem =>
      Nat.le_of_lt_succ (Nat.lt_of_lt_of_le (height_lt_of_mem_list hmem) hv)
    exact ⟨.list (hmet.follows hcs hvs), hasKeys_list vs⟩

theorem WritesRecord.exists_present (h : v.WritesRecord cs) {c : Clause} (hc : c ∈ cs)
    (ha : ¬ c.Absent) : ∃ w, c.Present w ∧ w.height < v.height := by
  cases h with
  | byKey hkeyed =>
    obtain ⟨m, hm, hp⟩ := hkeyed.exists_present hc ha
    exact ⟨m.2, hp, height_lt_of_mem_object hm⟩
  | byPosition hmet =>
    obtain ⟨w, hw, hp⟩ := hmet.exists_present hc ha
    exact ⟨w, hp, height_lt_of_mem_list hw⟩

theorem WritesRecord.height_pos (h : v.WritesRecord cs) : 0 < v.height := by
  cases h <;> exact Nat.zero_lt_succ _

/-- A field of a record that is taken has a value that the clause allows. -/
theorem RecordOf.present (h : RecordOf (some cs) v) (nodup : (cs.map Clause.key).Nodup) {c : Clause}
    (hc : c ∈ cs) (hw : HasField (cs.map Clause.key) c.key w v) : c.Present w := by
  obtain ⟨hds, hrecord, -⟩ := h
  cases hds
  cases hw with
  | member hm =>
    cases hrecord with
    | object hmet => exact (hmet c hc).present hm
  | item hkey hitem =>
    cases hrecord with
    | list hmet =>
      rw [List.getElem?_map, Option.map_eq_some_iff] at hkey
      obtain ⟨d, hd, heq⟩ := hkey
      obtain rfl := List.inj_on_of_nodup_map nodup (List.mem_of_getElem? hd) hc heq
      exact hmet.present hd hitem

/-- A field that may not be left out of a record, or is set, has a value that the clause allows. -/
theorem DenotesRecord.exists_field (h : v.DenotesRecord cs) {c : Clause} (hc : c ∈ cs)
    (ha : ¬ c.Absent) : ∃ w, HasField (cs.map Clause.key) c.key w v ∧ c.Present w := by
  cases h with
  | object hmet =>
    cases hmet c hc with
    | once honly hp => exact ⟨_, .member honly.last.mem, hp⟩
    | absent _ habsent => exact absurd habsent ha
  | list hmet =>
    obtain ⟨i, hi⟩ := List.mem_iff_getElem?.mp hc
    have hlt := hmet.lt_length hi ha
    have hget := List.getElem?_eq_getElem hlt
    exact ⟨_, .item (by rw [List.getElem?_map, hi]; rfl) hget, hmet.present hi hget⟩

theorem DenotesRecord.exists_field_of_some {α : Type} {P : Doc → α → Prop} {key : String} {i : Nat}
    {x : Option α} {a : α} (h : v.DenotesRecord cs) (hc : cs[i]? = some (.optional key P x))
    (hx : x = some a) : ∃ w, HasField (cs.map Clause.key) key w v ∧ P w a := by
  have hset : x ≠ none := hx ▸ Option.some_ne_none a
  obtain ⟨w, hfield, hp⟩ := h.exists_field (List.mem_of_getElem? hc) hset
  have hp : DenotesOptional P w (some a) := hx ▸ hp
  cases hp with
  | some hp => exact ⟨w, hfield, hp⟩

theorem hasField_of_replaced {keys : List String} {key : String} {v' w' : Doc}
    (h : Replaced keys key v w v' w') : HasField keys key w w' := by
  cases h with
  | @member front _ => exact .member (List.mem_append_right front List.mem_cons_self)
  | item hkey => exact .item hkey (by simp)

theorem RecordOf.metInOrder (h : RecordOf (some cs) (.list vs)) : Clause.MetInOrder cs vs := by
  obtain ⟨hds, hrecord, -⟩ := h
  cases hds
  cases hrecord with
  | list hmet => exact hmet

end Doc

/-! ## Renderings -/

theorem membersHeight_le {ms : List (String × Json)} {n : Nat} :
    membersHeight ms ≤ n ↔ ∀ m ∈ ms, m.2.height ≤ n := by
  induction ms with
  | nil => simp [membersHeight]
  | cons m ms ih => rw [membersHeight, Nat.max_le, List.forall_mem_cons, ih]

namespace Doc

/-- Whatever document `P` has for `a` denotes it, is taken where there is room for the brackets, and
has no fewer of them around its innermost parts than `f a`. -/
structure Renders (P Q : Doc → α → Prop) (A : Nat → Doc → Prop) (f : α → Json) (a : α) : Prop where
  denotes {v : Doc} : P v a → Q v a
  taken {v : Doc} {room : Nat} : P v a → v.height ≤ room → A room v
  height_le {v : Doc} : P v a → (f a).height ≤ v.height

variable {A : Nat → Doc → Prop} {f : α → Json} {a : α} {as : List α} {m : NameMap α}

theorem renders_text (s : String) :
    Renders DenotesText DenotesText (fun _ => IsString) Json.string s where
  denotes h := h
  taken h _ := ⟨s, h⟩
  height_le _ := Nat.zero_le _

theorem renders_bool (b : Bool) : Renders DenotesBool DenotesBool (fun _ => IsBool) Json.bool b where
  denotes h := h
  taken h _ := ⟨b, h⟩
  height_le _ := Nat.zero_le _

theorem Renders.forall₂ (h : ∀ a ∈ as, Renders P Q A f a) (hvs : List.Forall₂ P vs as) :
    List.Forall₂ Q vs as ∧ (∀ room, itemsHeight vs ≤ room → ∀ v ∈ vs, A room v) ∧
      Json.itemsHeight (as.map f) ≤ itemsHeight vs := by
  induction hvs with
  | nil => exact ⟨.nil, fun _ _ => List.forall_mem_nil _, Nat.le_refl 0⟩
  | @cons v a vs as hp _ ih =>
    obtain ⟨ha, has⟩ := List.forall_mem_cons.mp h
    obtain ⟨hq, hA, hheight⟩ := ih has
    have := ha.height_le hp
    refine ⟨.cons (ha.denotes hp) hq, fun room hroom => ?_, ?_⟩
    · obtain ⟨hv, hvs⟩ := Nat.max_le.mp hroom
      exact List.forall_mem_cons.mpr ⟨ha.taken hp hv, hA room hvs⟩
    · simp only [List.map_cons, Json.itemsHeight, itemsHeight]
      omega

theorem Renders.list (h : ∀ a ∈ as, Renders P Q A f a) :
    Renders (DenotesList P) (DenotesList Q) (fun room => ListOf (inside A room))
      (fun as => .list (as.map f)) as where
  denotes := by
    rintro _ ⟨hvs⟩
    exact .mk (Renders.forall₂ h hvs).1
  taken := by
    rintro _ (_ | room) ⟨hvs⟩ hv
    · exact absurd hv (Nat.not_succ_le_zero _)
    · exact .mk rfl ((Renders.forall₂ h hvs).2.1 room (Nat.le_of_succ_le_succ hv))
  height_le := by
    rintro _ ⟨hvs⟩
    exact Nat.succ_le_succ (Renders.forall₂ h hvs).2.2

theorem Renders.members {es : List (String × α)} {ms : List (List Nat × Doc)}
    (h : ∀ e ∈ es, Renders P Q A f e.2) (hms : List.Forall₂ (DenotesMember P) ms es) :
    List.Forall₂ (DenotesMember Q) ms es ∧
      (∀ room, membersHeight ms ≤ room → ∀ m ∈ ms, IsKey m.1 ∧ A room m.2) ∧
      ∀ e ∈ es, (f e.2).height ≤ membersHeight ms := by
  induction hms with
  | nil => exact ⟨.nil, fun _ _ => List.forall_mem_nil _, List.forall_mem_nil _⟩
  | @cons m e ms es hm _ ih =>
    obtain ⟨he, hes⟩ := List.forall_mem_cons.mp h
    obtain ⟨hq, hA, hheight⟩ := ih hes
    obtain ⟨hp⟩ := hm
    refine ⟨.cons (.mk (he.denotes hp)) hq, fun room hroom => ?_, ?_⟩
    · obtain ⟨hv, hms⟩ := Nat.max_le.mp hroom
      exact List.forall_mem_cons.mpr ⟨⟨⟨_, rfl⟩, he.taken hp hv⟩, hA room hms⟩
    · refine List.forall_mem_cons.mpr ⟨?_, fun e he => ?_⟩
      · exact Nat.le_trans (he.height_le hp) (Nat.le_max_left ..)
      · exact Nat.le_trans (hheight e he) (Nat.le_max_right ..)

theorem Renders.map (h : ∀ e ∈ m.entries, Renders P Q A f e.2) :
    Renders (WritesMap P) (DenotesMap Q) (fun room => MapOf (inside A room))
      (fun m => .object (namedMembers f m.entries)) m where
  denotes := by
    rintro _ ⟨hperm, hms⟩
    rw [← NameMap.ofList_of_perm hperm]
    exact .ofList (Renders.members (fun e he => h e (hperm.mem_iff.mp he)) hms).1
  taken := by
    rintro _ (_ | room) ⟨hperm, hms⟩ hv
    · exact absurd hv (Nat.not_succ_le_zero _)
    · have hes := Renders.members (fun e he => h e (hperm.mem_iff.mp he)) hms
      exact .mk rfl (hes.2.1 room (Nat.le_of_succ_le_succ hv))
  height_le := by
    rintro _ ⟨hperm, hms⟩
    have hes := Renders.members (fun e he => h e (hperm.mem_iff.mp he)) hms
    refine Nat.succ_le_succ (Json.membersHeight_le.mpr ?_)
    exact List.forall_mem_map.mpr fun e he => hes.2.2 e (hperm.mem_iff.mpr he)

end Doc

/-! ## Renderings of records -/

/-- Field by field, `cs` say what is written of a record, `ds` what that denotes and `ts` what of it is
taken where there is the room, and `ps` are its members in an object. -/
inductive RendersFields {R : Type} (room : Nat) :
    List Clause → List Clause → List Clause → List (Piece R) → Prop where
  | nil : RendersFields room [] [] [] []
  | required {α : Type} {P Q : Doc → α → Prop} {A : Nat → Doc → Prop} {f : α → Json} {a : α}
      {key : String} {set : α → R → R} {cs ds ts : List Clause} {ps : List (Piece R)} :
      Doc.Renders P Q A f a → RendersFields room cs ds ts ps →
      RendersFields room (.required key P a :: cs) (.required key Q a :: ds)
        (⟨key, A room, False⟩ :: ts) (.of key f set a :: ps)
  | default {α : Type} {P Q : Doc → α → Prop} {A : Nat → Doc → Prop} {f : α → Json} {a₀ a : α}
      {x : Option α} {key : String} {set : Option α → R → R} {cs ds ts : List Clause}
      {ps : List (Piece R)} :
      Doc.Renders P Q A f a → (∀ b ∈ x, b = a ∧ a ≠ a₀) → RendersFields room cs ds ts ps →
      RendersFields room (.default key P a₀ a :: cs) (.default key Q a₀ a :: ds)
        (⟨key, A room, True⟩ :: ts) (Piece.consOptional key f set x ps)
  | optional {α : Type} {P Q : Doc → α → Prop} {A : Nat → Doc → Prop} {f : α → Json} {x : Option α}
      {key : String} {set : Option α → R → R} {cs ds ts : List Clause} {ps : List (Piece R)} :
      (∀ a ∈ x, Doc.Renders P Q A f a) → RendersFields room cs ds ts ps →
      RendersFields room (.optional key P x :: cs) (.optional key Q x :: ds)
        (⟨key, Doc.OptionalOf (A room), True⟩ :: ts) (Piece.consOptional key f set x ps)

/-- The value of the piece is no higher than what is written of it by one of the clauses. -/
def Piece.CoveredBy {R : Type} (cs : List Clause) (p : Piece R) : Prop :=
  ∃ c ∈ cs, ¬ c.Absent ∧ ∀ w, c.Present w → p.value.height ≤ w.height

theorem Piece.CoveredBy.cons {R : Type} {cs : List Clause} {p : Piece R} (h : p.CoveredBy cs)
    (c : Clause) : p.CoveredBy (c :: cs) := by
  obtain ⟨d, hd, hp⟩ := h
  exact ⟨d, List.mem_cons_of_mem c hd, hp⟩

namespace RendersFields

variable {R : Type} {room : Nat} {cs ds ts : List Clause} {ps : List (Piece R)}

theorem follows_denotes (h : RendersFields room cs ds ts ps) (n : Nat) :
    List.Forall₂ (Clause.Follows n) cs ds := by
  induction h with
  | nil => exact .nil
  | required ha _ ih => exact .cons ⟨rfl, fun _ _ => ha.denotes, id⟩ ih
  | default ha _ _ ih => exact .cons ⟨rfl, fun _ _ => ha.denotes, id⟩ ih
  | optional hx _ ih =>
    refine .cons ⟨rfl, fun v _ hv => ?_, id⟩ ih
    cases hv with
    | null => exact .null
    | some hp => exact .some ((hx _ rfl).denotes hp)

theorem follows_taken (h : RendersFields room cs ds ts ps) :
    List.Forall₂ (Clause.Follows room) cs ts := by
  induction h with
  | nil => exact .nil
  | required ha _ ih => exact .cons ⟨rfl, fun _ hv hp => ha.taken hp hv, id⟩ ih
  | default ha _ _ ih => exact .cons ⟨rfl, fun _ hv hp => ha.taken hp hv, fun _ => trivial⟩ ih
  | optional hx _ ih =>
    refine .cons ⟨rfl, fun v hroom hv => ?_, fun _ => trivial⟩ ih
    cases hv with
    | null => exact .inl rfl
    | some hp => exact .inr ((hx _ rfl).taken hp hroom)

theorem covered (h : RendersFields room cs ds ts ps) : ∀ p ∈ ps, p.CoveredBy cs := by
  induction h with
  | nil => exact List.forall_mem_nil _
  | required ha _ ih =>
    refine List.forall_mem_cons.mpr ⟨⟨_, List.mem_cons_self, id, fun _ => ha.height_le⟩, ?_⟩
    exact fun p hp => (ih p hp).cons _
  | @default _ _ _ _ _ _ _ x _ _ _ _ _ _ ha hx _ ih =>
    cases x with
    | none => exact fun p hp => (ih p hp).cons _
    | some b =>
      obtain ⟨rfl, hne⟩ := hx b rfl
      refine List.forall_mem_cons.mpr ⟨⟨_, List.mem_cons_self, hne, fun _ => ha.height_le⟩, ?_⟩
      exact fun p hp => (ih p hp).cons _
  | @optional _ _ _ _ _ x _ _ _ _ _ _ hx _ ih =>
    cases x with
    | none => exact fun p hp => (ih p hp).cons _
    | some a =>
      refine List.forall_mem_cons.mpr ⟨⟨_, List.mem_cons_self, nofun, ?_⟩, ?_⟩
      · intro w hw
        cases hw with
        | some hp => exact (hx a rfl).height_le hp
      · exact fun p hp => (ih p hp).cons _

theorem denotes (h : RendersFields room cs ds ts ps) (nodup : (cs.map Clause.key).Nodup)
    (hv : v.WritesRecord cs) : v.DenotesRecord ds :=
  (hv.follows nodup (h.follows_denotes v.height) (Nat.le_succ _)).1

theorem taken (h : RendersFields room cs ds ts ps) (nodup : (cs.map Clause.key).Nodup)
    (hv : v.WritesRecord cs) (hroom : v.height ≤ room + 1) : Doc.RecordOf (some ts) v := by
  obtain ⟨hrecord, hkeys⟩ := hv.follows nodup h.follows_taken hroom
  exact ⟨rfl, hrecord, hkeys⟩

/-- The object is no higher than any document that writes the record. -/
theorem height_le (h : RendersFields room cs ds ts ps) (hv : v.WritesRecord cs) :
    (Json.object (ps.map Piece.member)).height ≤ v.height := by
  have hpos := hv.height_pos
  suffices membersHeight (ps.map Piece.member) ≤ v.height - 1 by
    show membersHeight (ps.map Piece.member) + 1 ≤ v.height
    omega
  refine membersHeight_le.mpr (List.forall_mem_map.mpr fun p hp => ?_)
  obtain ⟨c, hc, hset, hle⟩ := h.covered p hp
  obtain ⟨w, hw, hlt⟩ := hv.exists_present hc hset
  have := hle w hw
  show p.value.height ≤ v.height - 1
  omega

end RendersFields

/-! ## Whole texts -/

theorem Doc.Renders.decode {A : Nat → Doc → Prop} {f : α → Json} {a : α} {n : Nat} {d : Decoder α}
    {text : String} (h : Renders P Q A f a) (sound : d.Sound Q) (takes : d.Takes (A n))
    (determines : Determines Q a) (hv : v.IsText text) (hp : P v a) (hn : nesting text ≤ n) :
    d.decode text = .ok a :=
  (takes.decode_eq_ok_iff sound determines hv).mpr ⟨h.taken hp (hv.nesting_eq ▸ hn), h.denotes hp⟩

end GrammarTables.Json
