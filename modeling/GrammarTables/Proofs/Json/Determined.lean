import GrammarTables.Proofs.Json.Denotes
import GrammarTables.Proofs.NameMap

/-!
# What a document denotes is determined

A document denotes at most one text, list, map or record of a kind, as long as it denotes at most
one of what those hold. For a record this is a matter of its clauses: two records that one document
denotes have each of their fields from the same value, or both leave the field out.
-/

namespace GrammarTables.Json

variable {α : Type} {P : Doc → α → Prop}

/-- A document that denotes `a` denotes nothing else. -/
def Doc.Determines (P : Doc → α → Prop) (a : α) : Prop := ∀ v b, P v a → P v b → a = b

namespace Doc

/-! ## Values -/

theorem determines_text (s : String) : Determines DenotesText s := by
  intro v t h h'
  exact codeUnits_inj (Doc.string.inj (h.symm.trans h'))

theorem determines_bool (b : Bool) : Determines DenotesBool b := by
  intro v c h h'
  exact Doc.bool.inj (h.symm.trans h')

theorem determines_optional {x : Option α} (hnull : ∀ a, ¬ P .null a)
    (hx : ∀ a ∈ x, Determines P a) : Determines (DenotesOptional P) x := by
  intro v y h h'
  cases h with
  | null =>
    cases h' with
    | null => rfl
    | some hp => exact absurd hp (hnull _)
  | some hp =>
    cases h' with
    | null => exact absurd hp (hnull _)
    | some hp' => rw [hx _ rfl v _ hp hp']

theorem eq_of_forall₂ {vs : List Doc} {as bs : List α} (has : ∀ a ∈ as, Determines P a)
    (h : List.Forall₂ P vs as) (h' : List.Forall₂ P vs bs) : as = bs := by
  induction h generalizing bs with
  | nil =>
    cases h'
    rfl
  | cons hp _ ih =>
    cases h' with
    | cons hp' h' =>
      obtain ⟨ha, has⟩ := List.forall_mem_cons.mp has
      rw [ha _ _ hp hp', ih has h']

theorem determines_list {as : List α} (has : ∀ a ∈ as, Determines P a) :
    Determines (DenotesList P) as := by
  intro v bs h h'
  cases h with
  | mk h =>
    cases h' with
    | mk h' => exact eq_of_forall₂ has h h'

theorem variant_unique {v : Doc} {m n : String} (h : v.DenotesVariant m) (h' : v.DenotesVariant n) :
    m = n := by
  refine codeUnits_inj ?_
  rcases h with rfl | rfl
  · rcases h' with h' | h'
    · exact Doc.string.inj h'
    · nomatch h'
  · rcases h' with h' | h'
    · nomatch h'
    · simpa using h'

end Doc

/-! ## Maps -/

theorem LastMember.lookup_eq {ms : List (List Nat × Doc)} {key : List Nat} {v : Doc}
    (h : LastMember ms key v) : ms.reverse.lookup key = some v := by
  obtain ⟨front, back, rfl, hback⟩ := h
  refine List.lookup_eq_some_iff.mpr ⟨back.reverse, front.reverse, by simp, fun p hp => ?_⟩
  refine bne_iff_ne.mpr fun heq => hback ?_
  rw [heq]
  exact List.mem_map_of_mem (List.mem_reverse.mp hp)

theorem LastMember.mem {ms : List (List Nat × Doc)} {key : List Nat} {v : Doc}
    (h : LastMember ms key v) : (key, v) ∈ ms := by
  obtain ⟨front, back, rfl, -⟩ := h
  exact List.mem_append_right front List.mem_cons_self

theorem LastMember.unique {ms : List (List Nat × Doc)} {key : List Nat} {v w : Doc}
    (h : LastMember ms key v) (h' : LastMember ms key w) : v = w :=
  Option.some.inj (h.lookup_eq.symm.trans h'.lookup_eq)

theorem OnlyMember.last {ms : List (List Nat × Doc)} {key : List Nat} {v : Doc}
    (h : OnlyMember ms key v) : LastMember ms key v := by
  obtain ⟨front, back, hms, -, hback⟩ := h
  exact ⟨front, back, hms, hback⟩

namespace Doc

theorem exists_entry {ms : List (List Nat × Doc)} {m n : NameMap α}
    (hm : ∀ key, key ∈ ms.map Prod.fst ↔ key ∈ m.names.map codeUnits)
    (hn : ∀ key, key ∈ ms.map Prod.fst ↔ key ∈ n.names.map codeUnits) {e : String × α}
    (he : e ∈ m.entries) : ∃ d ∈ n.entries, d.1 = e.1 := by
  have hkey : codeUnits e.1 ∈ n.names.map codeUnits :=
    (hn _).mp ((hm _).mpr (List.mem_map_of_mem (List.mem_map_of_mem he)))
  obtain ⟨name, hname, heq⟩ := List.mem_map.mp hkey
  obtain ⟨d, hd, rfl⟩ := List.mem_map.mp hname
  exact ⟨d, hd, codeUnits_inj heq⟩

theorem determines_map {m : NameMap α} (hm : ∀ e ∈ m.entries, Determines P e.2) :
    Determines (DenotesMap P) m := by
  intro v n h h'
  cases h with
  | mk keys last =>
    cases h' with
    | mk keys' last' =>
      have same : ∀ e ∈ m.entries, ∀ d ∈ n.entries, d.1 = e.1 → e = d := by
        intro e he d hd heq
        obtain ⟨v, hv, hp⟩ := last e he
        obtain ⟨w, hw, hp'⟩ := last' d hd
        rw [heq] at hw
        rw [hv.unique hw] at hp
        exact Prod.ext heq.symm (hm e he w d.2 hp hp')
      refine NameMap.ext_mem fun e => ⟨fun he => ?_, fun he => ?_⟩
      · obtain ⟨d, hd, heq⟩ := exists_entry keys keys' he
        exact same e he d hd heq ▸ hd
      · obtain ⟨d, hd, heq⟩ := exists_entry keys' keys he
        exact same d hd e he heq.symm ▸ hd

end Doc

/-! ## Records -/

theorem OnlyMember.mem_keys {ms : List (List Nat × Doc)} {key : List Nat} {v : Doc}
    (h : OnlyMember ms key v) : key ∈ ms.map Prod.fst := by
  obtain ⟨front, back, rfl, -, -⟩ := h
  simp

namespace Clause

/-- Both fields are read from the same value, or both are left out. -/
def Agree (c d : Clause) : Prop := (∃ v, c.Present v ∧ d.Present v) ∨ c.Absent ∧ d.Absent

theorem MetBy.agree {c d : Clause} {ms : List (List Nat × Doc)} (h : c.MetBy ms)
    (h' : d.MetBy ms) (hkey : c.key = d.key) : c.Agree d := by
  cases h with
  | once hm hp =>
    cases h' with
    | once hm' hp' =>
      rw [hkey] at hm
      rw [hm.last.unique hm'.last] at hp
      exact .inl ⟨_, hp, hp'⟩
    | absent hm' => exact absurd (hkey ▸ hm.mem_keys) hm'
  | absent hm ha =>
    cases h' with
    | once hm' => exact absurd (hkey ▸ hm'.mem_keys) hm
    | absent _ ha' => exact .inr ⟨ha, ha'⟩

theorem MetInOrder.agree {cs ds : List Clause} {vs : List Doc} (h : MetInOrder cs vs)
    (h' : MetInOrder ds vs) (hlen : cs.length = ds.length) : List.Forall₂ Agree cs ds := by
  induction h generalizing ds with
  | rest ha =>
    cases h' with
    | rest ha' =>
      refine List.forall₂_iff_zip.mpr ⟨hlen, fun hmem => ?_⟩
      obtain ⟨hc, hd⟩ := List.of_mem_zip hmem
      exact .inr ⟨ha _ hc, ha' _ hd⟩
  | item hp _ ih =>
    cases h' with
    | item hp' h' => exact .cons (.inl ⟨_, hp, hp'⟩) (ih h' (Nat.succ.inj hlen))

theorem agree_of_denotes {cs ds : List Clause} {v : Doc} (h : v.DenotesRecord cs)
    (h' : v.DenotesRecord ds) (hkeys : cs.map key = ds.map key) : List.Forall₂ Agree cs ds := by
  have hlen : cs.length = ds.length := by simpa using congrArg List.length hkeys
  cases h with
  | object hm =>
    cases h' with
    | object hm' =>
      have hkeys : List.Forall₂ (· = ·) (cs.map key) (ds.map key) := by
        rwa [List.forall₂_eq_eq_eq]
      rw [List.forall₂_map_left_iff, List.forall₂_map_right_iff] at hkeys
      refine List.forall₂_iff_zip.mpr ⟨hlen, fun hmem => ?_⟩
      obtain ⟨hc, hd⟩ := List.of_mem_zip hmem
      exact (hm _ hc).agree (hm' _ hd) ((List.forall₂_iff_zip.mp hkeys).2 hmem)
  | list hm =>
    cases h' with
    | list hm' => exact hm.agree hm' hlen

theorem Agree.required {key : String} {a b : α}
    (h : (required key P a).Agree (.required key P b)) (ha : Doc.Determines P a) : a = b := by
  rcases h with ⟨v, hp, hp'⟩ | ⟨h, -⟩
  · exact ha v b hp hp'
  · exact h.elim

theorem Agree.default {key : String} {a₀ a b : α}
    (h : (default key P a₀ a).Agree (.default key P a₀ b)) (ha : Doc.Determines P a) : a = b := by
  rcases h with ⟨v, hp, hp'⟩ | ⟨rfl, rfl⟩
  · exact ha v b hp hp'
  · rfl

theorem Agree.optional {key : String} {x y : Option α}
    (h : (optional key P x).Agree (.optional key P y)) (hnull : ∀ a, ¬ P .null a)
    (hx : ∀ a ∈ x, Doc.Determines P a) : x = y :=
  h.default (Doc.determines_optional hnull hx)

end Clause

end GrammarTables.Json
