import GrammarTables.NameMap

/-!
# Maps from names

A map is the map of its own entries. What it says of a name, the entries of
that name say; there is at most one.
-/

namespace GrammarTables.NameMap

variable {α : Type}

theorem insertEntry_last {name : String} {a : α} {es : List (String × α)}
    (h : ∀ e ∈ es, e.1 < name) : insertEntry name a es = es ++ [(name, a)] := by
  induction es with
  | nil => rfl
  | cons e es ih =>
    have he : e.1 < name := h e List.mem_cons_self
    have hes : ∀ d ∈ es, d.1 < name := fun d hd => h d (List.mem_cons_of_mem e hd)
    rw [insertEntry, if_neg (String.lt_asymm he), if_neg (Ne.symm (String.ne_of_lt he)), ih hes]
    rfl

theorem foldl_insert_entries {m : NameMap α} {es : List (String × α)}
    (h : Ascends (m.entries ++ es)) :
    (es.foldl (fun m e => m.insert e.1 e.2) m).entries = m.entries ++ es := by
  induction es generalizing m with
  | nil => simp
  | cons e es ih =>
    have hlast : (m.insert e.1 e.2).entries = m.entries ++ [e] :=
      insertEntry_last fun d hd => (List.pairwise_append.mp h).2.2 d hd e List.mem_cons_self
    have hm : Ascends ((m.insert e.1 e.2).entries ++ es) := by
      rw [hlast, List.append_assoc]
      exact h
    rw [List.foldl_cons, ih hm, hlast, List.append_assoc]
    rfl

/-- Putting the entries of a map into an empty one gives the map again. -/
theorem ofList_entries (m : NameMap α) : ofList m.entries = m :=
  ext (foldl_insert_entries (m := empty) m.ascends)

theorem mem_insertEntry_iff {name : String} {a : α} {e : String × α} {es : List (String × α)}
    (h : Ascends es) :
    e ∈ insertEntry name a es ↔ e = (name, a) ∨ e ∈ es ∧ e.1 ≠ name := by
  induction es with
  | nil => simp [insertEntry]
  | cons d ds ih =>
    obtain ⟨hd, hds⟩ := List.pairwise_cons.mp h
    have ih := ih hds
    unfold insertEntry
    split
    · next hlt =>
      have hne : ∀ x ∈ d :: ds, x.1 ≠ name := by
        refine List.forall_mem_cons.mpr ⟨(String.ne_of_lt hlt).symm, fun x hx => ?_⟩
        exact (String.ne_of_lt (String.lt_trans hlt (hd x hx))).symm
      rw [List.mem_cons]
      exact or_congr_right (iff_self_and.mpr (hne e))
    · split
      · next heq =>
        have hne : ∀ x ∈ ds, x.1 ≠ name := fun x hx => heq ▸ (String.ne_of_lt (hd x hx)).symm
        rw [List.mem_cons, List.mem_cons]
        grind
      · next hne =>
        rw [List.mem_cons, List.mem_cons, ih]
        grind

theorem mem_entries_insert {m : NameMap α} {name : String} {a : α} {e : String × α} :
    e ∈ (m.insert name a).entries ↔ e = (name, a) ∨ e ∈ m.entries ∧ e.1 ≠ name :=
  mem_insertEntry_iff m.ascends

theorem mem_names_insert {m : NameMap α} {name other : String} {a : α} :
    other ∈ (m.insert name a).names ↔ other = name ∨ other ∈ m.names := by
  simp only [names, List.mem_map, mem_entries_insert]
  grind

theorem length_names (m : NameMap α) : m.names.length = m.size := List.length_map _

theorem contains_iff {m : NameMap α} {name : String} : m.contains name ↔ name ∈ m.names := by
  simp [contains, names]

theorem ascends_names (m : NameMap α) : m.names.Pairwise (· < ·) := List.pairwise_map.mpr m.ascends

theorem nodup_names (m : NameMap α) : m.names.Nodup := m.ascends_names.imp String.ne_of_lt

theorem get?_eq_some_iff {m : NameMap α} {name : String} {a : α} :
    m.get? name = some a ↔ (name, a) ∈ m.entries := by
  obtain ⟨es, ascends⟩ := m
  show es.lookup name = some a ↔ (name, a) ∈ es
  induction es with
  | nil => simp
  | cons e es ih =>
    obtain ⟨he, hes⟩ := List.pairwise_cons.mp ascends
    have ih := ih hes
    obtain ⟨n, b⟩ := e
    rw [List.lookup_cons, List.mem_cons, Prod.mk.injEq]
    by_cases hn : name = n
    · subst hn
      have hnot : (name, a) ∉ es := fun h => String.lt_irrefl name (he _ h)
      simp [hnot, eq_comm]
    · rw [beq_false_of_ne hn, ← ih]
      simp [hn]

theorem mem_names_iff {m : NameMap α} {name : String} :
    name ∈ m.names ↔ ∃ a, m.get? name = some a := by
  simp only [names, List.mem_map, get?_eq_some_iff]
  grind

theorem get?_insert (m : NameMap α) (name : String) (a : α) (other : String) :
    (m.insert name a).get? other = if other = name then some a else m.get? other := by
  refine Option.ext fun b => ?_
  rw [get?_eq_some_iff, mem_entries_insert, ← get?_eq_some_iff]
  split <;> grind

theorem get?_erase (m : NameMap α) (name other : String) :
    (m.erase name).get? other = if other = name then none else m.get? other := by
  refine Option.ext fun b => ?_
  rw [get?_eq_some_iff]
  show (other, b) ∈ m.entries.filter _ ↔ _
  rw [List.mem_filter, ← get?_eq_some_iff]
  split <;> grind

/-- Maps with the same entries are equal. -/
theorem ext_mem {m n : NameMap α} (h : ∀ e, e ∈ m.entries ↔ e ∈ n.entries) : m = n := by
  have nodup (m : NameMap α) : m.entries.Nodup := by
    refine m.ascends.imp ?_
    rintro a b hlt rfl
    exact String.lt_irrefl _ hlt
  refine ext ?_
  refine List.Perm.eq_of_pairwise (fun a b _ _ hab hba => ?_) m.ascends n.ascends
    ((List.perm_ext_iff_of_nodup (nodup m) (nodup n)).mpr h)
  exact absurd (String.lt_trans hab hba) (String.lt_irrefl _)

/-- Entries of different names may be put in either order. -/
theorem insert_comm {m : NameMap α} {x y : String} (h : x ≠ y) (a b : α) :
    (m.insert x a).insert y b = (m.insert y b).insert x a := by
  refine ext_mem fun e => ?_
  simp only [mem_entries_insert]
  grind

section Entries

variable {es fs : List (String × α)}

theorem mem_foldl_insert {m : NameMap α} {e : String × α} (hd : (es.map (·.1)).Nodup) :
    e ∈ (es.foldl (fun m e => m.insert e.1 e.2) m).entries ↔
      e ∈ es ∨ e ∈ m.entries ∧ e.1 ∉ es.map (·.1) := by
  induction es generalizing m with
  | nil => simp
  | cons d ds ih =>
    obtain ⟨hfresh, hds⟩ := List.nodup_cons.mp hd
    have hnot : e = d → e ∉ ds := fun h hm => hfresh (h ▸ List.mem_map_of_mem hm)
    have hname : e = d → e.1 ∉ ds.map (·.1) := fun h => h ▸ hfresh
    rw [List.foldl_cons, ih hds, mem_entries_insert, List.mem_cons, List.map_cons, List.mem_cons]
    grind

/-- A map of entries with distinct names has just those entries. -/
theorem mem_ofList {e : String × α} (hd : (es.map (·.1)).Nodup) :
    e ∈ (ofList es).entries ↔ e ∈ es := by
  rw [ofList, mem_foldl_insert hd]
  simp [empty]

theorem ofList_perm (hd : (es.map (·.1)).Nodup) (h : es.Perm fs) : ofList es = ofList fs := by
  have hf : (fs.map (·.1)).Nodup := (h.map _).nodup_iff.mp hd
  exact ext_mem fun e => by rw [mem_ofList hd, mem_ofList hf, h.mem_iff]

/-- The entries of a map may be put into an empty one in any order. -/
theorem ofList_of_perm {m : NameMap α} (h : es.Perm m.entries) : ofList es = m := by
  have hd : (es.map (·.1)).Nodup := (h.map _).nodup_iff.mpr m.nodup_names
  rw [ofList_perm hd h, ofList_entries]

end Entries

theorem eq_of_mem {es fs : List (String × α)} (he : Ascends es) (hf : Ascends fs)
    (h : ∀ e, e ∈ es ↔ e ∈ fs) : es = fs :=
  congrArg entries (ext_mem (m := ⟨es, he⟩) (n := ⟨fs, hf⟩) h)

end GrammarTables.NameMap
