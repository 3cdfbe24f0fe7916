import GrammarTables.Proofs.Json.Edits
import GrammarTables.Proofs.Rule.Taken

/-!
# Edits of rules

Edits of a document that is read as a rule, at any depth, which leave it a rule and the same one.
-/

namespace GrammarTables.Rule

open Json (Clause Doc Keeps ItemEdit RecordEdit Replaced inside)

/-- The keys of the fields that may be null. -/
def optionalKeys : List String :=
  ["value", "name", "content", "named", "flags", "context_name"]

theorem members_not_optional : "members" ∉ optionalKeys := by decide

/-- An edit of a rule itself, or of a rule in its content or among its members. -/
inductive Edit : Doc → Doc → Prop where
  | record {v w : Doc} : RecordEdit keys optionalKeys v w → Edit v w
  | content {v w v' w' : Doc} : Edit v w → Replaced keys "content" v w v' w' → Edit v' w'
  | member {front back : List Doc} {v w v' w' : Doc} : Edit v w →
      Replaced keys "members" (.list (front ++ v :: back)) (.list (front ++ w :: back)) v' w' →
      Edit v' w'

variable {v w : Doc}

theorem Edit.ne_null (h : Edit v w) : v ≠ .null := by
  cases h with
  | record h => exact Json.ne_null_of_recordEdit h
  | content _ h => exact Json.ne_null_of_replaced h
  | member _ h => exact Json.ne_null_of_replaced h

/-! ## A rule stays one -/

theorem fit_takenFields (room : Nat) (content : Doc → Prop) (member : Option (Doc → Prop)) :
    Clause.Fit keys optionalKeys (takenFields room content member) where
  keys := rfl
  nodup := nodup_keys
  null := by
    refine List.forall_mem_cons.mpr ⟨fun _ => False.elim, ?_⟩
    iterate 3 refine List.forall_mem_cons.mpr ⟨fun _ _ => .inl rfl, ?_⟩
    refine List.forall_mem_cons.mpr ⟨fun h => absurd h members_not_optional, ?_⟩
    iterate 2 refine List.forall_mem_cons.mpr ⟨fun _ _ => .inl rfl, ?_⟩
    exact List.forall_mem_singleton.mpr fun _ _ => .inl rfl

theorem ruleWithin_of_content {v' w' : Doc} (hr : Replaced keys "content" v w v' w')
    (hnull : v ≠ .null) (h : ∀ room, v.RuleWithin room → w.RuleWithin room) (room : Nat)
    (hv : v'.RuleWithin room) : w'.RuleWithin room := by
  obtain ⟨inner, rfl, hrecord⟩ := ruleWithin_iff.mp hv
  have hcontent := Json.optionalOf_imp (h inner) hnull
  exact ruleWithin_iff.mpr
    ⟨inner, rfl, (fit_takenFields ..).record_replaced hr (i := 3) rfl hcontent hrecord⟩

theorem ruleWithin_of_member {front back : List Doc} {v' w' : Doc}
    (hr : Replaced keys "members" (.list (front ++ v :: back)) (.list (front ++ w :: back)) v' w')
    (h : ∀ room, v.RuleWithin room → w.RuleWithin room) (room : Nat) (hv : v'.RuleWithin room) :
    w'.RuleWithin room := by
  obtain ⟨inner, rfl, hrecord⟩ := ruleWithin_iff.mp hv
  -- within the list it matters only that a rule of any depth stays one
  have hitem : ItemEdit (fun v w => ∀ r, v.RuleWithin r → w.RuleWithin r)
      (.list (front ++ v :: back)) (.list (front ++ w :: back)) := .mk h
  have hlist : Doc.ListOf (inside Doc.RuleWithin inner) _ → Doc.ListOf _ _ :=
    Keeps.list (Json.forall_mem_inside fun r _ _ _ h => h r) _ _ hitem
  exact ruleWithin_iff.mpr
    ⟨inner, rfl, (fit_takenFields ..).record_replaced hr (i := 4) rfl hlist hrecord⟩

theorem Edit.ruleWithin (h : Edit v w) (room : Nat) (hv : v.RuleWithin room) :
    w.RuleWithin room := by
  induction h generalizing room with
  | record hE =>
    obtain ⟨inner, rfl, hrecord⟩ := ruleWithin_iff.mp hv
    exact ruleWithin_iff.mpr ⟨inner, rfl, (fit_takenFields ..).record _ _ hE hrecord⟩
  | content h hr ih => exact ruleWithin_of_content hr h.ne_null ih room hv
  | member _ hr ih => exact ruleWithin_of_member hr ih room hv

/-! ## A rule stays the same -/

theorem fit_clauses (r : Rule) : Clause.Fit keys optionalKeys r.clauses where
  keys := rfl
  nodup := nodup_keys
  null := by
    refine List.forall_mem_cons.mpr ⟨fun _ => False.elim, ?_⟩
    iterate 3 refine List.forall_mem_cons.mpr ⟨fun _ => Json.denotesOptional_null, ?_⟩
    refine List.forall_mem_cons.mpr ⟨fun h => absurd h members_not_optional, ?_⟩
    iterate 2 refine List.forall_mem_cons.mpr ⟨fun _ => Json.denotesOptional_null, ?_⟩
    exact List.forall_mem_singleton.mpr fun _ => Json.denotesOptional_null

theorem Edit.denotesRule (h : Edit v w) (r : Rule) (hv : v.DenotesRule r) : w.DenotesRule r := by
  induction h generalizing r with
  | record hE =>
    rw [Doc.denotesRule_eq] at hv ⊢
    exact (fit_clauses r).denotesRecord _ _ hE hv
  | content h hr ih =>
    rw [Doc.denotesRule_eq] at hv ⊢
    exact (fit_clauses r).denotesRecord_replaced hr (i := 3) rfl
      (Json.denotesOptional_imp ih h.ne_null) hv
  | @member front back v w _ _ _ hr ih =>
    rw [Doc.denotesRule_eq] at hv ⊢
    have hitem : ItemEdit (fun v w => ∀ r, v.DenotesRule r → w.DenotesRule r)
        (.list (front ++ v :: back)) (.list (front ++ w :: back)) := .mk ih
    have hlist := Keeps.denotesList (fun r _ _ h => h r) r.members _ _ hitem
    exact (fit_clauses r).denotesRecord_replaced hr (i := 4) rfl hlist hv

end GrammarTables.Rule
