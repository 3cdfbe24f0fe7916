import GrammarTables.Json.Record

/-!
# Steps between brackets

What the readers of lists, objects and records do with the next thing between
the brackets: stop at the closing bracket, or read an item or a member and go
on with the others.
-/

namespace GrammarTables.Json

section Values

variable {α : Type} {d : Decoder α} {first : Bool} {s t : List Char} {k : String}

theorem items_close (h : nextItem first s = .ok (.close t)) : items d first s = .ok ([], t) := by
  rw [items]
  split <;> rename_i h' <;> rw [h] at h' <;> cases h'
  rfl

theorem items_item (h : nextItem first s = .ok (.item t)) :
    items d first s = match d.run t with
      | .error e => .error e
      | .ok (a, r) => (items d false r).map fun (as, r) => (a :: as, r) := by
  rw [items]
  split <;> rename_i h' <;> rw [h] at h' <;> cases h'
  split <;> next hr => rw [hr]

theorem members_close (h : nextKey first s = .ok (.close t)) : members d first s = .ok ([], t) := by
  rw [members]
  split <;> rename_i h' <;> rw [h] at h' <;> cases h'
  rfl

theorem members_key (h : nextKey first s = .ok (.key k t)) :
    members d first s = match memberValue d t with
      | .error e => .error e
      | .ok (a, r) => (members d false r).map fun (ms, r) => ((k, a) :: ms, r) := by
  rw [members]
  split <;> rename_i h' <;> rw [h] at h' <;> cases h'
  split <;> next hr => rw [hr]

end Values

namespace Layout

variable {R : Type} {l : Layout R} {seen : List String} {r : R} {first : Bool} {s t : List Char}
  {k : String} {f : Field R}

theorem readMembers_close (h : nextKey first s = .ok (.close t)) :
    l.readMembers seen r first s = match l.missing? seen with
      | some f => .error ((Problem.missingField f.key).before t)
      | none => .ok (r, t) := by
  rw [readMembers]
  split <;> rename_i h' <;> rw [h] at h' <;> cases h'
  rfl

theorem readMembers_unknown (h : nextKey first s = .ok (.key k t)) (hf : l.field? k = none) :
    l.readMembers seen r first s = match memberValue .ignored t with
      | .error e => .error e
      | .ok (_, u) => l.readMembers seen r false u := by
  rw [readMembers]
  split <;> rename_i h' <;> rw [h] at h' <;> cases h'
  split <;> rename_i hf' <;> rw [hf] at hf' <;> cases hf'
  split <;> next hr => rw [hr]

theorem readMembers_field (h : nextKey first s = .ok (.key k t)) (hf : l.field? k = some f)
    (hk : k ∉ seen) :
    l.readMembers seen r first s = match readField f r t with
      | .error e => .error e
      | .ok (r, u) => l.readMembers (k :: seen) r false u := by
  rw [readMembers]
  split <;> rename_i h' <;> rw [h] at h' <;> cases h'
  split <;> rename_i hf' <;> rw [hf] at hf' <;> cases hf'
  rw [if_neg (by simpa using hk)]
  split <;> next hr => rw [hr]

end Layout

end GrammarTables.Json
