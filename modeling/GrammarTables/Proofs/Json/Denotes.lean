import GrammarTables.NameMap
import GrammarTables.Proofs.Json.Document
import Mathlib.Data.List.Forall2

/-!
# What documents denote

The values that a document may stand for. These relations know nothing of how a text is read: a map
goes by the last member of each key, and a record by the only one, or by the place in a list.
-/

namespace GrammarTables.Json

/-- The last member with the key has the value `v`. -/
def LastMember (ms : List (List Nat × Doc)) (key : List Nat) (v : Doc) : Prop :=
  ∃ front back, ms = front ++ (key, v) :: back ∧ key ∉ back.map Prod.fst

/-- Just one member has the key, and the value `v`. -/
def OnlyMember (ms : List (List Nat × Doc)) (key : List Nat) (v : Doc) : Prop :=
  ∃ front back, ms = front ++ (key, v) :: back ∧ key ∉ front.map Prod.fst ∧
    key ∉ back.map Prod.fst

/-- The units are those of a text, as a reader of keys wants them. -/
def IsKey (units : List Nat) : Prop := ∃ key, units = codeUnits key

namespace Doc

variable {α : Type}

/-! ## Values -/

def DenotesText (v : Doc) (s : String) : Prop := v = .string (codeUnits s)

def DenotesBool (v : Doc) (b : Bool) : Prop := v = .bool b

inductive DenotesOptional (P : Doc → α → Prop) : Doc → Option α → Prop where
  | null : DenotesOptional P .null none
  | some {v : Doc} {a : α} : P v a → DenotesOptional P v (some a)

inductive DenotesList (P : Doc → α → Prop) : Doc → List α → Prop where
  | mk {vs : List Doc} {as : List α} : List.Forall₂ P vs as → DenotesList P (.list vs) as

/-- The names of the map are the keys of the object. -/
inductive DenotesMap (P : Doc → α → Prop) : Doc → NameMap α → Prop where
  | mk {ms : List (List Nat × Doc)} {m : NameMap α}
      (keys : ∀ key, key ∈ ms.map Prod.fst ↔ key ∈ m.names.map codeUnits)
      (last : ∀ e ∈ m.entries, ∃ v, LastMember ms (codeUnits e.1) v ∧ P v e.2) :
      DenotesMap P (.object ms) m

/-- A variant goes by its name, or by an object that has null under that name. -/
def DenotesVariant (v : Doc) (name : String) : Prop :=
  v = .string (codeUnits name) ∨ v = .object [(codeUnits name, .null)]

inductive DenotesMember (P : Doc → α → Prop) : List Nat × Doc → String × α → Prop where
  | mk {v : Doc} {name : String} {a : α} : P v a →
      DenotesMember P (codeUnits name, v) (name, a)

inductive DenotesJson : Doc → Json → Prop where
  | null : DenotesJson .null .null
  | bool {b : Bool} : DenotesJson (.bool b) (.bool b)
  | number {n : Numeral} {x : Number} : n.value = .ok x → DenotesJson (.number n) (.number x)
  | string {s : String} : DenotesJson (.string (codeUnits s)) (.string s)
  | list {vs : List Doc} {js : List Json} : List.Forall₂ DenotesJson vs js →
      DenotesJson (.list vs) (.list js)
  | object {ms : List (List Nat × Doc)} {es : List (String × Json)} :
      List.Forall₂ (DenotesMember DenotesJson) ms es → DenotesJson (.object ms) (.object es)

end Doc

/-! ## Records -/

/-- A field of a record and what has to hold of its value, or of the record if it is left out. -/
structure Clause where
  key : String
  Present : Doc → Prop
  Absent : Prop

namespace Clause

variable {α : Type}

/-- The value of a field that has to be there. -/
def required (key : String) (P : Doc → α → Prop) (a : α) : Clause := ⟨key, (P · a), False⟩

/-- The value of a field that is `a₀` if it is left out. -/
def default (key : String) (P : Doc → α → Prop) (a₀ a : α) : Clause := ⟨key, (P · a), a = a₀⟩

/-- The value of a field that may be left out, or be null. -/
def optional (key : String) (P : Doc → α → Prop) (a : Option α) : Clause :=
  default key (Doc.DenotesOptional P) none a

/-- The members of an object meet the clause. -/
inductive MetBy (c : Clause) (ms : List (List Nat × Doc)) : Prop where
  | once {v : Doc} : OnlyMember ms (codeUnits c.key) v → c.Present v → MetBy c ms
  | absent : codeUnits c.key ∉ ms.map Prod.fst → c.Absent → MetBy c ms

/-- The items of a list meet the clauses in their order. -/
inductive MetInOrder : List Clause → List Doc → Prop where
  | rest {cs : List Clause} : (∀ c ∈ cs, c.Absent) → MetInOrder cs []
  | item {c : Clause} {cs : List Clause} {v : Doc} {vs : List Doc} : c.Present v →
      MetInOrder cs vs → MetInOrder (c :: cs) (v :: vs)

end Clause

/-- A record as an object, or as a list of its fields. -/
inductive Doc.DenotesRecord (cs : List Clause) : Doc → Prop where
  | object {ms : List (List Nat × Doc)} : (∀ c ∈ cs, c.MetBy ms) → DenotesRecord cs (.object ms)
  | list {vs : List Doc} : Clause.MetInOrder cs vs → DenotesRecord cs (.list vs)

/-- If the document is an object, its keys are texts. -/
def Doc.HasKeys (v : Doc) : Prop := ∀ ms, v = .object ms → ∀ m ∈ ms, IsKey m.1

theorem Doc.hasKeys_object {ms : List (List Nat × Doc)} :
    (object ms).HasKeys ↔ ∀ m ∈ ms, IsKey m.1 :=
  ⟨fun h => h ms rfl, fun h _ heq => object.inj heq ▸ h⟩

theorem Doc.hasKeys_list (vs : List Doc) : (list vs).HasKeys := by
  intro ms h
  cases h

/-! ## Members -/

section Members

variable {ms : List (List Nat × Doc)} {key : List Nat} {v : Doc}

theorem not_mem_keys_append (h : key ∉ ms.map Prod.fst) {other : List Nat} {w : Doc}
    (hne : key ≠ other) : key ∉ (ms ++ [(other, w)]).map Prod.fst := by
  rw [List.map_append, List.mem_append]
  rintro (hms | hother)
  · exact h hms
  · exact hne (List.mem_singleton.mp hother)

theorem LastMember.concat (ms : List (List Nat × Doc)) (key : List Nat) (v : Doc) :
    LastMember (ms ++ [(key, v)]) key v :=
  ⟨ms, [], rfl, nofun⟩

theorem LastMember.append (h : LastMember ms key v) {other : List Nat} {w : Doc}
    (hne : key ≠ other) : LastMember (ms ++ [(other, w)]) key v := by
  obtain ⟨front, back, rfl, hback⟩ := h
  exact ⟨front, back ++ [(other, w)], by simp, not_mem_keys_append hback hne⟩

theorem OnlyMember.concat (h : key ∉ ms.map Prod.fst) (v : Doc) :
    OnlyMember (ms ++ [(key, v)]) key v :=
  ⟨ms, [], rfl, h, nofun⟩

theorem OnlyMember.append (h : OnlyMember ms key v) {other : List Nat} {w : Doc}
    (hne : key ≠ other) : OnlyMember (ms ++ [(other, w)]) key v := by
  obtain ⟨front, back, rfl, hfront, hback⟩ := h
  exact ⟨front, back ++ [(other, w)], by simp, hfront, not_mem_keys_append hback hne⟩

end Members

end GrammarTables.Json
