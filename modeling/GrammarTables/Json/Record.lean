import GrammarTables.Json.Decoder

/-!
# Records and variants

A record is written as an object, or as a list of its fields in their order.
An object may have members that are no fields, which are passed over, but no
field twice; a list may end early. Either way every required field has to be
there.

A fault in the record itself, rather than in the text of one of its values, is
placed behind the closing bracket if that comes next.
-/

namespace GrammarTables.Json

/-- A field of the records of type `R`. A value that is well-formed may still be refused. -/
structure Field (R : Type) where
  key : String
  required : Bool
  read : Decoder (R → Except Problem R)

namespace Field

variable {R α : Type}

/-- A field that has to be there. -/
def ofRequired (key : String) (d : Decoder α) (set : α → R → R) : Field R :=
  ⟨key, true, d.map fun a r => .ok (set a r)⟩

/-- A field that may be left out. -/
def ofDefault (key : String) (d : Decoder α) (set : α → R → R) : Field R :=
  ⟨key, false, d.map fun a r => .ok (set a r)⟩

/-- A field that may be left out, or be null. -/
def ofOptional (key : String) (d : Decoder α) (set : Option α → R → R) : Field R :=
  ofDefault key d.optional set

end Field

/-- The fields of a record in their order, and the record before any of them is read. -/
structure Layout (R : Type) where
  name : String
  fields : List (Field R)
  blank : R

/-- The rest of the text for a fault inside an object: its end is taken if it comes next. -/
def leaveObject (s : List Char) : List Char :=
  match dropBlank s with
  | '}' :: r => r
  | r => r

/-- The rest of the text for a fault inside a list: its end, or a comma, is taken if it comes next. -/
def leaveList (s : List Char) : List Char :=
  match dropBlank s with
  | ']' :: r => r
  | ',' :: r => dropBlank r
  | r => r

/-- The end of a list that may hold no more items. -/
def closeList (s : List Char) : Except Failure (List Char) :=
  match dropBlank s with
  | [] => .error (Problem.eofInList.on [])
  | ']' :: r => .ok r
  | ',' :: r =>
    match dropBlank r with
    | ']' :: t => .error (Problem.trailingComma.on (']' :: t))
    | t => .error (Problem.trailingCharacters.on t)
  | t => .error (Problem.trailingCharacters.on t)

theorem length_of_closeList {s r : List Char} (h : closeList s = .ok r) : r.length < s.length := by
  unfold closeList at h
  split at h
  · cases h
  · next ht =>
    cases h
    exact length_lt_of_dropBlank ht
  · split at h <;> cases h
  · cases h

namespace Layout

variable {R : Type}

/-- The record as it is named in a complaint about its kind. -/
def title (l : Layout R) : String := "struct " ++ l.name

/-- The record as it is named in a complaint about its length. -/
def titleWithSize (l : Layout R) : String :=
  l.title ++ " with " ++ toString l.fields.length ++ " elements"

def field? (l : Layout R) (key : String) : Option (Field R) := l.fields.find? (·.key == key)

/-- The first field that has to be there and has not been seen. -/
def missing? (l : Layout R) (seen : List String) : Option (Field R) :=
  l.fields.find? fun f => f.required && !seen.contains f.key

/-! ## As an object -/

/-- Reads the value of a field and puts it into the record. -/
def readField (f : Field R) (r : R) (s : List Char) : Except Failure (R × List Char) :=
  match memberValue f.read s with
  | .error e => .error e
  | .ok (set, t) =>
    match set r with
    | .error p => .error (p.before (leaveObject t))
    | .ok r => .ok (r, t)

theorem length_of_readField {f : Field R} {r r' : R} {s t : List Char}
    (h : readField f r s = .ok (r', t)) : t.length < s.length := by
  unfold readField at h
  split at h
  · cases h
  · next hm =>
    split at h
    · cases h
    · cases h
      exact length_of_memberValue hm

/-- Reads the members of an object into the record `r`, of which the fields `seen` are set. -/
def readMembers (l : Layout R) (seen : List String) (r : R) (first : Bool) (s : List Char) :
    Except Failure (R × List Char) :=
  match _h : nextKey first s with
  | .error e => .error e
  | .ok (.close t) =>
    match l.missing? seen with
    | some f => .error ((Problem.missingField f.key).before t)
    | none => .ok (r, t)
  | .ok (.key k t) =>
    match l.field? k with
    | none =>
      match _hv : memberValue .ignored t with
      | .error e => .error e
      | .ok (_, u) => readMembers l seen r false u
    | some f =>
      if seen.contains k then .error ((Problem.duplicateField k).before (leaveObject t))
      else
        match _hv : readField f r t with
        | .error e => .error e
        | .ok (r, u) => readMembers l (k :: seen) r false u
termination_by s.length
decreasing_by
  · exact Nat.lt_trans (length_of_memberValue _hv) (length_of_nextKey_key _h)
  · exact Nat.lt_trans (length_of_readField _hv) (length_of_nextKey_key _h)

theorem length_of_readMembers {l : Layout R} {seen : List String} {r r' : R} {first : Bool}
    {s t : List Char} (h : l.readMembers seen r first s = .ok (r', t)) : t.length < s.length := by
  fun_induction readMembers l seen r first s with
  | case1 => cases h
  | case2 => cases h
  | case3 seen r first s u hn =>
    cases h
    exact length_of_nextKey_close hn
  | case4 => cases h
  | case5 seen r first s k u hn _ _ v hv ih =>
    have h1 := length_of_nextKey_key hn
    have h2 := length_of_memberValue hv
    have h3 := ih h
    omega
  | case6 => cases h
  | case7 => cases h
  | case8 seen r first s k u hn f _ _ r1 v hv ih =>
    have h1 := length_of_nextKey_key hn
    have h2 := length_of_readField hv
    have h3 := ih h
    omega

/-! ## As a list -/

/-- Reads the items of a list into the given fields of the record `r`, of which the first is number
`index`. -/
def readItems (l : Layout R) : List (Field R) → Nat → R → List Char → Except Failure (R × List Char)
  | [], _, r, s => (closeList s).map (r, ·)
  | f :: fs, index, r, s =>
    match nextItem (index == 0) s with
    | .error e => .error e
    | .ok (.close t) =>
      match (f :: fs).findIdx? (·.required) with
      | some k => .error ((Problem.wrongLength (index + k) l.titleWithSize).before t)
      | none => .ok (r, t)
    | .ok (.item t) =>
      match f.read.run t with
      | .error e => .error e
      | .ok (set, u) =>
        match set r with
        | .error p => .error (p.before (leaveList u))
        | .ok r => readItems l fs (index + 1) r u

theorem length_of_readItems {l : Layout R} {fs : List (Field R)} {index : Nat} {r r' : R}
    {s t : List Char} (h : l.readItems fs index r s = .ok (r', t)) : t.length < s.length := by
  induction fs generalizing index r s with
  | nil =>
    unfold readItems at h
    cases hc : closeList s with
    | error e => simp [hc, Except.map] at h
    | ok u =>
      simp only [hc, Except.map, Except.ok.injEq, Prod.mk.injEq] at h
      exact h.2 ▸ length_of_closeList hc
  | cons f fs ih =>
    unfold readItems at h
    split at h
    · cases h
    · next hn =>
      split at h
      · cases h
      · cases h
        exact length_of_nextItem_close hn
    · next hn =>
      have h1 := length_of_nextItem_item hn
      split at h
      · cases h
      · next hr =>
        have h2 := f.read.shortens hr
        split at h
        · cases h
        · have h3 := ih h
          omega

end Layout

/-- A record, in either form. There is a layout for its fields unless its bracket nests too deeply;
`name` is the record's name even then. -/
def Decoder.record {R : Type} (name : String) (layout : Option (Layout R)) : Decoder R where
  run s :=
    match dropBlank s with
    | '{' :: r =>
      match layout with
      | none => .error (tooDeep ('{' :: r))
      | some l => l.readMembers [] l.blank true r
    | '[' :: r =>
      match layout with
      | none => .error (tooDeep ('[' :: r))
      | some l => l.readItems l.fields 0 l.blank r
    | t => .error (misfit ("struct " ++ name) t)
  shortens {s a r} h := by
    repeat' split at h
    all_goals try cases h
    · next ht _ _ => exact Nat.lt_trans (Layout.length_of_readMembers h) (length_lt_of_dropBlank ht)
    · next ht _ _ => exact Nat.lt_trans (Layout.length_of_readItems h) (length_lt_of_dropBlank ht)

/-! ## Variants -/

section Variants

variable {α : Type}

/-- The value that goes by a name, which has to be one of the known ones. -/
def known (variants : List (String × α)) (name : String) : Except Problem α :=
  match variants.lookup name with
  | some a => .ok a
  | none => .error (.unknownVariant name (variants.map (·.1)))

/-- Reads a name of a variant, behind its opening quote. -/
def readVariant (variants : List (String × α)) (s : List Char) : Except Failure (α × List Char) :=
  match readString s with
  | .error e => .error e
  | .ok (t, r) =>
    match known variants (String.ofList t) with
    | .error p => .error (p.before r)
    | .ok a => .ok (a, r)

theorem length_of_readVariant {variants : List (String × α)} {s r : List Char} {a : α}
    (h : readVariant variants s = .ok (a, r)) : r.length < s.length := by
  unfold readVariant at h
  split at h
  · cases h
  · next hs =>
    split at h
    · cases h
    · cases h
      exact length_of_readString hs

/-- The end of an object that has only one member. -/
def closeVariant (s : List Char) : Except Failure (List Char) :=
  match dropBlank s with
  | [] => .error (Problem.eofInObject.before [])
  | '}' :: r => .ok r
  | r => .error (Problem.expectedValue.before r)

theorem length_of_closeVariant {s r : List Char} (h : closeVariant s = .ok r) :
    r.length < s.length := by
  unfold closeVariant at h
  split at h
  · cases h
  · next ht =>
    cases h
    exact length_lt_of_dropBlank ht
  · cases h

/-- Reads a variant as an object of its name and null, behind the opening brace. -/
def readVariantObject (variants : List (String × α)) (s : List Char) :
    Except Failure (α × List Char) :=
  match dropBlank s with
  | [] => .error (Problem.eofInObject.on [])
  | '}' :: r => .error (Problem.expectedValue.on ('}' :: r))
  | '"' :: r =>
    match readVariant variants r with
    | .error e => .error e
    | .ok (a, r) =>
      match memberValue .unit r with
      | .error e => .error e
      | .ok (_, r) => (closeVariant r).map (a, ·)
  | r => .error (Problem.keyMustBeString.on r)

theorem length_of_readVariantObject {variants : List (String × α)} {s r : List Char} {a : α}
    (h : readVariantObject variants s = .ok (a, r)) : r.length < s.length := by
  unfold readVariantObject at h
  split at h
  · cases h
  · cases h
  · next ht =>
    have h1 := length_lt_of_dropBlank ht
    split at h
    · cases h
    · next hv =>
      have h2 := length_of_readVariant hv
      split at h
      · cases h
      · next u hm =>
        have h3 := length_of_memberValue hm
        cases hc : closeVariant u with
        | error e => simp [hc, Except.map] at h
        | ok w =>
          have h4 := length_of_closeVariant hc
          simp only [hc, Except.map, Except.ok.injEq, Prod.mk.injEq] at h
          rw [← h.2]
          omega
  · cases h

end Variants

/-- One of the variants, by its name. `room` is how deep brackets may nest. -/
def Decoder.variant {α : Type} (variants : List (String × α)) (room : Nat) : Decoder α where
  run s :=
    match dropBlank s with
    | [] => .error (Problem.eofInValue.on [])
    | '"' :: r => readVariant variants r
    | '{' :: r => if room = 0 then .error (tooDeep ('{' :: r)) else readVariantObject variants r
    | r => .error (Problem.expectedValue.on r)
  shortens {s a r} h := by
    split at h
    · cases h
    · next ht => exact Nat.lt_trans (length_of_readVariant h) (length_lt_of_dropBlank ht)
    · next ht =>
      split at h
      · cases h
      · exact Nat.lt_trans (length_of_readVariantObject h) (length_lt_of_dropBlank ht)
    · cases h

end GrammarTables.Json
