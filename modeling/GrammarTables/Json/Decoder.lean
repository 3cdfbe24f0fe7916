import GrammarTables.Decimal.Notation
import GrammarTables.Json.Skip
import GrammarTables.NameMap
import GrammarTables.Text.Quoted

/-!
# Decoders

A decoder reads one value off the front of a text and leaves the rest, which is
always shorter. Lists, maps and values of unknown kind are read by decoders
that are built from the decoders of what they hold.

How deeply brackets may nest is limited, so a decoder of something in brackets
takes the decoder of the inner values as an option: there is none where one
more bracket would be one too many.
-/

namespace GrammarTables.Json

/-- A reader of one value, which gives the value and the text behind it. -/
structure Decoder (α : Type) where
  run : List Char → Except Failure (α × List Char)
  shortens : ∀ {s a r}, run s = .ok (a, r) → r.length < s.length

/-! ## Values without parts -/

/-- Reads a value that is neither a list nor an object. -/
def readScalar : List Char → Except Failure (Json × List Char)
  | [] => .error (Problem.eofInValue.on [])
  | c :: s =>
    if c = 'n' then (word "ull".toList s).map (.null, ·)
    else if c = 't' then (word "rue".toList s).map (.bool true, ·)
    else if c = 'f' then (word "alse".toList s).map (.bool false, ·)
    else if c = '"' then (readString s).map fun (t, r) => (.string (String.ofList t), r)
    else if c = '-' ∨ isDigit c then (readNumber (c :: s)).map fun (n, r) => (.number n, r)
    else .error (Problem.expectedValue.on (c :: s))

theorem length_of_readScalar {s r : List Char} {v : Json} (h : readScalar s = .ok (v, r)) :
    r.length < s.length := by
  unfold readScalar at h
  split at h
  · cases h
  · next c t =>
    simp only [Except.map] at h
    repeat' split at h
    all_goals try cases h
    all_goals simp only [List.length_cons]
    · next hs => exact Nat.lt_succ_of_le (length_of_word hs)
    · next hs => exact Nat.lt_succ_of_le (length_of_word hs)
    · next hs => exact Nat.lt_succ_of_le (length_of_word hs)
    · next hs => exact Nat.lt_succ_of_lt (length_of_readString hs)
    · next hs => simpa using length_of_readNumber hs

/-- A value as it is named in a complaint about its kind. -/
def kindText : Json → String
  | .null => "null"
  | .bool b => "boolean `" ++ toString b ++ "`"
  | .number (.whole n) => "integer `" ++ toString n ++ "`"
  | .number (.double x) => "floating point `" ++ Decimal.ofFloat x ++ "`"
  | .string s => "string " ++ Text.quoted s
  | .list _ => "sequence"
  | .object _ => "map"

/-- The failure of a value at the front of `s` that is not of the expected kind. It is read first,
unless it is in brackets, so that a fault inside it comes out before its kind. -/
def misfit (expected : String) : List Char → Failure
  | [] => Problem.eofInValue.on []
  | '[' :: s => (Problem.wrongType (kindText (.list [])) expected).before ('[' :: s)
  | '{' :: s => (Problem.wrongType (kindText (.object [])) expected).before ('{' :: s)
  | s =>
    match readScalar s with
    | .error e => e
    | .ok (v, r) => (Problem.wrongType (kindText v) expected).before r

/-- The failure of a bracket at the front of `s` that nests too deeply. -/
def tooDeep (s : List Char) : Failure := Problem.nestedTooDeep.on s

namespace Decoder

variable {α β : Type}

def map (f : α → β) (d : Decoder α) : Decoder β where
  run s := (d.run s).map fun (a, r) => (f a, r)
  shortens {s b r} h := by
    cases hd : d.run s with
    | error e => simp [hd, Except.map] at h
    | ok p =>
      simp only [hd, Except.map, Except.ok.injEq, Prod.mk.injEq] at h
      exact h.2 ▸ d.shortens hd

def string : Decoder String where
  run s :=
    match dropBlank s with
    | '"' :: r => (readString r).map fun (t, r) => (String.ofList t, r)
    | t => .error (misfit "a string" t)
  shortens {s a r} h := by
    split at h
    · next t ht =>
      have := length_lt_of_dropBlank ht
      cases hs : readString t with
      | error e => simp [hs, Except.map] at h
      | ok p =>
        have := length_of_readString hs
        simp only [hs, Except.map, Except.ok.injEq, Prod.mk.injEq] at h
        rw [← h.2]
        omega
    · cases h

def bool : Decoder Bool where
  run s :=
    match dropBlank s with
    | 't' :: r => (word "rue".toList r).map (true, ·)
    | 'f' :: r => (word "alse".toList r).map (false, ·)
    | t => .error (misfit "a boolean" t)
  shortens {s a r} h := by
    simp only [Except.map] at h
    repeat' split at h
    all_goals try cases h
    · next ht _ hw => exact Nat.lt_of_le_of_lt (length_of_word hw) (length_lt_of_dropBlank ht)
    · next ht _ hw => exact Nat.lt_of_le_of_lt (length_of_word hw) (length_lt_of_dropBlank ht)

/-- Reads `null` and nothing else. -/
def unit : Decoder Unit where
  run s :=
    match dropBlank s with
    | 'n' :: r => (word "ull".toList r).map ((), ·)
    | t => .error (misfit "unit" t)
  shortens {s a r} h := by
    simp only [Except.map] at h
    repeat' split at h
    all_goals try cases h
    next ht _ hw => exact Nat.lt_of_le_of_lt (length_of_word hw) (length_lt_of_dropBlank ht)

/-- Reads `null` as nothing, and all else with `d`. -/
def optional (d : Decoder α) : Decoder (Option α) where
  run s :=
    match dropBlank s with
    | 'n' :: r => (word "ull".toList r).map (none, ·)
    | _ => (d.run s).map fun (a, r) => (some a, r)
  shortens {s a r} h := by
    simp only [Except.map] at h
    repeat' split at h
    all_goals try cases h
    · next ht _ hw => exact Nat.lt_of_le_of_lt (length_of_word hw) (length_lt_of_dropBlank ht)
    · next hd => exact d.shortens hd

/-- Passes over a value. -/
def ignored : Decoder Unit where
  run s := (skipValue s).map ((), ·)
  shortens {s a r} h := by
    cases hs : skipValue s with
    | error e => simp [hs, Except.map] at h
    | ok t =>
      simp only [hs, Except.map, Except.ok.injEq, Prod.mk.injEq] at h
      exact h.2 ▸ length_of_skipValue hs

end Decoder

/-! ## Lists -/

/-- What comes next between brackets: their end, or an item at the front of the rest. -/
inductive Next where
  | close (rest : List Char)
  | item (rest : List Char)

def nextItem (first : Bool) (s : List Char) : Except Failure Next :=
  match dropBlank s with
  | [] => .error (Problem.eofInList.on [])
  | c :: r =>
    if c = ']' then .ok (.close r)
    else if first then .ok (.item (c :: r))
    else if c = ',' then
      match dropBlank r with
      | [] => .error (Problem.eofInValue.on [])
      | d :: t =>
        if d = ']' then .error (Problem.trailingComma.on (d :: t)) else .ok (.item (d :: t))
    else .error (Problem.expectedListCommaOrEnd.on (c :: r))

theorem length_of_nextItem_item {first : Bool} {s r : List Char}
    (h : nextItem first s = .ok (.item r)) : r.length ≤ s.length := by
  have hs := length_dropBlank_le s
  unfold nextItem at h
  split at h
  · cases h
  · next c t ht =>
    rw [ht] at hs
    repeat' split at h
    all_goals try cases h
    · exact hs
    · next hu _ =>
      have h1 := length_dropBlank_le t
      rw [hu] at h1
      simp only [List.length_cons] at hs h1 ⊢
      omega

theorem length_of_nextItem_close {first : Bool} {s r : List Char}
    (h : nextItem first s = .ok (.close r)) : r.length < s.length := by
  unfold nextItem at h
  split at h
  · cases h
  · next c t ht =>
    have := length_lt_of_dropBlank ht
    repeat' split at h
    all_goals try cases h
    exact this

/-- The items of a list, up to its end. -/
def items {α : Type} (item : Decoder α) (first : Bool) (s : List Char) :
    Except Failure (List α × List Char) :=
  match _h : nextItem first s with
  | .error e => .error e
  | .ok (.close r) => .ok ([], r)
  | .ok (.item t) =>
    match _hr : item.run t with
    | .error e => .error e
    | .ok (a, r) => (items item false r).map fun (as, r) => (a :: as, r)
termination_by s.length
decreasing_by exact Nat.lt_of_lt_of_le (item.shortens _hr) (length_of_nextItem_item _h)

theorem length_of_items {α : Type} {item : Decoder α} {first : Bool} {s r : List Char} {as : List α}
    (h : items item first s = .ok (as, r)) : r.length < s.length := by
  fun_induction items item first s generalizing as r with
  | case1 => cases h
  | case2 first s t hn =>
    cases h
    exact length_of_nextItem_close hn
  | case3 => cases h
  | case4 first s t hn a u hr ih =>
    have h1 := item.shortens hr
    have h2 := length_of_nextItem_item hn
    cases hu : items item false u with
    | error e => simp [hu, Except.map] at h
    | ok p =>
      have h3 := ih hu
      simp only [hu, Except.map, Except.ok.injEq, Prod.mk.injEq] at h
      rw [← h.2]
      omega

/-- A list of what `item` reads. -/
def Decoder.list {α : Type} (item : Option (Decoder α)) : Decoder (List α) where
  run s :=
    match dropBlank s with
    | '[' :: r =>
      match item with
      | none => .error (tooDeep ('[' :: r))
      | some d => items d true r
    | t => .error (misfit "a sequence" t)
  shortens {s a r} h := by
    split at h
    · next ht =>
      split at h
      · cases h
      · exact Nat.lt_trans (length_of_items h) (length_lt_of_dropBlank ht)
    · cases h

/-! ## Objects -/

/-- What comes next between braces: their end, or a key and the rest behind it. -/
inductive NextKey where
  | close (rest : List Char)
  | key (name : String) (rest : List Char)

/-- Reads a key, which has to be a string. -/
def readKey : List Char → Except Failure NextKey
  | '"' :: s => (readString s).map fun (t, r) => .key (String.ofList t) r
  | s => .error (Problem.keyMustBeString.on s)

def nextKey (first : Bool) (s : List Char) : Except Failure NextKey :=
  match dropBlank s with
  | [] => .error (Problem.eofInObject.on [])
  | c :: r =>
    if c = '}' then .ok (.close r)
    else if first then readKey (c :: r)
    else if c = ',' then
      match dropBlank r with
      | [] => .error (Problem.eofInValue.on [])
      | d :: t => if d = '}' then .error (Problem.trailingComma.on (d :: t)) else readKey (d :: t)
    else .error (Problem.expectedObjectCommaOrEnd.on (c :: r))

theorem readKey_ne_close {s r : List Char} : readKey s ≠ .ok (.close r) := by
  unfold readKey
  split
  · cases readString _ <;> simp [Except.map]
  · simp

theorem length_of_readKey {s r : List Char} {k : String} (h : readKey s = .ok (.key k r)) :
    r.length < s.length := by
  unfold readKey at h
  split at h
  · next t =>
    cases ht : readString t with
    | error e => simp [ht, Except.map] at h
    | ok p =>
      have := length_of_readString ht
      simp only [ht, Except.map, Except.ok.injEq, NextKey.key.injEq] at h
      simp only [List.length_cons, ← h.2]
      omega
  · cases h

theorem length_of_nextKey_key {first : Bool} {s r : List Char} {k : String}
    (h : nextKey first s = .ok (.key k r)) : r.length < s.length := by
  have hs := length_dropBlank_le s
  unfold nextKey at h
  split at h
  · cases h
  · next c t ht =>
    rw [ht] at hs
    repeat' split at h
    all_goals try cases h
    · have := length_of_readKey h
      omega
    · next hu _ =>
      have h1 := length_dropBlank_le t
      have h2 := length_of_readKey h
      rw [hu] at h1
      simp only [List.length_cons] at hs h1 h2
      omega

theorem length_of_nextKey_close {first : Bool} {s r : List Char}
    (h : nextKey first s = .ok (.close r)) : r.length < s.length := by
  unfold nextKey at h
  split at h
  · cases h
  · next c t ht =>
    have := length_lt_of_dropBlank ht
    repeat' split at h
    all_goals try cases h
    all_goals first
      | exact this
      | exact absurd h readKey_ne_close

/-- The value of a member: what `d` reads behind the colon. -/
def memberValue {α : Type} (d : Decoder α) (s : List Char) : Except Failure (α × List Char) :=
  match readColon s with
  | .error e => .error e
  | .ok r => d.run r

theorem length_of_memberValue {α : Type} {d : Decoder α} {s r : List Char} {a : α}
    (h : memberValue d s = .ok (a, r)) : r.length < s.length := by
  unfold memberValue at h
  split at h
  · cases h
  · next hc =>
    have := length_of_readColon hc
    have := d.shortens h
    omega

/-- The members of an object, up to its end. -/
def members {α : Type} (value : Decoder α) (first : Bool) (s : List Char) :
    Except Failure (List (String × α) × List Char) :=
  match _h : nextKey first s with
  | .error e => .error e
  | .ok (.close r) => .ok ([], r)
  | .ok (.key k t) =>
    match _hr : memberValue value t with
    | .error e => .error e
    | .ok (a, r) => (members value false r).map fun (ms, r) => ((k, a) :: ms, r)
termination_by s.length
decreasing_by exact Nat.lt_trans (length_of_memberValue _hr) (length_of_nextKey_key _h)

theorem length_of_members {α : Type} {value : Decoder α} {first : Bool} {s r : List Char}
    {ms : List (String × α)} (h : members value first s = .ok (ms, r)) : r.length < s.length := by
  fun_induction members value first s generalizing ms r with
  | case1 => cases h
  | case2 first s t hn =>
    cases h
    exact length_of_nextKey_close hn
  | case3 => cases h
  | case4 first s k t hn a u hr ih =>
    have h1 := length_of_memberValue hr
    have h2 := length_of_nextKey_key hn
    cases hu : members value false u with
    | error e => simp [hu, Except.map] at h
    | ok p =>
      have h3 := ih hu
      simp only [hu, Except.map, Except.ok.injEq, Prod.mk.injEq] at h
      rw [← h.2]
      omega

/-- A map to what `value` reads; of members with the same key the last one counts. -/
def Decoder.nameMap {α : Type} (value : Option (Decoder α)) : Decoder (NameMap α) where
  run s :=
    match dropBlank s with
    | '{' :: r =>
      match value with
      | none => .error (tooDeep ('{' :: r))
      | some d => (members d true r).map fun (ms, r) => (NameMap.ofList ms, r)
    | t => .error (misfit "a map" t)
  shortens {s a r} h := by
    split at h
    · next t ht =>
      split at h
      · cases h
      · next d =>
        have := length_lt_of_dropBlank ht
        cases hm : members d true t with
        | error e => simp [hm, Except.map] at h
        | ok p =>
          have := length_of_members hm
          simp only [hm, Except.map, Except.ok.injEq, Prod.mk.injEq] at h
          rw [← h.2]
          omega
    · cases h

/-! ## Values of any kind -/

/-- Reads any value, given the reader of the values inside its brackets. -/
def Decoder.anyOf (inner : Option (Decoder Json)) : Decoder Json where
  run s :=
    match dropBlank s with
    | '[' :: r =>
      match inner with
      | none => .error (tooDeep ('[' :: r))
      | some d => (items d true r).map fun (as, r) => (.list as, r)
    | '{' :: r =>
      match inner with
      | none => .error (tooDeep ('{' :: r))
      | some d => (members d true r).map fun (ms, r) => (.object ms, r)
    | t => readScalar t
  shortens {s a r} h := by
    have hd := length_dropBlank_le s
    simp only [Except.map] at h
    repeat' split at h
    all_goals try cases h
    · next ht _ _ _ _ hi => exact Nat.lt_trans (length_of_items hi) (length_lt_of_dropBlank ht)
    · next ht _ _ _ _ hm => exact Nat.lt_trans (length_of_members hm) (length_lt_of_dropBlank ht)
    · exact Nat.lt_of_lt_of_le (length_of_readScalar h) hd

/-- Reads any value in which brackets nest at most `room` deep. -/
def Decoder.any : Nat → Decoder Json
  | 0 => anyOf none
  | room + 1 => anyOf (some (any room))

/-- How deep brackets may nest in a text. -/
def nestingLimit : Nat := 127

/-- What is found one bracket deeper, if there is room for that bracket. -/
def inside {β : Type} (d : Nat → β) : Nat → Option β
  | 0 => none
  | room + 1 => some (d room)

theorem exists_of_inside {β : Type} {d : Nat → β} {room : Nat} {e : β} (h : inside d room = some e) :
    ∃ r < room, e = d r := by
  cases room with
  | zero => cases h
  | succ room => exact ⟨room, Nat.lt_succ_self room, (Option.some.inj h).symm⟩

theorem forall_mem_inside {β : Type} {P : β → Prop} {d : Nat → β} {room : Nat}
    (h : ∀ r < room, P (d r)) : ∀ e ∈ inside d room, P e := by
  intro e he
  obtain ⟨r, hr, rfl⟩ := exists_of_inside he
  exact h r hr

/-! ## Whole texts -/

/-- Nothing but blanks may follow the value of a text. -/
def atEnd (s : List Char) : Except Failure Unit :=
  match dropBlank s with
  | [] => .ok ()
  | t => .error (Problem.trailingCharacters.on t)

/-- Reads a text that holds one value. -/
def Decoder.decode {α : Type} (d : Decoder α) (text : String) : Except Failure α :=
  match d.run text.toList with
  | .error e => .error e
  | .ok (a, r) => (atEnd r).map fun _ => a

end GrammarTables.Json
