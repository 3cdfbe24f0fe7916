import GrammarTables.Proofs.Json.Nesting
import GrammarTables.Proofs.Json.ReadBack
import GrammarTables.Proofs.Json.Steps
import GrammarTables.Proofs.NameMap

/-!
# Reading back values

A decoder comes as a family: one for each number of brackets that there is
still room for. `Reads d v a` says that the family takes the written `v` for
`a` wherever there is room for the height of `v`, and that everywhere else it
fails at a bracket that nests too deeply, and at nothing before it.
-/

namespace GrammarTables.Json

variable {α β : Type}

/-- The result is `b` if that `fits`, and otherwise the failure of a bracket that nests too
deeply. -/
structure ReadsIf (fits : Prop) (x : Except Failure β) (b : β) : Prop where
  read : fits → x = .ok b
  tooDeep : ¬ fits → ∃ unread, x = .error ⟨.nestedTooDeep, unread⟩

namespace ReadsIf

variable {p q : Prop} {x : Except Failure β} {b : β}

theorem of_ok (h : x = .ok b) (hp : p) : ReadsIf p x b := ⟨fun _ => h, fun hn => absurd hp hn⟩

theorem congr (h : ReadsIf p x b) (hpq : p ↔ q) : ReadsIf q x b :=
  ⟨fun hq => h.read (hpq.mpr hq), fun hn => h.tooDeep fun hp => hn (hpq.mp hp)⟩

theorem map (f : β → α) (h : ReadsIf p x b) : ReadsIf p (x.map f) (f b) where
  read hp := by rw [h.read hp]; rfl
  tooDeep hn := by
    obtain ⟨u, hu⟩ := h.tooDeep hn
    exact ⟨u, by rw [hu]; rfl⟩

theorem cases (h : ReadsIf p x b) :
    (p ∧ x = .ok b) ∨ (¬ p ∧ ∃ unread, x = .error ⟨.nestedTooDeep, unread⟩) := by
  by_cases hp : p
  · exact .inl ⟨hp, h.read hp⟩
  · exact .inr ⟨hp, h.tooDeep hp⟩

end ReadsIf

/-- The decoders read `v` as `a`, each of them if it has room for the height of `v`. -/
def Reads (d : Nat → Decoder α) (v : Json) (a : α) : Prop :=
  ∀ room s, Delimited s → ReadsIf (v.height ≤ room) ((d room).run (v.write ++ s)) (a, s)

/-! ## Without brackets -/

theorem Reads.string (t : String) : Reads (fun _ => .string) (.string t) t := by
  intro room s _
  refine .of_ok ?_ (Nat.zero_le room)
  simp only [Decoder.string, dropBlank_write]
  simp only [write, writeString, List.cons_append, List.append_assoc, List.nil_append,
    readString_writeString, Except.map, String.ofList_toList]

theorem Reads.bool (b : Bool) : Reads (fun _ => .bool) (.bool b) b := by
  intro room s _
  refine .of_ok ?_ (Nat.zero_le room)
  cases b <;> rfl

theorem Reads.map {d : Nat → Decoder α} {v : Json} {a : α} (f : α → β) (h : Reads d v a) :
    Reads (fun room => (d room).map f) v (f a) := by
  intro room s hs
  exact (h room s hs).map _

theorem Reads.optional {d : Nat → Decoder α} {v : Json} {a : α} (hv : v ≠ .null)
    (h : Reads d v a) : Reads (fun room => (d room).optional) v (some a) := by
  intro room s hs
  obtain ⟨c, t, hw, -, hn⟩ := write_eq_cons v
  simp only [Decoder.optional, dropBlank_write]
  split
  · next heq =>
    rw [hw, List.cons_append] at heq
    cases heq
    exact absurd (hn rfl) hv
  · exact (h room s hs).map _

/-! ## Lists -/

theorem nextItem_write (v : Json) (s : List Char) :
    nextItem true (v.write ++ s) = .ok (.item (v.write ++ s)) := by
  obtain ⟨c, t, hw, hc, -⟩ := write_eq_cons v
  rw [nextItem, dropBlank_write, hw]
  exact if_neg (ne_of_isStart (d := ']') hc (by decide))

theorem nextItem_comma_write (v : Json) (s : List Char) :
    nextItem false (',' :: (v.write ++ s)) = .ok (.item (v.write ++ s)) := by
  obtain ⟨c, t, hw, hc, -⟩ := write_eq_cons v
  have hd := dropBlank_write v s
  rw [nextItem, dropBlank_of_not_isBlank (by decide)]
  rw [hw, List.cons_append] at hd ⊢
  simp [hd, ne_of_isStart (d := ']') hc (by decide)]

theorem delimited_writeItems (vs : List Json) (s : List Char) :
    Delimited (writeItems vs ++ s) := by
  cases vs <;> simp [writeItems, Delimited, isDigit]

/-- One item and then the others. -/
theorem ReadsIf.items {d : Decoder α} {first : Bool} {s t r u : List Char} {p q : Prop} {a : α}
    {as : List α} (hn : nextItem first s = .ok (.item t)) (ha : ReadsIf p (d.run t) (a, r))
    (has : ReadsIf q (items d false r) (as, u)) :
    ReadsIf (p ∧ q) (items d first s) (a :: as, u) := by
  rw [items_item hn]
  rcases ha.cases with ⟨hp, h⟩ | ⟨hp, e, h⟩
  · rw [h]
    exact (has.map _).congr (and_iff_right hp).symm
  · rw [h]
    exact ⟨fun hpq => absurd hpq.1 hp, fun _ => ⟨e, rfl⟩⟩

theorem ReadsIf.items_writeItems {d : Nat → Decoder α} {f : α → Json} {as : List α}
    (h : ∀ a ∈ as, Reads d (f a) a) (room : Nat) (s : List Char) :
    ReadsIf (itemsHeight (as.map f) ≤ room)
      (Json.items (d room) false (writeItems (as.map f) ++ s)) (as, s) := by
  induction as with
  | nil =>
    refine .of_ok ?_ (Nat.zero_le room)
    rw [List.map_nil, writeItems, List.singleton_append, items_close rfl]
  | cons a as ih =>
    have ha := h a List.mem_cons_self room _ (delimited_writeItems (as.map f) s)
    have has := ih fun b hb => h b (List.mem_cons_of_mem a hb)
    simp only [List.map_cons, writeItems, itemsHeight, List.cons_append, List.append_assoc]
    exact (ReadsIf.items (nextItem_comma_write ..) ha has).congr Nat.max_le.symm

/-- What is written behind the opening bracket of a list is read up to its end. -/
theorem ReadsIf.items_list {d : Nat → Decoder α} {f : α → Json} {as : List α}
    (h : ∀ a ∈ as, Reads d (f a) a) :
    ∃ t, (Json.list (as.map f)).write = '[' :: t ∧
      ∀ room s, ReadsIf (itemsHeight (as.map f) ≤ room) (Json.items (d room) true (t ++ s))
        (as, s) := by
  cases as with
  | nil =>
    refine ⟨[']'], rfl, fun room s => .of_ok ?_ (Nat.zero_le room)⟩
    rw [List.singleton_append, items_close rfl]
  | cons a as =>
    refine ⟨_, by rw [List.map_cons, write], fun room s => ?_⟩
    have ha := h a List.mem_cons_self room _ (delimited_writeItems (as.map f) s)
    have has := items_writeItems (fun b hb => h b (List.mem_cons_of_mem a hb)) room s
    rw [List.append_assoc]
    exact (ReadsIf.items (nextItem_write ..) ha has).congr Nat.max_le.symm

theorem ReadsIf.no_room {x : Except Failure β} {b : β} {height : Nat}
    (h : ∃ unread, x = .error ⟨.nestedTooDeep, unread⟩) : ReadsIf (height + 1 ≤ 0) x b :=
  ⟨fun hh => absurd hh (Nat.not_succ_le_zero height), fun _ => h⟩

theorem Reads.list {d : Nat → Decoder α} {f : α → Json} {as : List α}
    (h : ∀ a ∈ as, Reads d (f a) a) :
    Reads (fun room => .list (inside d room)) (.list (as.map f)) as := by
  intro room s _
  obtain ⟨t, ht, hr⟩ := ReadsIf.items_list h
  simp only [Decoder.list, dropBlank_write, height]
  rw [ht]
  cases room with
  | zero => exact .no_room ⟨_, rfl⟩
  | succ room => exact (hr room s).congr Nat.add_le_add_iff_right.symm

/-! ## Maps -/

theorem dropBlank_writeString (k : String) (s : List Char) :
    dropBlank (writeString k ++ s) = writeString k ++ s := dropBlank_write (.string k) s

theorem readKey_writeString (k : String) (s : List Char) :
    readKey (writeString k ++ s) = .ok (.key k s) := by
  simp only [writeString, List.cons_append, List.append_assoc, List.nil_append, readKey,
    readString_writeString, Except.map, String.ofList_toList]

theorem nextKey_writeString (k : String) (s : List Char) :
    nextKey true (writeString k ++ s) = .ok (.key k s) := by
  rw [nextKey, dropBlank_writeString]
  exact readKey_writeString k s

theorem nextKey_comma_writeString (k : String) (s : List Char) :
    nextKey false (',' :: (writeString k ++ s)) = .ok (.key k s) := by
  simp only [nextKey, dropBlank_of_not_isBlank (c := ',') (by decide), dropBlank_writeString]
  exact readKey_writeString k s

theorem memberValue_colon (d : Decoder α) (s : List Char) :
    memberValue d (':' :: s) = d.run s := by
  simp only [memberValue, readColon, dropBlank_of_not_isBlank (c := ':') (by decide)]

theorem delimited_writeMembers (ms : List (String × Json)) (s : List Char) :
    Delimited (writeMembers ms ++ s) := by
  cases ms <;> simp [writeMembers, Delimited, isDigit]

/-- One member and then the others. -/
theorem ReadsIf.members {d : Decoder α} {first : Bool} {s t r u : List Char} {p q : Prop}
    {k : String} {a : α} {as : List (String × α)} (hn : nextKey first s = .ok (.key k t))
    (ha : ReadsIf p (memberValue d t) (a, r)) (has : ReadsIf q (members d false r) (as, u)) :
    ReadsIf (p ∧ q) (members d first s) ((k, a) :: as, u) := by
  rw [members_key hn]
  rcases ha.cases with ⟨hp, h⟩ | ⟨hp, e, h⟩
  · rw [h]
    exact (has.map _).congr (and_iff_right hp).symm
  · rw [h]
    exact ⟨fun hpq => absurd hpq.1 hp, fun _ => ⟨e, rfl⟩⟩

/-- The members of an object for named values. -/
def namedMembers (f : α → Json) (as : List (String × α)) : List (String × Json) :=
  as.map fun e => (e.1, f e.2)

theorem ReadsIf.members_writeMembers {d : Nat → Decoder α} {f : α → Json}
    {as : List (String × α)} (h : ∀ e ∈ as, Reads d (f e.2) e.2) (room : Nat) (s : List Char) :
    ReadsIf (membersHeight (namedMembers f as) ≤ room)
      (Json.members (d room) false (writeMembers (namedMembers f as) ++ s)) (as, s) := by
  induction as with
  | nil =>
    refine .of_ok ?_ (Nat.zero_le room)
    rw [namedMembers, List.map_nil, writeMembers, List.singleton_append, members_close rfl]
  | cons e as ih =>
    have ha := h e List.mem_cons_self room _ (delimited_writeMembers (namedMembers f as) s)
    have has := ih fun b hb => h b (List.mem_cons_of_mem e hb)
    rw [← memberValue_colon] at ha
    simp only [namedMembers, List.map_cons, writeMembers, membersHeight, List.cons_append,
      List.append_assoc]
    exact (ReadsIf.members (nextKey_comma_writeString ..) ha has).congr Nat.max_le.symm

/-- What is written behind the opening bracket of an object is read up to its end. -/
theorem ReadsIf.members_object {d : Nat → Decoder α} {f : α → Json} {as : List (String × α)}
    (h : ∀ e ∈ as, Reads d (f e.2) e.2) :
    ∃ t, (Json.object (namedMembers f as)).write = '{' :: t ∧
      ∀ room s, ReadsIf (membersHeight (namedMembers f as) ≤ room)
        (Json.members (d room) true (t ++ s)) (as, s) := by
  cases as with
  | nil =>
    refine ⟨['}'], rfl, fun room s => .of_ok ?_ (Nat.zero_le room)⟩
    rw [List.singleton_append, members_close rfl]
  | cons e as =>
    refine ⟨_, by rw [namedMembers, List.map_cons, write], fun room s => ?_⟩
    have ha := h e List.mem_cons_self room _ (delimited_writeMembers (namedMembers f as) s)
    have has := members_writeMembers (fun b hb => h b (List.mem_cons_of_mem e hb)) room s
    rw [← memberValue_colon] at ha
    simp only [List.append_assoc, List.cons_append]
    exact (ReadsIf.members (nextKey_writeString ..) ha has).congr Nat.max_le.symm

theorem Reads.nameMap {d : Nat → Decoder α} {f : α → Json} {m : NameMap α}
    (h : ∀ e ∈ m.entries, Reads d (f e.2) e.2) :
    Reads (fun room => .nameMap (inside d room)) (.object (namedMembers f m.entries)) m := by
  intro room s _
  obtain ⟨t, ht, hr⟩ := ReadsIf.members_object h
  simp only [Decoder.nameMap, dropBlank_write, height]
  rw [ht]
  cases room with
  | zero => exact .no_room ⟨_, rfl⟩
  | succ room =>
    have hm := (hr room s).map fun p => (NameMap.ofList p.1, p.2)
    rw [NameMap.ofList_entries] at hm
    exact hm.congr Nat.add_le_add_iff_right.symm

/-! ## Values of any kind -/

theorem run_any (room : Nat) {s t : List Char} {c : Char} (hs : dropBlank s = c :: t)
    (hl : c ≠ '[') (ho : c ≠ '{') : (Decoder.any room).run s = readScalar (c :: t) := by
  cases room <;> simp [Decoder.any, Decoder.anyOf, hs, hl, ho]

theorem Reads.any_string (t : String) : Reads Decoder.any (.string t) (.string t) := by
  intro room s _
  refine .of_ok ?_ (Nat.zero_le room)
  rw [run_any room (dropBlank_write ..) (by decide) (by decide)]
  simp [readScalar, readString_writeString, Except.map, List.append_assoc]

theorem Reads.any_whole {n : Int} (h1 : Int64.minValue.toInt ≤ n) (h2 : n < UInt64.size) :
    Reads Decoder.any (.number (.whole n)) (.number (.whole n)) := by
  intro room s hs
  refine .of_ok ?_ (Nat.zero_le room)
  have hr := readNumber_writeNumber h1 h2 hs
  obtain ⟨c, t, hc, hd⟩ := writeNumber_whole_eq_cons n
  have hb := dropBlank_write (.number (.whole n)) s
  rw [write, hc, List.cons_append] at hb ⊢
  rw [hc, List.cons_append] at hr
  have hne : ∀ d, d ≠ '-' → isDigit d = false → c ≠ d := by
    rintro d h1 h2 rfl
    rcases hd with hd | hd
    · exact h1 hd
    · rw [h2] at hd; cases hd
  rw [run_any room hb (hne _ (by decide) (by decide)) (hne _ (by decide) (by decide)), readScalar,
    if_neg (hne _ (by decide) (by decide)), if_neg (hne _ (by decide) (by decide)),
    if_neg (hne _ (by decide) (by decide)), if_neg (hne _ (by decide) (by decide)), if_pos hd, hr]
  rfl

/-! ## Whole texts -/

/-- A failure is told as its problem and a place. -/
theorem Failure.message_eq (f : Failure) (text : String) :
    ∃ place, f.message text = f.problem.message ++ place := by
  let p := Place.of text f.unread
  refine ⟨" at line " ++ toString p.line ++ " column " ++ toString p.column, ?_⟩
  simp only [Failure.message, String.append_assoc]
  rfl

theorem Reads.decode {d : Nat → Decoder α} {v : Json} {a : α} (h : Reads d v a) (room : Nat) :
    ReadsIf (nesting v.text ≤ room) ((d room).decode v.text) a := by
  have hr := h room [] trivial
  rw [nesting_text, Decoder.decode, text, String.toList_ofList]
  rw [List.append_nil] at hr
  rcases hr.cases with ⟨hp, hr⟩ | ⟨hp, e, hr⟩
  · rw [hr]
    exact .of_ok rfl hp
  · rw [hr]
    exact ⟨fun h => absurd h hp, fun _ => ⟨e, rfl⟩⟩

end GrammarTables.Json
