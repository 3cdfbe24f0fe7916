import GrammarTables.Proofs.Json.Reads

/-!
# Reading back records

A record is written as an object of its pieces, each of which sets something of
the record when it is read. If no piece comes twice and no piece that has to be
there is left out, reading the object does what its pieces do, one after the
other.
-/

namespace GrammarTables.Json

variable {R α : Type}

/-- A member of a record's object, and what reading it does to the record. -/
structure Piece (R : Type) where
  key : String
  value : Json
  set : R → R

namespace Piece

def member (p : Piece R) : String × Json := (p.key, p.value)

/-- The piece for a value. -/
def of (key : String) (f : α → Json) (set : α → R → R) (a : α) : Piece R := ⟨key, f a, set a⟩

/-- What the pieces do to a record, one after the other. -/
def setAll (ps : List (Piece R)) (r : R) : R := ps.foldl (fun r p => p.set r) r

theorem setAll_cons (p : Piece R) (ps : List (Piece R)) (r : R) :
    setAll (p :: ps) r = setAll ps (p.set r) := rfl

/-- The layouts, one for each room, have a field that reads the piece. -/
def Known (layout : Nat → Layout R) (p : Piece R) : Prop :=
  ∀ room, ∃ f, (layout room).field? p.key = some f ∧ ∀ r s, Delimited s →
    ReadsIf (p.value.height ≤ room) (Layout.readField f r (':' :: (p.value.write ++ s)))
      (p.set r, s)

/-- The piece for a value that may be missing. -/
def ofSome (key : String) (f : α → Json) (set : Option α → R → R) (a : α) : Piece R :=
  ⟨key, f a, set (some a)⟩

/-- One more piece in front, if there is something to be written. -/
def consOptional (key : String) (f : α → Json) (set : Option α → R → R) :
    Option α → List (Piece R) → List (Piece R)
  | none, ps => ps
  | some a, ps => ofSome key f set a :: ps

section Optional

variable {key : String} {f : α → Json} {set : Option α → R → R} {a : Option α} {ps : List (Piece R)}

theorem keys_consOptional {keys : List String} (h : (ps.map Piece.key).Sublist keys) :
    ((consOptional key f set a ps).map Piece.key).Sublist (key :: keys) := by
  cases a with
  | none => exact h.cons key
  | some a => exact h.cons_cons key

theorem mem_keys_consOptional {k : String} (h : k ∈ ps.map Piece.key) :
    k ∈ (consOptional key f set a ps).map Piece.key := by
  cases a with
  | none => exact h
  | some a => exact List.mem_cons_of_mem key h

theorem setAll_consOptional {r : R} (h : set none r = r) :
    setAll (consOptional key f set a ps) r = setAll ps (set a r) := by
  cases a with
  | none => rw [h]; rfl
  | some a => rfl

end Optional

end Piece

theorem ReadsIf.readField {p : Prop} {f : Field R} {r r' : R} {x s : List Char}
    {set : R → Except Problem R} (h : ReadsIf p (f.read.run x) (set, s)) (hs : set r = .ok r') :
    ReadsIf p (Layout.readField f r (':' :: x)) (r', s) := by
  rw [Layout.readField, memberValue_colon]
  rcases h.cases with ⟨hp, h⟩ | ⟨hp, e, h⟩
  · rw [h]
    exact .of_ok (by simp only [hs]) hp
  · rw [h]
    exact ⟨fun h => absurd h hp, fun _ => ⟨e, rfl⟩⟩

theorem Piece.known_of_reads {layout : Nat → Layout R} {p : Piece R} {required : Bool}
    {read : Nat → Decoder (R → Except Problem R)} {set : R → Except Problem R}
    (hf : ∀ room, (layout room).field? p.key = some ⟨p.key, required, read room⟩)
    (hr : Reads read p.value set) (hs : ∀ r, set r = .ok (p.set r)) : p.Known layout :=
  fun room => ⟨_, hf room, fun r s hd => ReadsIf.readField (hr room s hd) (hs r)⟩

section Known

variable {layout : Nat → Layout R} {d : Nat → Decoder α} {key : String} {f : α → Json}

theorem Piece.known_of {required : Bool} {set : α → R → R} {a : α} (h : Reads d (f a) a)
    (hf : ∀ room, (layout room).field? key =
      some ⟨key, required, (d room).map fun a r => .ok (set a r)⟩) :
    (Piece.of key f set a).Known layout :=
  have hm := h.map fun a => (fun r => .ok (set a r) : R → Except Problem R)
  Piece.known_of_reads hf hm fun _ => rfl

theorem Piece.known_optional {set : Option α → R → R} {a : α} (h : Reads d (f a) a)
    (hn : f a ≠ .null)
    (hf : ∀ room, (layout room).field? key = some (.ofOptional key (d room) set)) :
    (Piece.ofSome key f set a).Known layout :=
  have hm := (h.optional hn).map fun a => (fun r => .ok (set a r) : R → Except Problem R)
  Piece.known_of_reads hf hm fun _ => rfl

theorem Piece.known_consOptional {set : Option α → R → R} {a : Option α} {ps : List (Piece R)}
    (ha : ∀ x ∈ a, (Piece.ofSome key f set x).Known layout)
    (hps : ∀ p ∈ ps, p.Known layout) : ∀ p ∈ Piece.consOptional key f set a ps, p.Known layout := by
  cases a with
  | none => exact hps
  | some x => exact List.forall_mem_cons.mpr ⟨ha x rfl, hps⟩

theorem Piece.known_optionals {set : Option α → R → R} {a : Option α} {ps : List (Piece R)}
    (h : ∀ x ∈ a, Reads d (f x) x) (hn : ∀ x, f x ≠ .null)
    (hf : ∀ room, (layout room).field? key = some (.ofOptional key (d room) set))
    (hps : ∀ p ∈ ps, p.Known layout) : ∀ p ∈ Piece.consOptional key f set a ps, p.Known layout :=
  known_consOptional (fun x hx => known_optional (h x hx) (hn x) hf) hps

end Known

/-- One member and then the others. -/
theorem ReadsIf.readMembers {l : Layout R} {seen : List String} {first : Bool} {p q : Prop}
    {s t u v : List Char} {k : String} {f : Field R} {r r₁ r₂ : R}
    (hn : nextKey first s = .ok (.key k t)) (hf : l.field? k = some f) (hk : k ∉ seen)
    (h1 : ReadsIf p (Layout.readField f r t) (r₁, u))
    (h2 : ReadsIf q (l.readMembers (k :: seen) r₁ false u) (r₂, v)) :
    ReadsIf (p ∧ q) (l.readMembers seen r first s) (r₂, v) := by
  rw [Layout.readMembers_field hn hf hk]
  rcases h1.cases with ⟨hp, h⟩ | ⟨hp, e, h⟩
  · rw [h]
    exact h2.congr (and_iff_right hp).symm
  · rw [h]
    exact ⟨fun hpq => absurd hpq.1 hp, fun _ => ⟨e, rfl⟩⟩

/-- No field that has to be there is missing from the keys. -/
def Layout.Complete (l : Layout R) (keys : List String) : Prop :=
  ∀ f ∈ l.fields, f.required → f.key ∈ keys

theorem Layout.complete_of_required {l : Layout R} (required : List String) {keys : List String}
    (h : (l.fields.filter (·.required)).map (·.key) = required)
    (hk : ∀ k ∈ required, k ∈ keys) : l.Complete keys := by
  intro f hf hr
  apply hk
  rw [← h]
  exact List.mem_map_of_mem (List.mem_filter.mpr ⟨hf, hr⟩)

theorem Layout.missing?_of_complete {l : Layout R} {seen : List String} (h : l.Complete seen) :
    l.missing? seen = none := by
  rw [Layout.missing?, List.find?_eq_none]
  intro f hf hm
  rw [Bool.and_eq_true, Bool.not_eq_true', ← Bool.not_eq_true, List.contains_iff_mem] at hm
  exact hm.2 (h f hf hm.1)

theorem Layout.readMembers_complete {l : Layout R} {seen : List String} (h : l.Complete seen)
    (r : R) (first : Bool) (s : List Char) :
    l.readMembers seen r first ('}' :: s) = .ok (r, s) := by
  rw [Layout.readMembers_close rfl, Layout.missing?_of_complete h]

section Pieces

variable {layout : Nat → Layout R} {ps : List (Piece R)}

theorem ReadsIf.readMembers_writeMembers {seen : List String} {r : R}
    (known : ∀ p ∈ ps, p.Known layout) (nodup : (ps.map Piece.key).Nodup)
    (fresh : ∀ p ∈ ps, p.key ∉ seen) (room : Nat)
    (complete : (layout room).Complete (ps.map Piece.key ++ seen)) (s : List Char) :
    ReadsIf (membersHeight (ps.map Piece.member) ≤ room)
      ((layout room).readMembers seen r false (writeMembers (ps.map Piece.member) ++ s))
      (Piece.setAll ps r, s) := by
  induction ps generalizing seen r with
  | nil => exact .of_ok (Layout.readMembers_complete complete r false s) (Nat.zero_le room)
  | cons p ps ih =>
    obtain ⟨f, hf, hread⟩ := known p List.mem_cons_self room
    obtain ⟨hp, hps⟩ := List.nodup_cons.mp nodup
    have h1 := hread r _ (delimited_writeMembers (ps.map Piece.member) s)
    have hfresh : ∀ q ∈ ps, q.key ∉ p.key :: seen := by
      intro q hq h
      rcases List.mem_cons.mp h with h | h
      · exact hp (h ▸ List.mem_map_of_mem hq)
      · exact fresh q (List.mem_cons_of_mem p hq) h
    have h2 := ih (r := p.set r) (fun q hq => known q (List.mem_cons_of_mem p hq)) hps hfresh
      (fun f hf hr => by simpa [or_left_comm] using complete f hf hr)
    simp only [List.map_cons, Piece.member, writeMembers, membersHeight, List.cons_append,
      List.append_assoc]
    exact (ReadsIf.readMembers (nextKey_comma_writeString ..) hf (fresh p List.mem_cons_self) h1
      h2).congr Nat.max_le.symm

/-- What is written behind the opening bracket of a record is read up to its end. -/
theorem ReadsIf.readMembers_object {r : R} (known : ∀ p ∈ ps, p.Known layout)
    (nodup : (ps.map Piece.key).Nodup)
    (complete : ∀ room, (layout room).Complete (ps.map Piece.key)) :
    ∃ t, (Json.object (ps.map Piece.member)).write = '{' :: t ∧
      ∀ room s, ReadsIf (membersHeight (ps.map Piece.member) ≤ room)
        ((layout room).readMembers [] r true (t ++ s)) (Piece.setAll ps r, s) := by
  cases ps with
  | nil =>
    exact ⟨['}'], rfl, fun room s =>
      .of_ok (Layout.readMembers_complete (complete room) r true s) (Nat.zero_le room)⟩
  | cons p ps =>
    refine ⟨_, by rw [List.map_cons, Piece.member, write], fun room s => ?_⟩
    obtain ⟨f, hf, hread⟩ := known p List.mem_cons_self room
    obtain ⟨hp, hps⟩ := List.nodup_cons.mp nodup
    have h1 := hread r _ (delimited_writeMembers (ps.map Piece.member) s)
    have hfresh : ∀ q ∈ ps, q.key ∉ [p.key] := fun q hq h =>
      hp (List.mem_singleton.mp h ▸ List.mem_map_of_mem hq)
    have h2 := readMembers_writeMembers (r := p.set r)
      (fun q hq => known q (List.mem_cons_of_mem p hq)) hps hfresh room
      (fun f hf hr => by simpa [or_comm] using complete room f hf hr) s
    simp only [List.append_assoc, List.cons_append]
    exact (ReadsIf.readMembers (nextKey_writeString ..) hf List.not_mem_nil h1 h2).congr
      Nat.max_le.symm

theorem Reads.record {name : String} {blank : R} (hblank : ∀ room, (layout room).blank = blank)
    (known : ∀ p ∈ ps, p.Known layout) (nodup : (ps.map Piece.key).Nodup)
    (complete : ∀ room, (layout room).Complete (ps.map Piece.key)) :
    Reads (fun room => .record name (inside layout room)) (.object (ps.map Piece.member))
      (Piece.setAll ps blank) := by
  intro room s _
  obtain ⟨t, ht, hr⟩ := ReadsIf.readMembers_object (r := blank) known nodup complete
  simp only [Decoder.record, dropBlank_write, height]
  rw [ht]
  cases room with
  | zero => exact .no_room ⟨_, rfl⟩
  | succ room =>
    simp only [inside, List.cons_append, hblank]
    exact (hr room s).congr Nat.add_le_add_iff_right.symm

end Pieces

end GrammarTables.Json
