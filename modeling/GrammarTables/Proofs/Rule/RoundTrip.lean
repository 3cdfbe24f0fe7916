import GrammarTables.Proofs.Json.ReadsRecord
import GrammarTables.Proofs.Rule.Walk
import GrammarTables.Rule.Tables

/-!
# Round trip of rules

A rule is read back from its object, wherever there is room for the brackets
of that object.
-/

namespace GrammarTables.Rule

open Json (Decoder Layout Piece Reads inside)

/-- The layout of rules in which brackets nest at most `room` deep. -/
def layoutWithin (room : Nat) : Layout Rule := layout room (decoder room) (inside decoder room)

theorem decoder_eq (room : Nat) : decoder room = .record "Rule" (inside layoutWithin room) := by
  have snd : ∀ room, (decoders room).2 = inside decoder room := by
    intro room
    cases room <;> rfl
  cases room with
  | zero => rfl
  | succ room =>
    show Decoder.record "Rule" (some (layout room (decoders room).1 (decoders room).2)) = _
    rw [snd room]
    rfl

/-- The members of a rule's object. -/
def pieces (r : Rule) : List (Piece Rule) :=
  .cons (.of "type" (fun k => .string k.name) (fun k s => { s with kind := k }) r.kind) <|
  Piece.consOptional "value" Value.toJson (fun v s => { s with value := v }) r.value <|
  Piece.consOptional "name" .string (fun n s => { s with name := n }) r.name <|
  Piece.consOptional "content" toJson (fun c s => { s with content := c }) r.content <|
  Piece.consOptional "members" (fun ms => .list (ms.map toJson))
    (fun ms s => { s with members := ms.getD [] })
    (if r.members.isEmpty then none else some r.members) <|
  Piece.consOptional "named" .bool (fun b s => { s with named := b }) r.named <|
  Piece.consOptional "flags" .string (fun f s => { s with flags := f }) r.flags <|
  Piece.consOptional "context_name" .string
    (fun x s => { s with contextName := x }) r.contextName []

theorem map_member_consOptional {R α : Type} (key : String) (f : α → Json) (set : Option α → R → R)
    (a : Option α) (ps : List (Piece R)) :
    (Piece.consOptional key f set a ps).map Piece.member =
      optionalMember key (a.map f) ++ ps.map Piece.member := by
  cases a <;> rfl

theorem listToJson_eq (rs : List Rule) : listToJson rs = rs.map toJson := by
  induction rs with
  | nil => rfl
  | cons r rs ih => rw [listToJson, List.map_cons, ih]

theorem toJson_eq (r : Rule) : r.toJson = .object (r.pieces.map Piece.member) := by
  obtain ⟨k, v, n, c, ms, d, f, x⟩ := r
  simp only [toJson, membersOfNode, pieces, List.map_cons, map_member_consOptional]
  cases c <;> cases ms <;>
    simp [contentMember, membersMember, listToJson_eq, optionalMember, Piece.of, Piece.member]

theorem toJson_ne_null (r : Rule) : r.toJson ≠ .null := by
  rw [toJson_eq]
  nofun

theorem setAll_pieces (r : Rule) : Piece.setAll r.pieces { kind := .blank } = r := by
  unfold pieces
  rw [Piece.setAll_cons]
  iterate 7 rw [Piece.setAll_consOptional rfl]
  obtain ⟨k, v, n, c, ms, d, f, x⟩ := r
  cases ms <;> rfl

theorem keys_pieces (r : Rule) :
    (r.pieces.map Piece.key).Sublist
      ["type", "value", "name", "content", "members", "named", "flags", "context_name"] := by
  unfold pieces
  refine .cons_cons _ ?_
  iterate 7 refine Piece.keys_consOptional ?_
  exact .refl _

theorem lookup_byName (k : Kind) : Kind.byName.lookup k.name = some k := by
  cases k <;> decide

theorem reads_kind (k : Kind) :
    Reads (fun room => .variant Kind.byName room) (.string k.name) k := by
  intro room s _
  refine .of_ok ?_ (Nat.zero_le room)
  simp only [Decoder.variant, Json.dropBlank_write]
  simp only [Json.write, Json.writeString, List.cons_append, List.append_assoc, List.nil_append,
    Json.readVariant, Json.readString_writeString, Json.known, String.ofList_toList, lookup_byName]

theorem toInt_bounds (n : Int32) :
    Int32.minValue.toInt ≤ n.toInt ∧ n.toInt ≤ Int32.maxValue.toInt := by
  have hlow := n.le_toInt
  have hhigh := n.toInt_lt
  have hmin : Int32.minValue.toInt = -2147483648 := rfl
  have hmax : Int32.maxValue.toInt = 2147483647 := rfl
  omega

theorem ofJson?_toJson (v : Value) : Value.ofJson? v.toJson = some v := by
  cases v with
  | text s => rfl
  | level n =>
    have hr : Value.levelRange n.toInt := by
      simp only [Value.levelRange, Bool.and_eq_true, decide_eq_true_eq]
      exact toInt_bounds n
    rw [Value.toJson, Value.ofJson?, if_pos hr, Int32.ofInt_toInt]

theorem reads_value (v : Value) : Reads Decoder.any v.toJson v.toJson := by
  cases v with
  | text s => exact Json.Reads.any_string s
  | level n =>
    obtain ⟨hlow, hhigh⟩ := toInt_bounds n
    have hmin : Int64.minValue.toInt ≤ Int32.minValue.toInt := by decide
    have hmax : Int32.maxValue.toInt < UInt64.size := by decide
    exact Json.Reads.any_whole (Int.le_trans hmin hlow) (Int.lt_of_le_of_lt hhigh hmax)

theorem known_value (v : Value) :
    (Piece.ofSome "value" Value.toJson (fun v r => { r with value := v }) v).Known
      layoutWithin := by
  have hr := (reads_value v).optional (by cases v <;> nofun)
  refine Piece.known_of_reads (fun _ => rfl) (hr.map setValue) fun r => ?_
  rw [setValue, ofJson?_toJson]
  rfl

theorem known_pieces (r : Rule) (content : ∀ c ∈ r.content, Reads decoder c.toJson c)
    (members : ∀ m ∈ r.members, Reads decoder m.toJson m) :
    ∀ p ∈ r.pieces, p.Known layoutWithin := by
  unfold pieces
  refine List.forall_mem_cons.mpr ⟨Piece.known_of (reads_kind r.kind) fun _ => rfl, ?_⟩
  refine Piece.known_consOptional (fun v _ => known_value v) ?_
  refine Piece.known_optionals (fun n _ => .string n) (fun _ => nofun) (fun _ => rfl) ?_
  refine Piece.known_optionals content toJson_ne_null (fun _ => rfl) ?_
  refine Piece.known_consOptional (fun ms hms => ?_) ?_
  · split at hms
    · cases hms
    · cases hms
      have hr := (Reads.list members).map fun ms =>
        (fun s => .ok { s with members := ms } : Rule → Except Json.Problem Rule)
      exact Piece.known_of_reads (fun _ => rfl) hr fun _ => rfl
  refine Piece.known_optionals (fun b _ => .bool b) (fun _ => nofun) (fun _ => rfl) ?_
  refine Piece.known_optionals (fun f _ => .string f) (fun _ => nofun) (fun _ => rfl) ?_
  refine Piece.known_optionals (fun x _ => .string x) (fun _ => nofun) (fun _ => rfl) ?_
  exact List.forall_mem_nil _

theorem reads_toJson (r : Rule) : Reads decoder r.toJson r := by
  induction r using ind with
  | node r ih =>
    have known := known_pieces r (fun c hc => ih c (mem_children.mpr (.inl hc)))
      (fun m hm => ih m (mem_children.mpr (.inr hm)))
    have complete : ∀ room, (layoutWithin room).Complete (r.pieces.map Piece.key) := fun _ =>
      Layout.complete_of_required ["type"] rfl (by simp [pieces, Piece.of])
    have h : Reads (fun room => .record "Rule" (inside layoutWithin room))
        (.object (r.pieces.map Piece.member)) (Piece.setAll r.pieces { kind := .blank }) :=
      Reads.record (fun _ => rfl) known ((keys_pieces r).nodup (by decide)) complete
    rw [← toJson_eq, setAll_pieces] at h
    intro room
    rw [decoder_eq]
    exact h room

end GrammarTables.Rule
