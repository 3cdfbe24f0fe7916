import GrammarTables.Proofs.Rule.Walk

/-!
# What a rule can begin with

A rule can begin with a reference to a name if nothing has to be matched before that reference. The
walk that looks for such references goes from a node to the first member of a sequence, to all
members of a choice and to the content of most other nodes. Whatever it finds is there. It passes
over references in two places only: behind members of a sequence that may be empty, and in the
content of a reserved-word context.
-/

namespace GrammarTables.Rule

/-- Nodes of that kind match what their content matches. -/
def Kind.isWrapper : Kind → Bool
  | prec | precLeft | precRight | precDynamic | field | rename | reserved => true
  | _ => false

/-- Nodes of that kind begin with what their content begins with. -/
def Kind.beginsWithContent : Kind → Bool
  | repeat0 | repeat1 => true
  | k => k.isWrapper

/-- The rule may match nothing. -/
inductive Nullable : Rule → Prop where
  | blank {r : Rule} : r.kind = .blank → Nullable r
  | repeat0 {r : Rule} : r.kind = .repeat0 → Nullable r
  | seq {r : Rule} : r.kind = .seq → (∀ m ∈ r.members, Nullable m) → Nullable r
  | choice {r m : Rule} : r.kind = .choice → m ∈ r.members → Nullable m → Nullable r
  | content {r c : Rule} : r.kind = .repeat1 ∨ r.kind.isWrapper → r.content = some c →
      Nullable c → Nullable r

/-- The rule can begin with a reference to `target`. -/
inductive BeginsWith (target : String) : Rule → Prop where
  | symbol {r : Rule} : r.kind = .symbol → r.name = some target → BeginsWith target r
  | seq {r m : Rule} {front back : List Rule} : r.kind = .seq → r.members = front ++ m :: back →
      (∀ p ∈ front, Nullable p) → BeginsWith target m → BeginsWith target r
  | choice {r m : Rule} : r.kind = .choice → m ∈ r.members → BeginsWith target m →
      BeginsWith target r
  | content {r c : Rule} : r.kind.beginsWithContent → r.content = some c → BeginsWith target c →
      BeginsWith target r

/-- The walk comes to the node. -/
inductive Leading (node : Rule) : Rule → Prop where
  | here : Leading node node
  | first {r m : Rule} : r.kind = .seq → r.members.head? = some m → Leading node m →
      Leading node r
  | choice {r m : Rule} : r.kind = .choice → m ∈ r.members → Leading node m → Leading node r
  | content {r c : Rule} : r.kind.beginsWithContent → r.kind ≠ .reserved → r.content = some c →
      Leading node c → Leading node r

/-- The node can begin with a reference that the walk does not go to. -/
inductive Overlooks (target : String) : Rule → Prop where
  | later {r m : Rule} {front back : List Rule} : r.kind = .seq → r.members = front ++ m :: back →
      front ≠ [] → (∀ p ∈ front, Nullable p) → BeginsWith target m → Overlooks target r
  | reserved {r c : Rule} : r.kind = .reserved → r.content = some c → BeginsWith target c →
      Overlooks target r

variable {r : Rule} {target : String}

/-! ## The walk -/

theorem contentStartsWith_iff {c : Option Rule} :
    contentStartsWith target c ↔ ∃ s, c = some s ∧ s.startsWith target := by
  cases c <;> simp [contentStartsWith]

theorem firstStartsWith_iff {ms : List Rule} :
    firstStartsWith target ms ↔ ∃ m, ms.head? = some m ∧ m.startsWith target := by
  cases ms <;> simp [firstStartsWith]

theorem anyStartsWith_iff {ms : List Rule} :
    anyStartsWith target ms ↔ ∃ m ∈ ms, m.startsWith target := by
  induction ms with
  | nil => simp [anyStartsWith]
  | cons m ms ih => simp [anyStartsWith, ih]

/-- One step of the walk, by the kind of the node. -/
theorem startsWith_iff : r.startsWith target ↔
    (r.kind = .symbol ∧ r.name = some target) ∨
    (r.kind = .seq ∧ ∃ m, r.members.head? = some m ∧ m.startsWith target) ∨
    (r.kind = .choice ∧ ∃ m ∈ r.members, m.startsWith target) ∨
    (r.kind.beginsWithContent ∧ r.kind ≠ .reserved ∧
      ∃ c, r.content = some c ∧ c.startsWith target) := by
  obtain ⟨k, v, n, c, ms, d, f, x⟩ := r
  cases k <;>
    simp [startsWith, Kind.beginsWithContent, Kind.isWrapper, contentStartsWith_iff, firstStartsWith_iff,
      anyStartsWith_iff]

theorem startsWith_of_symbol (h : r.kind = .symbol) :
    r.startsWith target ↔ r.name = some target := by
  rw [startsWith_iff]
  simp [h, Kind.beginsWithContent, Kind.isWrapper]

theorem startsWith_of_seq (h : r.kind = .seq) :
    r.startsWith target ↔ ∃ m, r.members.head? = some m ∧ m.startsWith target := by
  rw [startsWith_iff]
  simp [h, Kind.beginsWithContent, Kind.isWrapper]

theorem startsWith_of_choice (h : r.kind = .choice) :
    r.startsWith target ↔ ∃ m ∈ r.members, m.startsWith target := by
  rw [startsWith_iff]
  simp [h, Kind.beginsWithContent, Kind.isWrapper]

theorem startsWith_of_content {c : Rule} (h : r.kind.beginsWithContent) (hr : r.kind ≠ .reserved)
    (hc : r.content = some c) : r.startsWith target ↔ c.startsWith target := by
  have hkind : r.kind ≠ .symbol ∧ r.kind ≠ .seq ∧ r.kind ≠ .choice := by
    refine ⟨?_, ?_, ?_⟩ <;> intro hk <;> rw [hk] at h <;> cases h
  rw [startsWith_iff]
  simp [h, hr, hc, hkind]

/-! ## What the walk finds -/

theorem BeginsWith.of_head? {m : Rule} (hk : r.kind = .seq) (hm : r.members.head? = some m)
    (h : m.BeginsWith target) : r.BeginsWith target := by
  obtain ⟨back, hback⟩ := List.head?_eq_some_iff.mp hm
  exact .seq hk hback (List.forall_mem_nil _) h

theorem BeginsWith.of_startsWith (h : r.startsWith target) : r.BeginsWith target := by
  induction r using ind with
  | node r ih =>
    rcases startsWith_iff.mp h with ⟨hk, hn⟩ | ⟨hk, m, hm, h⟩ | ⟨hk, m, hm, h⟩ | ⟨hk, -, c, hc, h⟩
    · exact .symbol hk hn
    · exact .of_head? hk hm (ih m (mem_children.mpr (.inr (List.mem_of_head? hm))) h)
    · exact .choice hk hm (ih m (mem_children.mpr (.inr hm)) h)
    · exact .content hk hc (ih c (mem_children.mpr (.inl hc)) h)

theorem Overlooks.beginsWith (h : r.Overlooks target) : r.BeginsWith target := by
  cases h with
  | later hk hms _ hfront h => exact .seq hk hms hfront h
  | reserved hk hc h => exact .content (by rw [hk]; rfl) hc h

/-- What a node can begin with that the walk comes to, the rule can begin with. -/
theorem Leading.beginsWith {node : Rule} (hl : node.Leading r) (h : node.BeginsWith target) :
    r.BeginsWith target := by
  induction hl with
  | here => exact h
  | first hk hm _ ih => exact .of_head? hk hm ih
  | choice hk hm _ ih => exact .choice hk hm ih
  | content hk _ hc _ ih => exact .content hk hc ih

/-- A rule can begin with a reference just if the walk finds it, or comes to a node that overlooks
it. -/
theorem beginsWith_iff : r.BeginsWith target ↔
    r.startsWith target ∨ ∃ node : Rule, node.Leading r ∧ node.Overlooks target := by
  constructor
  · intro h
    induction h with
    | symbol hk hn => exact .inl ((startsWith_of_symbol hk).mpr hn)
    | @seq r m front back hk hms hfront h ih =>
      cases front with
      | cons p front => exact .inr ⟨r, .here, .later hk hms (List.cons_ne_nil p front) hfront h⟩
      | nil =>
        have hm : r.members.head? = some m := by rw [hms]; rfl
        rcases ih with h | ⟨node, hl, ho⟩
        · exact .inl ((startsWith_of_seq hk).mpr ⟨m, hm, h⟩)
        · exact .inr ⟨node, .first hk hm hl, ho⟩
    | @choice r m hk hm _ ih =>
      rcases ih with h | ⟨node, hl, ho⟩
      · exact .inl ((startsWith_of_choice hk).mpr ⟨m, hm, h⟩)
      · exact .inr ⟨node, .choice hk hm hl, ho⟩
    | @content r c hk hc h ih =>
      by_cases hr : r.kind = .reserved
      · exact .inr ⟨r, .here, .reserved hr hc h⟩
      rcases ih with h | ⟨node, hl, ho⟩
      · exact .inl ((startsWith_of_content hk hr hc).mpr h)
      · exact .inr ⟨node, .content hk hr hc hl, ho⟩
  · rintro (h | ⟨node, hl, ho⟩)
    · exact .of_startsWith h
    · exact hl.beginsWith ho.beginsWith

/-! ## Where nothing is overlooked -/

theorem not_nullable_of_symbol (h : r.kind = .symbol) : ¬ Nullable r := by
  intro hn
  cases hn with
  | blank hk | repeat0 hk | seq hk | choice hk => cases h.symm.trans hk
  | content hk =>
    rw [h] at hk
    simp [Kind.isWrapper] at hk

theorem Leading.eq_of_symbol {node : Rule} (h : r.kind = .symbol) (hl : node.Leading r) :
    node = r := by
  cases hl with
  | here => rfl
  | first hk | choice hk => cases h.symm.trans hk
  | content hk =>
    rw [h] at hk
    cases hk

/-- Only sequences and reserved-word contexts overlook anything. -/
theorem not_overlooks_of_kind (hs : r.kind ≠ .seq) (hr : r.kind ≠ .reserved) :
    ¬ Overlooks target r := by
  rintro (hk | hk)
  · exact hs hk
  · exact hr hk

/-- A sequence whose first member cannot be empty overlooks nothing. -/
theorem not_overlooks_of_head? {m : Rule} (hk : r.kind = .seq) (hm : r.members.head? = some m)
    (h : ¬ Nullable m) : ¬ Overlooks target r := by
  intro ho
  cases ho with
  | @later _ front back _ hms hne hfront =>
    obtain ⟨first, rest, rfl⟩ := List.exists_cons_of_ne_nil hne
    rw [hms] at hm
    cases hm
    exact h (hfront m List.mem_cons_self)
  | reserved hr => cases hk.symm.trans hr

end GrammarTables.Rule
