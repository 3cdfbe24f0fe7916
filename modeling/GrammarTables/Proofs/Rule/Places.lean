import GrammarTables.Proofs.Grammar.Closed

/-!
# Places in a rule

A node of a rule has a place: the steps that lead to it from the top. A walk comes to the places in
the order of the steps, where what is on the way comes first. So the symbols are known from where
they stand, and both walks over them see the same.
-/

namespace GrammarTables.Rule

/-- `node.At path body`: the path leads from the body to the node. Step 0 goes to the content of a
node and step `i + 1` to its member `i`. -/
inductive At (node : Rule) : List Nat → Rule → Prop where
  | here : At node [] node
  | content {path : List Nat} {parent child : Rule} :
      parent.content = some child → At node path child → At node (0 :: path) parent
  | member {i : Nat} {path : List Nat} {parent child : Rule} :
      parent.members[i]? = some child → At node path child → At node ((i + 1) :: path) parent

/-! ## The parts of a node -/

/-- The parts of a node, each with the step to it. -/
def parts (r : Rule) : List (Rule × Nat) := r.content.toList.map (·, 0) ++ r.members.zipIdx 1

variable {r node : Rule} {i : Nat} {path : List Nat}

theorem map_parts (r : Rule) : r.parts.map (·.1) = r.children := by
  rw [parts, List.map_append, List.zipIdx_map_fst, List.map_map, children]
  exact congrArg (· ++ r.members) (List.map_id _)

theorem mem_parts {s : Rule} : (s, i) ∈ r.parts ↔
    (i = 0 ∧ r.content = some s) ∨ ∃ k, i = k + 1 ∧ r.members[k]? = some s := by
  rw [parts, List.mem_append, List.mk_mem_zipIdx_iff_le_and_getElem?_sub]
  refine or_congr ?_ ⟨fun ⟨hi, hs⟩ => ⟨i - 1, by omega, hs⟩, ?_⟩
  · cases r.content <;> simp [eq_comm, and_comm]
  · rintro ⟨k, rfl, hs⟩
    exact ⟨k.succ_pos, hs⟩

theorem mem_children_of_mem_parts {s : Rule} (h : (s, i) ∈ r.parts) : s ∈ r.children :=
  map_parts r ▸ List.mem_map_of_mem h

/-- The steps to the parts ascend. -/
theorem pairwise_parts (r : Rule) : r.parts.Pairwise (·.2 < ·.2) := by
  have hmembers : (r.members.zipIdx 1).Pairwise (·.2 < ·.2) := by
    have hsteps : ((r.members.zipIdx 1).map (·.2)).Pairwise (· < ·) :=
      List.zipIdx_map_snd 1 r.members ▸ List.pairwise_lt_range'
    exact List.pairwise_map.mp hsteps
  refine List.pairwise_append.mpr ⟨?_, hmembers, fun a ha b hb => ?_⟩
  · cases r.content <;> simp
  · obtain ⟨s, -, rfl⟩ := List.mem_map.mp ha
    exact (List.mem_zipIdx_iff_le_and_getElem?_sub.mp hb).1

theorem at_iff : node.At path r ↔
    (path = [] ∧ node = r) ∨ ∃ s i rest, (s, i) ∈ r.parts ∧ path = i :: rest ∧ node.At rest s := by
  constructor
  · rintro (_ | ⟨hc, h⟩ | ⟨hm, h⟩)
    · exact .inl ⟨rfl, rfl⟩
    · exact .inr ⟨_, _, _, mem_parts.mpr (.inl ⟨rfl, hc⟩), rfl, h⟩
    · exact .inr ⟨_, _, _, mem_parts.mpr (.inr ⟨_, rfl, hm⟩), rfl, h⟩
  · rintro (⟨rfl, rfl⟩ | ⟨s, i, rest, hpart, rfl, h⟩)
    · exact .here
    · obtain ⟨rfl, hc⟩ | ⟨k, rfl, hm⟩ := mem_parts.mp hpart
      · exact .content hc h
      · exact .member hm h

/-! ## All places -/

mutual

/-- All nodes, each with the path to it. -/
def places : Rule → List (List Nat × Rule)
  | ⟨k, v, n, c, ms, d, f, x⟩ =>
    ([], ⟨k, v, n, c, ms, d, f, x⟩) :: (contentPlaces c ++ memberPlaces 1 ms)

def contentPlaces : Option Rule → List (List Nat × Rule)
  | none => []
  | some r => (places r).map fun (path, node) => (0 :: path, node)

def memberPlaces (i : Nat) : List Rule → List (List Nat × Rule)
  | [] => []
  | r :: rs => (places r).map (fun (path, node) => (i :: path, node)) ++ memberPlaces (i + 1) rs

end

/-- The places in a part of a node, as seen from the node. -/
def placesBelow (part : Rule × Nat) : List (List Nat × Rule) :=
  part.1.places.map fun (path, node) => (part.2 :: path, node)

theorem memberPlaces_eq_flatMap (i : Nat) (ms : List Rule) :
    memberPlaces i ms = (ms.zipIdx i).flatMap placesBelow := by
  induction ms generalizing i with
  | nil => rfl
  | cons m ms ih => rw [memberPlaces, ih, List.zipIdx_cons, List.flatMap_cons]; rfl

theorem places_eq_cons (r : Rule) : r.places = ([], r) :: r.parts.flatMap placesBelow := by
  obtain ⟨k, v, n, c, ms, d, f, x⟩ := r
  rw [places, memberPlaces_eq_flatMap, parts, List.flatMap_append]
  cases c <;> simp [contentPlaces, placesBelow]

/-- A walk over the places is the walk over the nodes. -/
theorem map_places (r : Rule) : r.places.map (·.2) = r.nodes := by
  induction r using ind with
  | node r ih =>
    have hparts : r.parts.flatMap (fun part => part.1.nodes) = r.children.flatMap nodes := by
      rw [← map_parts, List.flatMap_map]
    rw [places_eq_cons, nodes_eq_cons, List.map_cons, List.map_flatMap, ← hparts]
    refine congrArg (r :: ·) (List.flatMap_congr fun part hpart => ?_)
    rw [placesBelow, List.map_map, ← ih part.1 (mem_children_of_mem_parts hpart)]
    rfl

theorem mem_places : (path, node) ∈ r.places ↔ node.At path r := by
  induction r using ind generalizing path with
  | node r ih =>
    rw [places_eq_cons, List.mem_cons, List.mem_flatMap, at_iff]
    refine or_congr (by simp) ⟨?_, ?_⟩
    · rintro ⟨⟨s, i⟩, hpart, h⟩
      obtain ⟨⟨rest, node⟩, hnode, heq⟩ := List.mem_map.mp h
      cases heq
      exact ⟨s, i, rest, hpart, rfl, (ih s (mem_children_of_mem_parts hpart)).mp hnode⟩
    · rintro ⟨s, i, rest, hpart, rfl, h⟩
      have hnode := (ih s (mem_children_of_mem_parts hpart)).mpr h
      exact ⟨(s, i), hpart, List.mem_map.mpr ⟨_, hnode, rfl⟩⟩

/-- A walk comes to the places in the order of their paths. -/
theorem pairwise_places (r : Rule) : r.places.Pairwise (·.1 < ·.1) := by
  induction r using ind with
  | node r ih =>
    rw [places_eq_cons]
    refine List.pairwise_cons.mpr ⟨fun place h => ?_, List.pairwise_flatMap.mpr ⟨?_, ?_⟩⟩
    · obtain ⟨part, -, hplace⟩ := List.mem_flatMap.mp h
      obtain ⟨below, -, rfl⟩ := List.mem_map.mp hplace
      exact List.nil_lt_cons ..
    · intro part hpart
      refine List.pairwise_map.mpr ((ih part.1 (mem_children_of_mem_parts hpart)).imp fun hlt => ?_)
      exact List.cons_lt_cons_iff.mpr (.inr ⟨rfl, hlt⟩)
    · refine r.pairwise_parts.imp fun hlt a ha b hb => ?_
      obtain ⟨below, -, rfl⟩ := List.mem_map.mp ha
      obtain ⟨below, -, rfl⟩ := List.mem_map.mp hb
      exact List.cons_lt_cons_iff.mpr (.inl hlt)

/-! ## Symbols -/

/-- The names are those of the symbols, in the order of the paths to them. -/
def SymbolsAre (r : Rule) (names : List String) : Prop :=
  ∃ found : List (List Nat × String),
    found.map (·.2) = names ∧ found.Pairwise (·.1 < ·.1) ∧
      ∀ path name, (path, name) ∈ found ↔
        ∃ node : Rule, node.At path r ∧ node.kind = .symbol ∧ node.name = some name

/-- The symbols with their paths. -/
def symbolPlaces (r : Rule) : List (List Nat × String) :=
  r.places.filterMap fun (path, node) => node.symbolName?.map (path, ·)

theorem map_symbolPlaces (r : Rule) : r.symbolPlaces.map (·.2) = r.symbols := by
  rw [symbols_eq_filterMap, ← map_places, List.filterMap_map, symbolPlaces, List.map_filterMap]
  refine List.filterMap_congr fun place _ => ?_
  cases h : place.2.symbolName? <;> simp [h]

theorem mem_symbolPlaces {name : String} : (path, name) ∈ r.symbolPlaces ↔
    ∃ node : Rule, node.At path r ∧ node.kind = .symbol ∧ node.name = some name := by
  simp only [symbolPlaces, List.mem_filterMap, Option.map_eq_some_iff, ← mem_places,
    ← symbolName?_eq_some_iff]
  constructor
  · rintro ⟨⟨path, node⟩, hplace, name, hname, heq⟩
    cases heq
    exact ⟨node, hplace, hname⟩
  · rintro ⟨node, hplace, hname⟩
    exact ⟨(path, node), hplace, name, hname, rfl⟩

theorem pairwise_symbolPlaces (r : Rule) : r.symbolPlaces.Pairwise (·.1 < ·.1) := by
  refine List.pairwise_filterMap.mpr (r.pairwise_places.imp fun hlt a ha b hb => ?_)
  obtain ⟨_, -, rfl⟩ := Option.map_eq_some_iff.mp ha
  obtain ⟨_, -, rfl⟩ := Option.map_eq_some_iff.mp hb
  exact hlt

/-- Lists in the order of the paths are equal if they have the same members. -/
theorem eq_of_mem_places {α : Type} {as bs : List (List Nat × α)} (ha : as.Pairwise (·.1 < ·.1))
    (hb : bs.Pairwise (·.1 < ·.1)) (h : ∀ place, place ∈ as ↔ place ∈ bs) : as = bs := by
  have nodup {cs : List (List Nat × α)} (hc : cs.Pairwise (·.1 < ·.1)) : cs.Nodup := by
    refine hc.imp ?_
    rintro a b hlt rfl
    exact List.lt_irrefl _ hlt
  refine List.Perm.eq_of_pairwise (fun a b _ _ hab hba => ?_) ha hb
    ((List.perm_ext_iff_of_nodup (nodup ha) (nodup hb)).mpr h)
  exact absurd hba (List.lt_asymm hab)

theorem symbols_eq_iff {names : List String} : r.symbols = names ↔ r.SymbolsAre names := by
  constructor
  · rintro rfl
    exact ⟨r.symbolPlaces, r.map_symbolPlaces, r.pairwise_symbolPlaces, fun _ _ => mem_symbolPlaces⟩
  · rintro ⟨found, rfl, hpairwise, hmem⟩
    rw [← map_symbolPlaces]
    refine congrArg _ (eq_of_mem_places r.pairwise_symbolPlaces hpairwise fun place => ?_)
    exact mem_symbolPlaces.trans (hmem place.1 place.2).symm

/-- The symbols come in the order in which they stand, each as often as it occurs, also where a node
that is a symbol has parts. The search for one that is not defined fails just if there is one among
them, and it reports the first. -/
theorem walks_agree (r : Rule) :
    (∀ names, r.symbols = names ↔ r.SymbolsAre names) ∧
    ∀ defined : String → Bool,
      ((r.undefinedSymbol? defined).isSome ↔ ∃ name ∈ r.symbols, defined name = false) ∧
      ∀ name, r.undefinedSymbol? defined = some name ↔
        ∃ front back, r.symbols = front ++ name :: back ∧
          (∀ other ∈ front, defined other = true) ∧ defined name = false := by
  refine ⟨fun _ => symbols_eq_iff, fun defined => ?_⟩
  rw [undefinedSymbol?_eq_find?]
  refine ⟨by simp, fun name => ?_⟩
  rw [List.find?_eq_some_iff_append]
  constructor
  · rintro ⟨hname, front, back, hsplit, hfront⟩
    exact ⟨front, back, hsplit, by simpa using hfront, by simpa using hname⟩
  · rintro ⟨front, back, hsplit, hfront, hname⟩
    exact ⟨by simpa using hname, front, back, hsplit, by simpa using hfront⟩

/-- A symbol with content and members, which are symbols. -/
def crowded : Rule where
  kind := .symbol
  name := some "top"
  content := some (Grammar.reference (some "within"))
  members := [Grammar.reference none, Grammar.reference (some "top")]

example : crowded.symbols = ["top", "within", "top"] ∧
    crowded.symbolPlaces.map (·.1) = [[], [0], [2]] ∧
    crowded.undefinedSymbol? (· == "top") = some "within" := by decide

end GrammarTables.Rule
