import GrammarTables.Proofs.Source.Places

/-!
# Searching a directory

A directory is searched place by place. The first place that is not missing decides, whether it has
a text or cannot be read, and what is at the places behind it makes no difference. What makes a
difference is at the places of plain names only, and those are below the directory.
-/

namespace GrammarTables.Source

open FileTree (IsPart)

variable {read read' : String → Except ReadError String} {root name path : String}
  {front back paths : List String} {answer : Logged (Except LoadError Tables)}

/-- What a search for `name` comes to: the first path that is not missing decides. -/
inductive Search (read : String → Except ReadError String) (name : String) (paths : List String) :
    Logged (Except LoadError Tables) → Prop where
  | text {front back : List String} {path json : String} : paths = front ++ path :: back →
      (∀ p ∈ front, read p = .error .notFound) → read path = .ok json →
      Search read name paths ⟨.ok (.text path json), [.tablesRead name path]⟩
  | unreadable {front back : List String} {path : String} {e : ReadError} :
      paths = front ++ path :: back → (∀ p ∈ front, read p = .error .notFound) →
      read path = .error e → e ≠ .notFound →
      Search read name paths ⟨.error ⟨name, .unreadable path e⟩, []⟩
  | nothing : (∀ p ∈ paths, read p = .error .notFound) →
      Search read name paths ⟨.error ⟨name, .notFound paths⟩, []⟩

/-! ## The first place that is not missing -/

theorem firstFile_append (h : ∀ p ∈ front, read p = .error .notFound) :
    firstFile read name (front ++ paths) = firstFile read name paths := by
  induction front with
  | nil => rfl
  | cons p front ih =>
    obtain ⟨hp, hfront⟩ := List.forall_mem_cons.mp h
    rw [List.cons_append, firstFile, hp]
    exact ih hfront

theorem firstFile_congr (h : ∀ path ∈ paths, read path = read' path) :
    firstFile read name paths = firstFile read' name paths := by
  induction paths with
  | nil => rfl
  | cons path paths ih =>
    obtain ⟨hpath, hpaths⟩ := List.forall_mem_cons.mp h
    rw [firstFile, firstFile, hpath, ih hpaths]

/-- Behind a place that is not missing no place counts. -/
theorem firstFile_of_not_missing (hpath : read path ≠ .error .notFound)
    (h : ∀ p ∈ front ++ [path], read' p = read p) :
    firstFile read' name (front ++ path :: back) = firstFile read name (front ++ path :: back) := by
  induction front with
  | nil =>
    have hread : read' path = read path := h path (by simp)
    rw [List.nil_append, firstFile, firstFile, hread]
    cases hr : read path with
    | ok json => rfl
    | error e =>
      cases e with
      | notFound => exact absurd hr hpath
      | _ => rfl
  | cons p front ih =>
    obtain ⟨hp, hfront⟩ := List.forall_mem_cons.mp h
    rw [List.cons_append, firstFile, firstFile, hp, ih hfront]

theorem firstFile_of_search (h : Search read name paths answer) :
    (firstFile read name paths).getD ⟨.error ⟨name, .notFound paths⟩, []⟩ = answer := by
  cases h with
  | text hpaths hfront hread =>
    subst hpaths
    rw [firstFile_append hfront, firstFile, hread]
    rfl
  | @unreadable front back path e hpaths hfront hread he =>
    subst hpaths
    rw [firstFile_append hfront, firstFile, hread]
    cases e with
    | notFound => exact absurd rfl he
    | _ => rfl
  | nothing h =>
    rw [← List.append_nil paths, firstFile_append h]
    rfl

theorem exists_search (read : String → Except ReadError String) (name : String)
    (paths : List String) : ∃ answer, Search read name paths answer := by
  cases hfind : paths.find? fun p => read p ≠ .error .notFound with
  | none => exact ⟨_, .nothing fun p hp => by simpa using List.find?_eq_none.mp hfind p hp⟩
  | some path =>
    obtain ⟨hpath, front, back, hpaths, hfront⟩ := List.find?_eq_some_iff_append.mp hfind
    have hfront : ∀ p ∈ front, read p = .error .notFound := by simpa using hfront
    cases hread : read path with
    | ok json => exact ⟨_, .text hpaths hfront hread⟩
    | error e => exact ⟨_, .unreadable hpaths hfront hread (by simpa [hread] using hpath)⟩

theorem firstFile_eq_iff :
    (firstFile read name paths).getD ⟨.error ⟨name, .notFound paths⟩, []⟩ = answer ↔
      Search read name paths answer := by
  refine ⟨?_, firstFile_of_search⟩
  rintro rfl
  obtain ⟨answer, h⟩ := exists_search read name paths
  rwa [firstFile_of_search h]

/-! ## Directories -/

theorem resolve_of_isPlain (h : IsPlain name) :
    (directory read root).resolve name =
      (firstFile read name (candidates root name)).getD
        ⟨.error ⟨name, .notFound (candidates root name)⟩, []⟩ :=
  if_pos (isPlainName_iff.mpr h)

theorem resolve_of_not_isPlain (h : ¬ IsPlain name) :
    (directory read root).resolve name = ⟨.error ⟨name, .invalidName⟩, []⟩ :=
  if_neg (mt isPlainName_iff.mp h)

theorem resolve_eq_iff (h : IsPlain name) :
    (directory read root).resolve name = answer ↔
      Search read name (candidates root name) answer := by
  rw [resolve_of_isPlain h, firstFile_eq_iff]

theorem resolve_directory_congr
    (h : IsPlain name → ∀ path ∈ candidates root name, read path = read' path) :
    (directory read root).resolve name = (directory read' root).resolve name := by
  by_cases hplain : IsPlain name
  · rw [resolve_of_isPlain hplain, resolve_of_isPlain hplain, firstFile_congr (h hplain)]
  · rw [resolve_of_not_isPlain hplain, resolve_of_not_isPlain hplain]

/-- For a plain name the first place that is not missing decides, and those behind it do not count.
A name that is not plain is refused, whatever there is. -/
theorem resolve_directory (read : String → Except ReadError String) (root name : String) :
    (IsPlain name →
      candidates root name = (layouts name).map (join root) ∧
      (∀ answer, (directory read root).resolve name = answer ↔
        Search read name (candidates root name) answer) ∧
      ∀ front path back read', candidates root name = front ++ path :: back →
        read path ≠ .error .notFound → (∀ p ∈ front ++ [path], read' p = read p) →
        (directory read' root).resolve name = (directory read root).resolve name) ∧
    (¬ IsPlain name →
      (directory read root).resolve name = ⟨.error ⟨name, .invalidName⟩, []⟩) := by
  refine ⟨fun h => ⟨candidates_eq h root, fun answer => resolve_eq_iff h, ?_⟩,
    resolve_of_not_isPlain⟩
  intro front path back read' hplaces hpath hagree
  rw [resolve_of_isPlain h, resolve_of_isPlain h, hplaces, firstFile_of_not_missing hpath hagree]

/-- Tables in the second place of a name, and something else in the third. -/
def twoPlaces : String → Except ReadError String
  | "g/words/src/grammar.json" => .ok "tables"
  | "g/tree-sitter-words/src/grammar.json" => .error .isDirectory
  | _ => .error .notFound

theorem resolve_directory_twoPlaces :
    (directory twoPlaces "g").resolve "words" =
      ⟨.ok (.text "g/words/src/grammar.json" "tables"),
        [.tablesRead "words" "g/words/src/grammar.json"]⟩ ∧
    (directory (fun p => if p = "g/tree-sitter-words/src/grammar.json" then .ok "" else twoPlaces p)
      "g").resolve "words" = (directory twoPlaces "g").resolve "words" ∧
    (directory twoPlaces "g").resolve "../words" = ⟨.error ⟨"../words", .invalidName⟩, []⟩ := by
  obtain ⟨hplain, -⟩ := resolve_directory twoPlaces "g" "words"
  obtain ⟨-, hrefused⟩ := resolve_directory twoPlaces "g" "../words"
  obtain ⟨-, hsearch, hbehind⟩ := hplain (by decide)
  have hplaces : candidates "g" "words" = ["g/words.json"] ++ "g/words/src/grammar.json" ::
      ["g/tree-sitter-words/src/grammar.json"] := by decide +kernel
  have hmissing : ∀ p ∈ ["g/words.json"], twoPlaces p = .error .notFound := by decide
  refine ⟨(hsearch _).mpr (.text hplaces hmissing rfl), ?_, hrefused (by decide)⟩
  exact hbehind _ _ _ _ hplaces nofun (by decide)

/-! ## What a directory looks at -/

/-- What is at the path can make a difference to the answer for the name. -/
def LooksAt (root name path : String) : Prop :=
  ∃ read read' : String → Except ReadError String, (∀ p, p ≠ path → read p = read' p) ∧
    (directory read root).resolve name ≠ (directory read' root).resolve name

theorem looksAt_iff : LooksAt root name path ↔ IsPlain name ∧ path ∈ candidates root name := by
  constructor
  · rintro ⟨read, read', hagree, hne⟩
    by_contra hnot
    refine hne (resolve_directory_congr fun hplain p hp => hagree p ?_)
    rintro rfl
    exact hnot ⟨hplain, hp⟩
  · rintro ⟨hplain, hmem⟩
    -- nothing anywhere, or a text at the path alone
    let nowhere : String → Except ReadError String := fun _ => .error .notFound
    let alone : String → Except ReadError String := fun p =>
      if p = path then .ok "" else .error .notFound
    refine ⟨nowhere, alone, fun p hp => (if_neg hp).symm, fun heq => ?_⟩
    rw [(resolve_eq_iff hplain).mpr (.nothing fun _ _ => rfl)] at heq
    cases (resolve_eq_iff hplain).mp heq.symm with
    | nothing h => exact nomatch (if_pos rfl).symm.trans (h path hmem)

/-- What a directory looks at for a name is below it, and names share what they look at only where
one is the other behind `tree-sitter-`. -/
theorem looksAt_confined (root name : String) :
    (∀ path, LooksAt root name path ↔ IsPlain name ∧ path ∈ candidates root name) ∧
    (∀ path, LooksAt root name path → ∃ names : List String,
      (names.length = 1 ∨ names.length = 3) ∧ (∀ part ∈ names, IsPart part) ∧
      path = join root names ∧
      ∀ (t : FileTree) (there : FileTree.Spot), t.LeadsTo path there →
        ∃ place, t.LeadsTo root (.inside place) ∧ there = .inside (place ++ names)) ∧
    ∀ other, IsPlain name → IsPlain other → name ≠ other → ∀ i j p q,
      (candidates root name)[i]? = some p → (candidates root other)[j]? = some q →
      (p = q ↔ (name = "tree-sitter-" ++ other ∧ i = 1 ∧ j = 2) ∨
        (other = "tree-sitter-" ++ name ∧ i = 2 ∧ j = 1)) := by
  refine ⟨fun path => looksAt_iff, fun path h => ?_,
    fun other hn ho hne i j p q hp hq => place_eq_iff hn ho hne hp hq⟩
  obtain ⟨hplain, hmem⟩ := looksAt_iff.mp h
  rw [candidates_eq hplain, List.mem_map] at hmem
  obtain ⟨names, hnames, rfl⟩ := hmem
  have hparts := isPart_of_mem_layouts hplain hnames
  have hlength : names.length = 1 ∨ names.length = 3 := by
    simp only [layouts, List.mem_cons, List.not_mem_nil, or_false] at hnames
    rcases hnames with rfl | rfl | rfl <;> simp
  have hne : names ≠ [] := by
    rintro rfl
    simp at hlength
  exact ⟨names, hlength, hparts, rfl, fun t there hlead => below_of_leadsTo_join hne hparts hlead⟩

theorem looksAt_confined_treeSitterWords :
    (∃ names : List String, (names.length = 1 ∨ names.length = 3) ∧ (∀ part ∈ names, IsPart part) ∧
      "g/tree-sitter-words/src/grammar.json" = join "g" names) ∧
    (candidates "g" "tree-sitter-words")[1]? = (candidates "g" "words")[2]? := by
  obtain ⟨hlooks, hbelow, hshared⟩ := looksAt_confined "g" "tree-sitter-words"
  have hplain : IsPlain "tree-sitter-words" := by decide
  have hp : (candidates "g" "tree-sitter-words")[1]? =
      some "g/tree-sitter-words/src/grammar.json" := by decide +kernel
  have hq : (candidates "g" "words")[2]? = some "g/tree-sitter-words/src/grammar.json" := by
    decide +kernel
  obtain ⟨names, hlength, hparts, hpath, -⟩ :=
    hbelow _ ((hlooks _).mpr ⟨hplain, List.mem_of_getElem? hp⟩)
  refine ⟨⟨names, hlength, hparts, hpath⟩, ?_⟩
  have heq := (hshared "words" hplain (by decide) (by decide) 1 2 _ _ hp hq).mpr
    (.inl ⟨by decide, rfl, rfl⟩)
  rw [hp, hq, heq]

end GrammarTables.Source
