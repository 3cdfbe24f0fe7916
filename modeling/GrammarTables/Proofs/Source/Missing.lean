import GrammarTables.Proofs.Source.Chain
import GrammarTables.Proofs.Source.Directory

/-!
# Directories without tables

A directory that has no tables for a name does not always say so. It does where none of the name's
places can be found and none is obstructed, and then what it falls back on is asked. If a place is
obstructed, by a file in the way or by the length of its name, the search ends there as if there
were tables that cannot be read.
-/

namespace GrammarTables.Source

variable {t : FileTree} {root name path : String}

/-- There is nothing at the path, and nothing is in the way. -/
def Lacks (t : FileTree) (path : String) : Prop := ¬ t.Has path ∧ ∀ e, ¬ t.Obstructs path e

theorem lacks_iff : Lacks t path ↔ t.read path = .error .notFound :=
  FileTree.read_eq_notFound_iff.symm

theorem resolve_eq_nothing_iff (h : IsPlain name) :
    (directory t.read root).resolve name =
        ⟨.error ⟨name, .notFound (candidates root name)⟩, []⟩ ↔
      ∀ path ∈ candidates root name, Lacks t path := by
  rw [resolve_eq_iff h]
  simp only [lacks_iff]
  constructor
  · rintro (_ | _ | hall)
    exact hall
  · exact .nothing

theorem resolve_eq_unreadable_iff (h : IsPlain name) {e : ReadError} :
    (directory t.read root).resolve name = ⟨.error ⟨name, .unreadable path e⟩, []⟩ ↔
      ∃ front back, candidates root name = front ++ path :: back ∧ (∀ p ∈ front, Lacks t p) ∧
        (t.HoldsNoText path e ∨ t.Obstructs path e) := by
  rw [resolve_eq_iff h]
  simp only [lacks_iff]
  constructor
  · intro hs
    cases hs with
    | unreadable hpaths hfront hread he =>
      exact ⟨_, _, hpaths, hfront, (FileTree.read_eq_error_iff he).mp hread⟩
  · rintro ⟨front, back, hpaths, hfront, hbad⟩
    have he : e ≠ .notFound := hbad.elim (·.ne_notFound) (·.ne_notFound)
    exact .unreadable hpaths hfront ((FileTree.read_eq_error_iff he).mpr hbad) he

theorem resolve_orElse_of_lacks (h : IsPlain name) (hall : ∀ path ∈ candidates root name, Lacks t path)
    (other : Source) :
    ((directory t.read root).orElse other).resolve name =
      ⟨(other.resolve name).value.mapError (·.searchedAfter (candidates root name)),
        (other.resolve name).events⟩ := by
  have hresolve := (resolve_eq_nothing_iff h).mpr hall
  obtain ⟨hmiss, hsearched⟩ := misses_of_value (congrArg Logged.value hresolve)
  rw [resolve_orElse_of_misses hmiss, hsearched, reports, reports, hresolve]
  rfl

/-! ## What is in the way -/

/-- Where the first place of a name is blocked, the search ends. -/
theorem resolve_of_blocks (h : IsPlain name) {mid : FileTree.Spot} {e : ReadError}
    (hroot : t.LeadsTo root mid) (hpath : FileTree.IsPath (below root (name ++ ".json")))
    (hblock : t.Blocks mid (name ++ ".json") e) :
    (directory t.read root).resolve name =
      ⟨.error ⟨name, .unreadable (below root (name ++ ".json")) e⟩, []⟩ :=
  (resolve_eq_unreadable_iff h).mpr ⟨[], _, rfl, List.forall_mem_nil _,
    .inr (obstructs_below h.isPart_json hpath hroot hblock)⟩

/-- A name that is too long for a file is not looked for. -/
theorem resolve_of_long (h : IsPlain name)
    (hlong : FileTree.partLimit < (name ++ ".json").utf8ByteSize)
    (hshort : (name ++ ".json").utf8ByteSize ≤ FileTree.pathLimit) :
    (directory t.read "").resolve name =
      ⟨.error ⟨name, .unreadable (name ++ ".json") .nameTooLong⟩, []⟩ := by
  have hbelow : below "" (name ++ ".json") = name ++ ".json" := String.empty_append
  have hpath : FileTree.IsPath (name ++ ".json") := by
    refine ⟨fun hnull => ?_, hshort⟩
    rw [String.toList_append, List.mem_append] at hnull
    rcases hnull with hnull | hnull
    · exact absurd (h.plain _ hnull) (by decide)
    · exact absurd hnull (by decide)
  have hroot : t.LeadsTo "" (.inside []) := .part (.stay _) (.here _)
  have hblock : t.Blocks (.inside []) (name ++ ".json") .nameTooLong :=
    .long rfl h.isPart_json.isName hlong
  have hresolve := resolve_of_blocks h hroot (hbelow.symm ▸ hpath) hblock
  rwa [hbelow] at hresolve

/-- In an empty tree there is nothing at the places of a name. -/
theorem not_has_of_empty (h : IsPlain name) :
    ∀ path ∈ candidates root name, ¬ ({} : FileTree).Has path := by
  rintro path hmem ⟨entry, hentry⟩
  rw [candidates_eq h, List.mem_map] at hmem
  obtain ⟨names, hnames, rfl⟩ := hmem
  obtain ⟨there, hlead, hthere⟩ := hentry.leads
  have hne : names ≠ [] := by
    rintro rfl
    simp [layouts] at hnames
  obtain ⟨place, -, rfl⟩ := below_of_leadsTo_join hne (isPart_of_mem_layouts h hnames) hlead
  simp [FileTree.entryAt?, FileTree.entry?, hne] at hthere

/-- A file that is called as the grammar is. -/
def fileInTheWay : FileTree := ⟨[(["verse"], .file [])]⟩

/-- A name of that many letters. -/
def letters (n : Nat) : String := .ofList (.replicate n 'a')

theorem isPlain_letters {n : Nat} (h : 2 < n) : IsPlain (letters n) := by
  have hlength : (letters n).length = n := by simp [letters]
  refine ⟨FileTree.isName_of_length (hlength.symm ▸ h), fun c hc => ?_⟩
  rw [letters, String.toList_ofList] at hc
  rw [List.eq_of_mem_replicate hc]
  decide

theorem size_letters (n : Nat) : (letters n).utf8ByteSize = n := by
  induction n with
  | zero => rfl
  | succ n ih =>
    have hcons : letters (n + 1) = String.singleton 'a' ++ letters n := by
      rw [← String.toList_inj]
      simp [letters, List.replicate_succ]
    rw [hcons, String.utf8ByteSize_append, ih, Nat.add_comm]
    rfl

/-- There are no tables at any place of the name, but what a directory says is that they cannot be
read, and the grammar of that name which comes with the program is not found. -/
theorem directory_not_missing :
    (IsPlain "verse" ∧ (∀ path ∈ candidates "" "verse", ¬ fileInTheWay.Has path) ∧
      ((directory fileInTheWay.read "").orElse .embedded).resolve "verse" =
        ⟨.error ⟨"verse", .unreadable "verse/src/grammar.json" .notDirectory⟩, []⟩) ∧
    (IsPlain (letters 251) ∧ (∀ path ∈ candidates "" (letters 251), ¬ ({} : FileTree).Has path) ∧
      (directory ({} : FileTree).read "").resolve (letters 251) =
        ⟨.error ⟨letters 251, .unreadable (letters 251 ++ ".json") .nameTooLong⟩, []⟩) := by
  have hplain : IsPlain "verse" := by decide
  have hlong : IsPlain (letters 251) := isPlain_letters (by decide)
  refine ⟨⟨hplain, ?_, ?_⟩, hlong, not_has_of_empty hlong, ?_⟩
  · have hread : ∀ path ∈ candidates "" "verse", fileInTheWay.read path = .error .notFound ∨
        fileInTheWay.read path = .error .notDirectory := by decide +kernel
    intro path hpath
    rcases hread path hpath with h | h <;> exact FileTree.not_has_of_read h nofun nofun
  · have hdirectory : (directory fileInTheWay.read "").resolve "verse" =
        ⟨.error ⟨"verse", .unreadable "verse/src/grammar.json" .notDirectory⟩, []⟩ := by
      have hfirst : ∀ p ∈ ["verse.json"], fileInTheWay.read p = .error .notFound := by
        decide +kernel
      exact (resolve_eq_iff hplain).mpr (.unreadable rfl hfirst (by decide +kernel) nofun)
    rw [resolve_orElse_of_not_misses (by simp [misses, hdirectory, LoadError.isNotFound]), hdirectory]
  · have hsize : (letters 251 ++ ".json").utf8ByteSize = 256 := by
      rw [String.utf8ByteSize_append, size_letters]
      rfl
    exact resolve_of_long hlong (by rw [hsize]; decide) (by rw [hsize]; decide)

/-! ## When a directory says that it has nothing -/

/-- A directory says that it has nothing for a plain name, and where it has looked, just when there
is nothing at any of the name's places and nothing in the way; then what it falls back on answers.
That a place cannot be read it says just when there is no text at that place or something is in the
way, and nothing was found at the places before it; where something is in the way there is nothing
that could be read. -/
theorem resolve_directory_files (t : FileTree) {root name : String} (h : IsPlain name) :
    ((directory t.read root).resolve name =
        ⟨.error ⟨name, .notFound (candidates root name)⟩, []⟩ ↔
      ∀ path ∈ candidates root name, ¬ t.Has path ∧ ∀ e, ¬ t.Obstructs path e) ∧
    (∀ path e, (directory t.read root).resolve name = ⟨.error ⟨name, .unreadable path e⟩, []⟩ ↔
      ∃ front back, candidates root name = front ++ path :: back ∧
        (∀ p ∈ front, ¬ t.Has p ∧ ∀ e, ¬ t.Obstructs p e) ∧
        (t.HoldsNoText path e ∨ t.Obstructs path e)) ∧
    (∀ path e, (t.HoldsNoText path e → t.Has path) ∧ (t.Obstructs path e → ¬ t.Has path)) ∧
    ∀ other : Source,
      (∀ path ∈ candidates root name, ¬ t.Has path ∧ ∀ e, ¬ t.Obstructs path e) →
      ((directory t.read root).orElse other).resolve name =
        ⟨(other.resolve name).value.mapError (·.searchedAfter (candidates root name)),
          (other.resolve name).events⟩ :=
  ⟨resolve_eq_nothing_iff h, fun _ _ => resolve_eq_unreadable_iff h,
    fun _ _ => ⟨FileTree.HoldsNoText.has, FileTree.Obstructs.not_has⟩,
    fun other hall => resolve_orElse_of_lacks h hall other⟩

/-- A directory in a place of tables. -/
def shelf : FileTree := ⟨[(["g"], .directory), (["g", "words.json"], .directory)]⟩

theorem resolve_directory_files_shelf :
    (directory shelf.read "g").resolve "words" =
      ⟨.error ⟨"words", .unreadable "g/words.json" .isDirectory⟩, []⟩ ∧
    (directory shelf.read "g").resolve "verse" =
      ⟨.error ⟨"verse", .notFound ["g/verse.json", "g/verse/src/grammar.json",
        "g/tree-sitter-verse/src/grammar.json"]⟩, []⟩ ∧
    (((directory shelf.read "g").orElse .embedded).resolve "verse").value =
      .ok (.built "embedded:verse" Verse.grammar) := by
  have hwords : IsPlain "words" := by decide
  have hverse : IsPlain "verse" := by decide
  have hplaces : candidates "g" "words" = [] ++ "g/words.json" :: ["g/words/src/grammar.json",
      "g/tree-sitter-words/src/grammar.json"] := by decide +kernel
  have hplaces' : candidates "g" "verse" = ["g/verse.json", "g/verse/src/grammar.json",
      "g/tree-sitter-verse/src/grammar.json"] := by decide +kernel
  have hall : ∀ path ∈ candidates "g" "verse", ¬ shelf.Has path ∧ ∀ e, ¬ shelf.Obstructs path e := by
    have hread : ∀ path ∈ candidates "g" "verse", shelf.read path = .error .notFound := by
      decide +kernel
    exact fun path hpath => FileTree.read_eq_notFound_iff.mp (hread path hpath)
  obtain ⟨-, hunreadable, -⟩ := resolve_directory_files shelf hwords
  obtain ⟨hnothing, -, -, hother⟩ := resolve_directory_files shelf hverse
  have hread : shelf.read "g/words.json" = .error .isDirectory := by decide +kernel
  have hbad := (FileTree.read_eq_error_iff (by decide)).mp hread
  refine ⟨(hunreadable _ _).mpr ⟨[], _, hplaces, List.forall_mem_nil _, hbad⟩,
    hplaces' ▸ hnothing.mpr hall, ?_⟩
  rw [hother .embedded hall]
  rfl

end GrammarTables.Source
