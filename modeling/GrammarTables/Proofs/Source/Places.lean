import GrammarTables.Proofs.FileTree.Paths
import GrammarTables.Source

/-!
# Places of grammar tables

The places where a directory may have tables are paths that go on from it by one part or by three,
all of them names. So whatever such a path leads to is below the directory. Two names share a place
only if one is the other behind `tree-sitter-`.
-/

namespace GrammarTables

/-! ## Going on from a path -/

/-- The part is a name, and only one. -/
structure FileTree.IsPart (part : String) : Prop where
  isName : IsName part
  no_slash : '/' ∉ part.toList

namespace Source

open FileTree (IsName IsPart Spot parts)

/-- The path that goes on from `root` by the parts. -/
def join (root : String) (names : List String) : String := names.foldl below root

variable {root name path : String} {names : List String}

theorem endsWith_slash_iff {s : String} : s.endsWith "/" ↔ ∃ init, s = init ++ "/" := by
  rw [String.endsWith_eq_endsWith_toSlice, String.Slice.endsWith_string_iff, String.copy_toSlice]
  constructor
  · rintro ⟨init, h⟩
    exact ⟨.ofList init, String.toList_inj.mp (by simp [← h])⟩
  · rintro ⟨init, rfl⟩
    exact ⟨init.toList, by simp⟩

/-- What stands before all that a path is gone on by. -/
theorem exists_front (root : String) : ∃ front, ∀ path, below root path = front ++ path := by
  unfold below
  split
  · exact ⟨root, fun _ => rfl⟩
  · exact ⟨root ++ "/", fun _ => rfl⟩

theorem below_inj {path path' : String} : below root path = below root path' ↔ path = path' := by
  obtain ⟨front, h⟩ := exists_front root
  rw [h, h, String.append_right_inj]

/-- A path is gone on by a slash and a part, but for the slash where there is one, or nothing. -/
theorem below_cases (root path : String) :
    (root = "" ∧ below root path = path) ∨
      (∃ init, root = init ++ "/" ∧ below root path = init ++ "/" ++ path) ∨
      (root ≠ "" ∧ below root path = root ++ "/" ++ path) := by
  unfold below
  by_cases hempty : root = ""
  · exact .inl ⟨hempty, by simp [hempty]⟩
  · by_cases hslash : root.endsWith "/"
    · obtain ⟨init, rfl⟩ := endsWith_slash_iff.mp hslash
      exact .inr (.inl ⟨init, rfl, by simp [hslash]⟩)
    · exact .inr (.inr ⟨hempty, by simp [hslash, hempty]⟩)

theorem below_below {part : String} (hp : IsPart part) :
    below (below root part) path = below root (part ++ "/" ++ path) := by
  obtain ⟨front, h⟩ := exists_front root
  have hempty : front ++ part ≠ "" := by simp [hp.isName.ne_empty]
  have hslash : ¬ (front ++ part).endsWith "/" := by
    intro hend
    obtain ⟨init, hinit⟩ := endsWith_slash_iff.mp hend
    have hlast := congrArg (fun s => s.toList.getLast?) hinit
    have hsome : part.toList.getLast?.isSome := by simp [hp.isName.ne_empty]
    simp only [String.toList_append, List.getLast?_append, Option.or_of_isSome hsome] at hlast
    exact hp.no_slash (List.mem_of_getLast? (hlast.trans rfl))
  rw [h, h, below, if_neg (by simp [hempty, hslash]), String.append_assoc, String.append_assoc,
    String.append_assoc]

/-! ## Where paths that are gone on lead -/

theorem parts_slash (s s' : String) : parts (s ++ "/" ++ s') = parts s ++ parts s' := by
  have hlist : (s ++ "/" ++ s').toList = s.toList ++ '/' :: s'.toList := by simp
  rw [parts, hlist, List.splitOn_append_cons_self, List.map_append]
  rfl

theorem parts_of_no_slash {part : String} (h : '/' ∉ part.toList) : parts part = [part] := by
  rw [parts, List.splitOn_eq_singleton h, List.map_singleton, String.ofList_toList]

theorem start_append {s s' : String} (h : s ≠ "") :
    FileTree.start (s ++ s') = FileTree.start s := by
  have hiff : (s ++ s').startsWith "/" ↔ s.startsWith "/" := by
    simp only [String.startsWith_string_iff, String.toList_append]
    show ['/'] <+: _ ↔ ['/'] <+: _
    cases hs : s.toList with
    | nil => exact absurd (String.toList_inj.mp hs) h
    | cons c cs => simp [List.cons_prefix_cons]
  simp only [FileTree.start, hiff]

theorem start_of_no_slash {part : String} (h : '/' ∉ part.toList) :
    FileTree.start part = .inside [] := by
  rw [FileTree.start, if_neg]
  rw [String.startsWith_string_iff]
  rintro ⟨rest, hrest⟩
  exact h (hrest ▸ List.mem_cons_self)

variable {t : FileTree} {there : Spot} {part : String}

theorem start_below (root : String) (hp : IsPart part) :
    FileTree.start (below root part) = FileTree.start root := by
  rcases below_cases root part with ⟨rfl, h⟩ | ⟨init, rfl, h⟩ | ⟨hne, h⟩
  · rw [h, start_of_no_slash hp.no_slash, start_of_no_slash (by decide)]
  · rw [h, start_append (by simp)]
  · rw [h, String.append_assoc, start_append hne]

/-- A part is put behind the parts of a path, or in place of an empty last one. -/
theorem parts_below (root : String) (hp : IsPart part) :
    (parts (below root part) = parts root ++ [part]) ∨
      ∃ init, parts root = init ++ [""] ∧ parts (below root part) = init ++ [part] := by
  have hpart : parts part = [part] := parts_of_no_slash hp.no_slash
  have hempty : parts "" = [""] := parts_of_no_slash (by decide)
  rcases below_cases root part with ⟨rfl, h⟩ | ⟨init, rfl, h⟩ | ⟨hne, h⟩
  · exact .inr ⟨[], hempty, h ▸ hpart⟩
  · refine .inr ⟨parts init, ?_, by rw [h, parts_slash, hpart]⟩
    rw [← hempty, ← parts_slash, String.append_empty]
  · exact .inl (by rw [h, parts_slash, hpart])

theorem leadsTo_below (hp : IsPart part) :
    t.LeadsTo (below root part) there ↔ ∃ mid, t.LeadsTo root mid ∧ t.Enters mid part there := by
  unfold FileTree.LeadsTo
  rw [start_below root hp]
  rcases parts_below root hp with h | ⟨init, hroot, h⟩
  · simp only [h, FileTree.leads_append, FileTree.leads_singleton]
  · simp only [h, hroot, FileTree.leads_append, FileTree.leads_singleton, FileTree.enters_empty_iff]
    simp

/-- What blocks a part where a path leads obstructs the path that goes on by it. -/
theorem obstructs_below {mid : Spot} {e : ReadError} (hp : IsPart part)
    (hpath : FileTree.IsPath (below root part)) (hroot : t.LeadsTo root mid)
    (hblock : t.Blocks mid part e) : t.Obstructs (below root part) e := by
  unfold FileTree.LeadsTo at hroot
  rw [← start_below root hp] at hroot
  rcases parts_below root hp with h | ⟨init, hinit, h⟩
  · exact .part hpath h hroot hblock
  · rw [hinit, FileTree.leads_append] at hroot
    obtain ⟨mid', hlead, hstay⟩ := hroot
    obtain rfl := FileTree.enters_empty_iff.mp (FileTree.leads_singleton.mp hstay)
    exact .part hpath h hlead hblock

/-- Going on by parts is following them from where the path leads. -/
theorem leadsTo_join (h : ∀ part ∈ names, IsPart part) :
    t.LeadsTo (join root names) there ↔ ∃ mid, t.LeadsTo root mid ∧ t.Leads mid names there := by
  induction names generalizing root with
  | nil => simp [join, FileTree.leads_nil_iff]
  | cons part names ih =>
    obtain ⟨hpart, hnames⟩ := List.forall_mem_cons.mp h
    show t.LeadsTo (join (below root part) names) there ↔ _
    simp only [ih hnames, leadsTo_below hpart, FileTree.leads_cons_iff]
    grind

/-- What names lead to from a path is below what the path leads to. -/
theorem below_of_leadsTo_join (hne : names ≠ []) (h : ∀ part ∈ names, IsPart part)
    (hlead : t.LeadsTo (join root names) there) :
    ∃ path, t.LeadsTo root (.inside path) ∧ there = .inside (path ++ names) := by
  obtain ⟨mid, hroot, hnames⟩ := (leadsTo_join h).mp hlead
  obtain ⟨name, names, rfl⟩ := List.exists_cons_of_ne_nil hne
  obtain ⟨path, rfl, rfl⟩ := hnames.eq_of_isName fun part hp => (h part hp).isName
  exact ⟨path, hroot, rfl⟩

/-! ## Plain names and their places -/

/-- A name of plain characters that is a name also in a path. -/
structure IsPlain (name : String) : Prop where
  isName : IsName name
  plain : ∀ c ∈ name.toList, ('A' ≤ c ∧ c ≤ 'Z') ∨ ('a' ≤ c ∧ c ≤ 'z') ∨ ('0' ≤ c ∧ c ≤ '9') ∨
    c = '-' ∨ c = '_' ∨ c = '.'

theorem isPlainChar_iff {c : Char} :
    isPlainChar c ↔ ('A' ≤ c ∧ c ≤ 'Z') ∨ ('a' ≤ c ∧ c ≤ 'z') ∨ ('0' ≤ c ∧ c ≤ '9') ∨
      c = '-' ∨ c = '_' ∨ c = '.' := by
  have hchar : isPlainChar c =
      ((decide ('A' ≤ c ∧ c ≤ 'Z') || (decide ('a' ≤ c) && decide (c ≤ 'z'))) ||
        (decide ('0' ≤ c) && decide (c ≤ '9')) || c == '-' || c == '_' || c == '.') := rfl
  simp only [hchar, Bool.or_eq_true, Bool.and_eq_true, decide_eq_true_eq, beq_iff_eq, or_assoc]

theorem isPlainName_iff : isPlainName name ↔ IsPlain name := by
  simp only [isPlainName, Bool.and_eq_true, Bool.not_eq_true', bne_iff_ne, List.all_eq_true,
    isPlainChar_iff, ← Bool.not_eq_true, String.isEmpty_iff]
  constructor
  · rintro ⟨⟨⟨hempty, hdot⟩, hup⟩, hplain⟩
    exact ⟨⟨hempty, hdot, hup⟩, hplain⟩
  · rintro ⟨⟨hempty, hdot, hup⟩, hplain⟩
    exact ⟨⟨⟨hempty, hdot⟩, hup⟩, hplain⟩

instance : DecidablePred IsPlain := fun _ => decidable_of_iff _ isPlainName_iff

theorem IsPlain.isPart (h : IsPlain name) : IsPart name := by
  refine ⟨h.isName, fun hs => ?_⟩
  have hchar := isPlainChar_iff.mpr (h.plain _ hs)
  exact absurd hchar (by decide)

/-- The ways to go on from a directory to the tables of a grammar, the likeliest first. -/
def layouts (name : String) : List (List String) :=
  [[name ++ ".json"], [name, "src", "grammar.json"],
    ["tree-sitter-" ++ name, "src", "grammar.json"]]

theorem isPart_around {s s' : String} (h : '/' ∉ name.toList) (hs : '/' ∉ s.toList)
    (hs' : '/' ∉ s'.toList) (hlong : 2 < (s ++ s').length) : IsPart (s ++ name ++ s') := by
  have hlength : 2 < (s ++ name ++ s').length := by
    simp only [String.length_append] at hlong ⊢
    omega
  exact ⟨FileTree.isName_of_length hlength, by simp [h, hs, hs']⟩

theorem isPart_of_mem_layouts (h : IsPlain name) (hn : names ∈ layouts name) :
    ∀ part ∈ names, IsPart part := by
  have hsrc : IsPart "src" := ⟨⟨by decide, by decide, by decide⟩, by decide⟩
  have hfile : IsPart "grammar.json" := ⟨⟨by decide, by decide, by decide⟩, by decide⟩
  simp only [layouts, List.mem_cons, List.not_mem_nil, or_false] at hn
  rcases hn with rfl | rfl | rfl
  · have hjson : IsPart ("" ++ name ++ ".json") :=
      isPart_around h.isPart.no_slash (by decide) (by decide) (by decide)
    simpa using hjson
  · simp [h.isPart, hsrc, hfile]
  · have hlong : IsPart ("tree-sitter-" ++ name ++ "") :=
      isPart_around h.isPart.no_slash (by decide) (by decide) (by decide)
    simpa [hsrc, hfile] using hlong

theorem IsPlain.isPart_json (h : IsPlain name) : IsPart (name ++ ".json") :=
  isPart_of_mem_layouts h (List.mem_cons_self ..) _ (List.mem_cons_self ..)

/-- The places are the directory's path gone on by parts. -/
theorem candidates_eq (h : IsPlain name) (root : String) :
    candidates root name = (layouts name).map (join root) := by
  have hthree (part : String) (hp : ∀ s ∈ [part, "src", "grammar.json"], IsPart s) :
      join root [part, "src", "grammar.json"] = below root (part ++ "/src/grammar.json") := by
    show below (below (below root part) "src") "grammar.json" = _
    rw [below_below (hp "src" (by simp)), below_below (hp part (by simp)), String.append_assoc]
    rfl
  have hname := hthree name (isPart_of_mem_layouts h (by simp [layouts]))
  have hlong := hthree ("tree-sitter-" ++ name) (isPart_of_mem_layouts h (by simp [layouts]))
  simp only [layouts, List.map_cons, List.map_nil, hname, hlong]
  rfl

/-! ## Places that two names share -/

variable {m n : String}

theorem getElem?_candidates {i : Nat} :
    (candidates root name)[i]? = some path ↔
      (i = 0 ∧ path = below root (name ++ ".json")) ∨
      (i = 1 ∧ path = below root (name ++ "/src/grammar.json")) ∨
      (i = 2 ∧ path = below root ("tree-sitter-" ++ name ++ "/src/grammar.json")) := by
  rcases i with _ | _ | _ | i <;> simp [candidates, eq_comm]

/-- A file right in the directory is not one further below. -/
theorem json_ne (h : IsPlain m) (s : String) : m ++ ".json" ≠ s ++ "/src/grammar.json" := by
  intro heq
  have hslash : '/' ∈ (m ++ ".json").toList := by
    rw [heq]
    simp
  simp [h.isPart.no_slash] at hslash

/-- Two names share a place only if it is the second of one name and the third of the other, and
the one is the other behind `tree-sitter-`. -/
theorem place_eq_iff (hm : IsPlain m) (hn : IsPlain n) (hne : m ≠ n) {i j : Nat} {p q : String}
    (hp : (candidates root m)[i]? = some p) (hq : (candidates root n)[j]? = some q) :
    p = q ↔ (m = "tree-sitter-" ++ n ∧ i = 1 ∧ j = 2) ∨ (n = "tree-sitter-" ++ m ∧ i = 2 ∧ j = 1) := by
  -- of the nine pairs all differ in the names or in a slash, but for a second and a third place
  rcases getElem?_candidates.mp hp with ⟨rfl, rfl⟩ | ⟨rfl, rfl⟩ | ⟨rfl, rfl⟩ <;>
    rcases getElem?_candidates.mp hq with ⟨rfl, rfl⟩ | ⟨rfl, rfl⟩ | ⟨rfl, rfl⟩ <;>
    simp [below_inj, String.append_left_inj, String.append_right_inj, hne, json_ne hm,
      json_ne hn, (json_ne hn _).symm, eq_comm]

end Source

end GrammarTables
