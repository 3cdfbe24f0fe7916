import GrammarTables.FileTree
import GrammarTables.Proofs.Text.ByteOrder
import Mathlib.Data.List.Basic

/-!
# What paths lead to

A path is followed part by part. Where it leads, an entry may stand; then there is something at the
path. A path may also be obstructed: it leads through a file, or it or one of its parts is too long,
or it is no path at all. Reading a path says that nothing is found just when neither is so.
-/

namespace GrammarTables.FileTree

/-! ## Following a path -/

/-- What stands at a spot. Around the tree there are only directories. -/
def entryAt? (t : FileTree) : Spot → Option Entry
  | .outside => some .directory
  | .inside path => t.entry? path

/-- The part is looked up by its name. -/
structure IsName (part : String) : Prop where
  ne_empty : part ≠ ""
  ne_dot : part ≠ "."
  ne_up : part ≠ ".."

/-- What is longer than two dots is a name. -/
theorem isName_of_length {part : String} (h : 2 < part.length) : IsName part := by
  refine ⟨?_, ?_, ?_⟩ <;>
    · rintro rfl
      exact absurd h (by decide)

/-- One part of a path leads from one spot to another. -/
inductive Enters (t : FileTree) : Spot → String → Spot → Prop where
  | stay (here : Spot) : Enters t here "" here
  | dot {here : Spot} : t.entryAt? here = some .directory → Enters t here "." here
  | up {path : List String} {last : String} :
      t.entry? (path ++ [last]) = some .directory →
      Enters t (.inside (path ++ [last])) ".." (.inside path)
  | leave : Enters t (.inside []) ".." .outside
  | around : Enters t .outside ".." .outside
  | name {path : List String} {part : String} : IsName part → part.utf8ByteSize ≤ partLimit →
      t.entry? path = some .directory → (t.entry? (path ++ [part])).isSome →
      Enters t (.inside path) part (.inside (path ++ [part]))

/-- A part cannot be followed, and not because there is nothing of that name. -/
inductive Blocks (t : FileTree) : Spot → String → ReadError → Prop where
  | file {path : List String} {content : List UInt8} {part : String} :
      t.entry? path = some (.file content) → part ≠ "" →
      Blocks t (.inside path) part .notDirectory
  | long {here : Spot} {part : String} : t.entryAt? here = some .directory → IsName part →
      partLimit < part.utf8ByteSize → Blocks t here part .nameTooLong

/-- Parts lead from one spot to another, one after the other. -/
inductive Leads (t : FileTree) : Spot → List String → Spot → Prop where
  | here (spot : Spot) : Leads t spot [] spot
  | part {here next there : Spot} {part : String} {parts : List String} :
      t.Enters here part next → Leads t next parts there → Leads t here (part :: parts) there

variable {t : FileTree} {here there : Spot} {part path : String} {ps qs : List String}
  {e : ReadError}

theorem step_of_enters (h : t.Enters here part there) : t.step here part = .ok there := by
  cases h with
  | stay => simp [step]
  | dot h =>
    cases here with
    | outside => rfl
    | inside path =>
      have h : t.entry? path = some .directory := h
      simp [step, h]
  | up h => simp [step, h]
  | leave => rfl
  | around => rfl
  | name hn hs h h' => simp [step, hn.ne_empty, hn.ne_dot, hn.ne_up, h, h', Nat.not_lt.mpr hs]

theorem step_of_blocks (h : t.Blocks here part e) : t.step here part = .error e := by
  cases h with
  | file h hp => simp [step, h, hp]
  | long h hn hs =>
    cases here with
    | outside => simp [step, hn.ne_empty, hn.ne_dot, hn.ne_up, hs]
    | inside path =>
      have h : t.entry? path = some .directory := h
      simp [step, hn.ne_empty, hn.ne_dot, hn.ne_up, h, hs]

/-- In a directory a part leads on, or is too long, or there is nothing of that name. -/
theorem step_in_directory (h : t.entryAt? here = some .directory) (hempty : part ≠ "") :
    (∃ there, t.Enters here part there) ∨ (∃ e, t.Blocks here part e) ∨
      t.step here part = .error .notFound := by
  by_cases hdot : part = "."
  · subst hdot
    exact .inl ⟨_, .dot h⟩
  by_cases hup : part = ".."
  · subst hup
    cases here with
    | outside => exact .inl ⟨_, .around⟩
    | inside path =>
      rcases path.eq_nil_or_concat' with rfl | ⟨path, last, rfl⟩
      · exact .inl ⟨_, .leave⟩
      · exact .inl ⟨_, .up h⟩
  have hname : IsName part := ⟨hempty, hdot, hup⟩
  by_cases hlong : partLimit < part.utf8ByteSize
  · exact .inr (.inl ⟨_, .long h hname hlong⟩)
  cases here with
  | outside => exact .inr (.inr (by simp [step, hempty, hdot, hup, hlong]))
  | inside path =>
    have h : t.entry? path = some .directory := h
    cases hnext : t.entry? (path ++ [part]) with
    | none => exact .inr (.inr (by simp [step, h, hempty, hdot, hup, hlong, hnext]))
    | some entry => exact .inl ⟨_, .name hname (Nat.not_lt.mp hlong) h (by simp [hnext])⟩

/-- A part leads on, or is blocked, or there is nothing of that name. -/
theorem step_cases (t : FileTree) (here : Spot) (part : String) :
    (∃ there, t.Enters here part there) ∨ (∃ e, t.Blocks here part e) ∨
      t.step here part = .error .notFound := by
  by_cases hempty : part = ""
  · subst hempty
    exact .inl ⟨_, .stay _⟩
  by_cases hdir : t.entryAt? here = some .directory
  · exact step_in_directory hdir hempty
  cases here with
  | outside => exact absurd rfl hdir
  | inside path =>
    rcases h : t.entry? path with _ | _ | content
    · exact .inr (.inr (by simp [step, h, hempty]))
    · exact absurd h hdir
    · exact .inr (.inl ⟨_, .file h hempty⟩)

theorem step_eq_ok_iff : t.step here part = .ok there ↔ t.Enters here part there := by
  refine ⟨fun h => ?_, step_of_enters⟩
  rcases t.step_cases here part with ⟨there', h'⟩ | ⟨e, h'⟩ | h'
  · rw [step_of_enters h'] at h
    cases h
    exact h'
  · rw [step_of_blocks h'] at h
    cases h
  · rw [h'] at h
    cases h

theorem step_eq_error_iff (he : e ≠ .notFound) :
    t.step here part = .error e ↔ t.Blocks here part e := by
  refine ⟨fun h => ?_, step_of_blocks⟩
  rcases t.step_cases here part with ⟨there', h'⟩ | ⟨e', h'⟩ | h'
  · rw [step_of_enters h'] at h
    cases h
  · rw [step_of_blocks h'] at h
    cases h
    exact h'
  · rw [h'] at h
    cases h
    exact absurd rfl he

theorem foldlM_eq_ok_iff : ps.foldlM t.step here = .ok there ↔ t.Leads here ps there := by
  induction ps generalizing here with
  | nil =>
    constructor
    · rintro ⟨⟩
      exact .here _
    · rintro ⟨⟩
      rfl
  | cons part ps ih =>
    rw [List.foldlM_cons]
    constructor
    · intro h
      cases hs : t.step here part with
      | error e => rw [hs] at h; cases h
      | ok next => rw [hs] at h; exact .part (step_eq_ok_iff.mp hs) (ih.mp h)
    · rintro (_ | ⟨hpart, hrest⟩)
      rw [step_of_enters hpart]
      exact ih.mpr hrest

/-- A walk fails at the first part that leads nowhere. -/
theorem foldlM_eq_error_iff :
    ps.foldlM t.step here = .error e ↔
      ∃ front part back mid, ps = front ++ part :: back ∧ t.Leads here front mid ∧
        t.step mid part = .error e := by
  induction ps generalizing here with
  | nil =>
    refine ⟨nofun, ?_⟩
    rintro ⟨front, part, back, mid, h, -⟩
    exact absurd h.symm (List.append_ne_nil_of_right_ne_nil _ (List.cons_ne_nil _ _))
  | cons part ps ih =>
    rw [List.foldlM_cons]
    constructor
    · intro h
      cases hs : t.step here part with
      | error e' =>
        rw [hs] at h
        cases h
        exact ⟨[], part, ps, here, rfl, .here _, hs⟩
      | ok next =>
        rw [hs] at h
        obtain ⟨front, bad, back, mid, rfl, hlead, hbad⟩ := ih.mp h
        exact ⟨part :: front, bad, back, mid, rfl, .part (step_eq_ok_iff.mp hs) hlead, hbad⟩
    · rintro ⟨_ | ⟨first, front⟩, bad, back, mid, h, hlead, hbad⟩
      · cases h
        cases hlead
        rw [hbad]
        rfl
      · cases h
        obtain _ | ⟨hpart, hlead⟩ := hlead
        rw [step_of_enters hpart]
        exact ih.mpr ⟨front, bad, back, mid, rfl, hlead, hbad⟩

theorem enters_empty_iff : t.Enters here "" there ↔ there = here := by
  constructor
  · intro h
    cases (step_of_enters h).symm.trans (step_of_enters (.stay here))
    rfl
  · rintro rfl
    exact .stay _

theorem leads_nil_iff : t.Leads here [] there ↔ there = here := by
  constructor
  · rintro ⟨⟩
    rfl
  · rintro rfl
    exact .here _

theorem leads_cons_iff :
    t.Leads here (part :: ps) there ↔ ∃ next, t.Enters here part next ∧ t.Leads next ps there := by
  constructor
  · rintro (_ | ⟨hpart, hrest⟩)
    exact ⟨_, hpart, hrest⟩
  · rintro ⟨next, hpart, hrest⟩
    exact .part hpart hrest

theorem leads_append :
    t.Leads here (ps ++ qs) there ↔ ∃ mid, t.Leads here ps mid ∧ t.Leads mid qs there := by
  induction ps generalizing here with
  | nil =>
    constructor
    · intro h
      exact ⟨here, .here _, h⟩
    · rintro ⟨mid, ⟨⟩, h⟩
      exact h
  | cons part ps ih =>
    constructor
    · rintro (_ | ⟨hpart, hrest⟩)
      obtain ⟨mid, hps, hqs⟩ := ih.mp hrest
      exact ⟨mid, .part hpart hps, hqs⟩
    · rintro ⟨mid, _ | ⟨hpart, hps⟩, hqs⟩
      exact .part hpart (ih.mpr ⟨mid, hps, hqs⟩)

theorem leads_singleton : t.Leads here [part] there ↔ t.Enters here part there := by
  constructor
  · rintro (_ | ⟨h, ⟨⟩⟩)
    exact h
  · intro h
    exact .part h (.here _)

/-- A name leads down from where it is looked up. -/
theorem Enters.eq_of_isName (h : t.Enters here part there) (hn : IsName part) :
    ∃ path, here = .inside path ∧ there = .inside (path ++ [part]) := by
  cases h with
  | stay => exact absurd rfl hn.ne_empty
  | dot => exact absurd rfl hn.ne_dot
  | up | leave | around => exact absurd rfl hn.ne_up
  | name => exact ⟨_, rfl, rfl⟩

/-- Names lead down, each one level. -/
theorem Leads.eq_of_isName {name : String} {names : List String}
    (h : t.Leads here (name :: names) there) (hn : ∀ part ∈ name :: names, IsName part) :
    ∃ path, here = .inside path ∧ there = .inside (path ++ name :: names) := by
  induction names generalizing here name with
  | nil => exact (leads_singleton.mp h).eq_of_isName (hn name List.mem_cons_self)
  | cons second names ih =>
    obtain _ | ⟨hfirst, hrest⟩ := h
    obtain ⟨path, rfl, rfl⟩ := hfirst.eq_of_isName (hn name List.mem_cons_self)
    obtain ⟨path', heq, rfl⟩ := ih hrest fun part hp => hn part (List.mem_cons_of_mem _ hp)
    cases heq
    exact ⟨path, rfl, by simp⟩

/-! ## Paths -/

/-- The spot that a path begins at. -/
def start (path : String) : Spot := if path.startsWith "/" then .outside else .inside []

/-- The path leads to a spot. -/
def LeadsTo (t : FileTree) (path : String) (there : Spot) : Prop :=
  t.Leads (start path) (parts path) there

/-- The text is taken for a path. -/
structure IsPath (path : String) : Prop where
  no_null : '\x00' ∉ path.toList
  short : path.utf8ByteSize ≤ pathLimit

/-- There is `entry` at the path. -/
structure Holds (t : FileTree) (path : String) (entry : Entry) : Prop where
  isPath : IsPath path
  ne_empty : path ≠ ""
  leads : ∃ there, t.LeadsTo path there ∧ t.entryAt? there = some entry

/-- There is a file or a directory at the path. -/
def Has (t : FileTree) (path : String) : Prop := ∃ entry, t.Holds path entry

/-- The path cannot be followed to its end, and not because there is nothing where it leads. -/
inductive Obstructs (t : FileTree) (path : String) : ReadError → Prop where
  | null : '\x00' ∈ path.toList → Obstructs t path .nullInPath
  | long : '\x00' ∉ path.toList → pathLimit < path.utf8ByteSize → Obstructs t path .nameTooLong
  | part {front back : List String} {part : String} {mid : Spot} {e : ReadError} :
      IsPath path → parts path = front ++ part :: back → t.Leads (start path) front mid →
      t.Blocks mid part e → Obstructs t path e

/-- What is at the path is no text. -/
inductive HoldsNoText (t : FileTree) (path : String) : ReadError → Prop where
  | directory : t.Holds path .directory → HoldsNoText t path .isDirectory
  | bytes {content : List UInt8} : t.Holds path (.file content) →
      (∀ text, Text.utf8 text ≠ content) → HoldsNoText t path .notText

theorem Blocks.ne_notFound (h : t.Blocks here part e) : e ≠ .notFound := by
  cases h <;> exact nofun

theorem Obstructs.ne_notFound (h : t.Obstructs path e) : e ≠ .notFound := by
  cases h with
  | null | long => exact nofun
  | part _ _ _ h => exact h.ne_notFound

theorem walk_of_isPath (h : IsPath path) (hne : path ≠ "") :
    t.walk path = (parts path).foldlM t.step (start path) := by
  have hnull : path.toList.contains '\x00' = false := by
    rw [← Bool.not_eq_true, List.contains_iff_mem]
    exact h.no_null
  have hempty : path.isEmpty = false := by
    rw [← Bool.not_eq_true, String.isEmpty_iff]
    exact hne
  rw [walk, hnull, if_neg Bool.false_ne_true, if_neg (Nat.not_lt.mpr h.short), hempty,
    if_neg Bool.false_ne_true]
  rfl

theorem walk_of_obstructs (h : t.Obstructs path e) : t.walk path = .error e := by
  cases h with
  | null h => rw [walk, if_pos (List.contains_iff_mem.mpr h)]
  | long hnull h => rw [walk, if_neg (mt List.contains_iff_mem.mp hnull), if_pos h]
  | part hp hparts hlead hblock =>
    have hne : path ≠ "" := by
      rintro rfl
      -- the only part of an empty path leads on
      have hempty : parts "" = [""] := by decide
      rw [hempty] at hparts
      obtain ⟨rfl, heq⟩ | ⟨-, heq⟩ := List.append_eq_singleton_iff.mp hparts.symm
      · cases heq
        cases hblock with
        | file _ h => exact h rfl
        | long _ h => exact h.ne_empty rfl
      · cases heq
    rw [walk_of_isPath hp hne]
    exact foldlM_eq_error_iff.mpr ⟨_, _, _, _, hparts, hlead, step_of_blocks hblock⟩

theorem walk_of_holds {entry : Entry} (h : t.Holds path entry) :
    ∃ there, t.walk path = .ok there ∧ t.entryAt? there = some entry := by
  obtain ⟨hpath, hne, there, hlead, hentry⟩ := h
  refine ⟨there, ?_, hentry⟩
  rw [walk_of_isPath hpath hne]
  exact foldlM_eq_ok_iff.mpr hlead

theorem Obstructs.not_has (h : t.Obstructs path e) : ¬ t.Has path := by
  rintro ⟨entry, hentry⟩
  obtain ⟨there, hwalk, -⟩ := walk_of_holds hentry
  cases hwalk.symm.trans (walk_of_obstructs h)

/-- A path leads somewhere, or it is obstructed, or there is nothing at it. -/
theorem walk_cases (t : FileTree) (path : String) :
    (∃ there, IsPath path ∧ path ≠ "" ∧ t.LeadsTo path there ∧ t.walk path = .ok there) ∨
      (∃ e, t.Obstructs path e) ∨ t.walk path = .error .notFound := by
  by_cases hnull : '\x00' ∈ path.toList
  · exact .inr (.inl ⟨_, .null hnull⟩)
  by_cases hlong : pathLimit < path.utf8ByteSize
  · exact .inr (.inl ⟨_, .long hnull hlong⟩)
  have hpath : IsPath path := ⟨hnull, Nat.not_lt.mp hlong⟩
  by_cases hempty : path = ""
  · subst hempty
    exact .inr (.inr rfl)
  cases h : t.walk path with
  | ok there =>
    refine .inl ⟨there, hpath, hempty, ?_, rfl⟩
    rw [walk_of_isPath hpath hempty] at h
    exact foldlM_eq_ok_iff.mp h
  | error e =>
    by_cases he : e = .notFound
    · exact .inr (.inr (congrArg _ he))
    · rw [walk_of_isPath hpath hempty] at h
      obtain ⟨front, part, back, mid, hparts, hlead, hstep⟩ := foldlM_eq_error_iff.mp h
      exact .inr (.inl ⟨e, .part hpath hparts hlead ((step_eq_error_iff he).mp hstep)⟩)

/-! ## Reading -/

/-- The text of an entry. -/
def Entry.text : Entry → Except ReadError String
  | directory => .error .isDirectory
  | file content =>
    match String.fromUTF8? ⟨content.toArray⟩ with
    | some text => .ok text
    | none => .error .notText

theorem fromUTF8?_eq_some_iff {content : List UInt8} {text : String} :
    String.fromUTF8? ⟨content.toArray⟩ = some text ↔ Text.utf8 text = content := by
  unfold String.fromUTF8?
  constructor
  · intro h
    split at h
    · cases h
      rfl
    · cases h
  · rintro rfl
    have hbytes : (⟨(Text.utf8 text).toArray⟩ : ByteArray) = text.toByteArray := rfl
    rw [hbytes, dif_pos text.isValidUTF8]
    rfl

theorem read_of_holds {entry : Entry} (h : t.Holds path entry) : t.read path = entry.text := by
  obtain ⟨there, hwalk, hentry⟩ := walk_of_holds h
  rw [read, hwalk]
  cases there with
  | outside =>
    cases hentry
    rfl
  | inside place =>
    have hentry : t.entry? place = some entry := hentry
    simp only [hentry]
    cases entry <;> rfl

theorem not_has_of_read (h : t.read path = .error e) (hdir : e ≠ .isDirectory)
    (htext : e ≠ .notText) : ¬ t.Has path := by
  rintro ⟨entry, hentry⟩
  rw [read_of_holds hentry] at h
  unfold Entry.text at h
  split at h
  · cases h
    exact hdir rfl
  · split at h <;> cases h
    exact htext rfl

theorem HoldsNoText.ne_notFound (h : t.HoldsNoText path e) : e ≠ .notFound := by
  cases h <;> exact nofun

theorem HoldsNoText.has (h : t.HoldsNoText path e) : t.Has path := by
  cases h with
  | directory h | bytes h => exact ⟨_, h⟩

theorem read_of_holdsNoText (h : t.HoldsNoText path e) : t.read path = .error e := by
  cases h with
  | directory h => exact read_of_holds h
  | @bytes content h hno =>
    rw [read_of_holds h, Entry.text]
    cases hread : String.fromUTF8? ⟨content.toArray⟩ with
    | none => rfl
    | some text => exact absurd (fromUTF8?_eq_some_iff.mp hread) (hno text)

theorem read_of_nothing (hhas : ¬ t.Has path) (hfree : ∀ e, ¬ t.Obstructs path e) :
    t.read path = .error .notFound := by
  rcases t.walk_cases path with ⟨there, hpath, hne, hlead, hwalk⟩ | ⟨e, h⟩ | hwalk
  · cases hentry : t.entryAt? there with
    | some entry => exact absurd ⟨entry, hpath, hne, there, hlead, hentry⟩ hhas
    | none =>
      cases there with
      | outside => cases hentry
      | inside place =>
        have hentry : t.entry? place = none := hentry
        rw [read, hwalk]
        simp only [hentry]
  · exact absurd h (hfree e)
  · rw [read, hwalk]

/-- What reading a path comes to. -/
inductive Reading (t : FileTree) (path : String) : Except ReadError String → Prop where
  | text {text : String} : t.Holds path (.file (Text.utf8 text)) → Reading t path (.ok text)
  | noText {e : ReadError} : t.HoldsNoText path e → Reading t path (.error e)
  | obstructed {e : ReadError} : t.Obstructs path e → Reading t path (.error e)
  | nothing : ¬ t.Has path → (∀ e, ¬ t.Obstructs path e) → Reading t path (.error .notFound)

theorem read_of_reading {result : Except ReadError String} (h : t.Reading path result) :
    t.read path = result := by
  cases h with
  | text h => rw [read_of_holds h, Entry.text, fromUTF8?_eq_some_iff.mpr rfl]
  | noText h => exact read_of_holdsNoText h
  | obstructed h => rw [read, walk_of_obstructs h]
  | nothing hhas hfree => exact read_of_nothing hhas hfree

theorem exists_reading (t : FileTree) (path : String) : ∃ result, t.Reading path result := by
  by_cases hhas : t.Has path
  · obtain ⟨_ | content, h⟩ := hhas
    · exact ⟨_, .noText (.directory h)⟩
    · by_cases htext : ∃ text, Text.utf8 text = content
      · obtain ⟨text, rfl⟩ := htext
        exact ⟨_, .text h⟩
      · exact ⟨_, .noText (.bytes h fun text ht => htext ⟨text, ht⟩)⟩
  · by_cases hfree : ∃ e, t.Obstructs path e
    · obtain ⟨e, h⟩ := hfree
      exact ⟨_, .obstructed h⟩
    · exact ⟨_, .nothing hhas (not_exists.mp hfree)⟩

theorem read_eq_iff {result : Except ReadError String} :
    t.read path = result ↔ t.Reading path result := by
  refine ⟨?_, read_of_reading⟩
  rintro rfl
  obtain ⟨result, h⟩ := t.exists_reading path
  rwa [read_of_reading h]

/-- Nothing is found at a path that there is nothing at, unless it is obstructed. -/
theorem read_eq_notFound_iff :
    t.read path = .error .notFound ↔ ¬ t.Has path ∧ ∀ e, ¬ t.Obstructs path e := by
  rw [read_eq_iff]
  constructor
  · rintro (_ | h | h | ⟨hhas, hfree⟩)
    · exact absurd rfl h.ne_notFound
    · exact absurd rfl h.ne_notFound
    · exact ⟨hhas, hfree⟩
  · rintro ⟨hhas, hfree⟩
    exact .nothing hhas hfree

/-- Reading fails for another reason just at what is no text, and at obstructed paths. -/
theorem read_eq_error_iff (he : e ≠ .notFound) :
    t.read path = .error e ↔ t.HoldsNoText path e ∨ t.Obstructs path e := by
  rw [read_eq_iff]
  constructor
  · rintro (_ | h | h | _)
    · exact .inl h
    · exact .inr h
    · exact absurd rfl he
  · rintro (h | h)
    · exact .noText h
    · exact .obstructed h

end GrammarTables.FileTree
