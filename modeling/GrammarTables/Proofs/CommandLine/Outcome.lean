import GrammarTables.CommandLine
import GrammarTables.Proofs.Load.OneShot
import GrammarTables.Proofs.NameMap
import GrammarTables.Proofs.Source.Directory
import GrammarTables.Proofs.Text.ByteOrder
import Mathlib.Data.List.Basic
import Mathlib.Logic.ExistsUnique

/-!
# How a run ends

A run of the program prints its usage, refuses its arguments, reports a loaded grammar or reports
why there is none. It does just one of these, whatever the arguments and the files are, and what it
prints and exits with is said here in full for each.
-/

namespace GrammarTables.CommandLine

inductive Ending where
  | help
  | unparsed
  | loaded (o : Options) (l : Language)
  | failed (o : Options) (e : LoadError)

/-- Help is asked for by any argument, also behind an option that takes a value. -/
def WantsHelp (args : List String) : Prop := "-h" ∈ args ∨ "--help" ∈ args

/-- Where the grammar is loaded from. -/
inductive Searches (read : String → Except ReadError String) : Option String → Source → Prop where
  | embedded : Searches read none .embedded
  | directory (root : String) :
      Searches read (some root) ((Source.directory read root).orElse .embedded)

/-- The names are those of the grammar's rules, each once, ascending by their bytes. -/
structure Lists (names : List String) (g : Grammar) : Prop where
  ascend : names.Pairwise fun a b => Text.utf8 a < Text.utf8 b
  mem_iff : ∀ name, name ∈ names ↔ ∃ r, g.rules.get? name = some r

/-- What a run comes to when it ends in some way. -/
inductive Ends (read : String → Except ReadError String) (args : List String) :
    Ending → Outcome → Prop where
  | help : WantsHelp args →
      Ends read args .help { exitCode := 0, stdout := usage, stderr := "", log := [] }
  | unparsed : ¬ WantsHelp args → Options.ofArgs? args = none →
      Ends read args .unparsed
        { exitCode := 2
          stdout := ""
          stderr := "error: Could not parse CLI arguments\n\n" ++ usage ++ "\n"
          log := [] }
  | loaded {o : Options} {source : Source} {l : Language} {names : List String} :
      ¬ WantsHelp args → Options.ofArgs? args = some o → Searches read o.directory source →
      (source.load 0 o.grammar).value = .ok l → Lists names l.grammar →
      Ends read args (.loaded o l)
        { exitCode := 0
          stdout := "loaded grammar '" ++ o.grammar ++ "': " ++ toString names.length ++
            " rules, " ++ toString l.externalNames.length ++ " externals\n" ++
            (if o.rules then String.join (names.map (· ++ "\n")) else "")
          stderr := ""
          log := logged o.verbose (source.load 0 o.grammar).events }
  | failed {o : Options} {source : Source} {e : LoadError} :
      ¬ WantsHelp args → Options.ofArgs? args = some o → Searches read o.directory source →
      (source.load 0 o.grammar).value = .error e →
      Ends read args (.failed o e)
        { exitCode := 1
          stdout := ""
          stderr := "Error loading " ++ (if o.grammar = "verse" then "Verse" else o.grammar) ++
            " grammar: " ++ e.message ++ "\n"
          log := logged o.verbose
            ((source.load 0 o.grammar).events ++ [.checkFailed o.grammar e.message]) }

variable {read : String → Except ReadError String} {args : List String} {o : Options}
  {s : Source}

theorem asksForHelp_iff : asksForHelp args = true ↔ WantsHelp args := by
  simp only [asksForHelp, WantsHelp, List.any_eq_true, Bool.or_eq_true, beq_iff_eq]
  grind

theorem searches_source (read : String → Except ReadError String) (o : Options) :
    Searches read o.directory (source read o) := by
  unfold source
  cases o.directory with
  | none => exact .embedded
  | some root => exact .directory root

theorem Searches.unique {t : Source} {directory : Option String} (h : Searches read directory s)
    (h' : Searches read directory t) : s = t := by
  cases h <;> cases h' <;> rfl

theorem lists_ruleNames (l : Language) : Lists l.ruleNames l.grammar :=
  ⟨l.grammar.rules.ascends_names.imp Text.utf8_lt, fun _ => NameMap.mem_names_iff⟩

/-! ## Runs -/

theorem run_of_wantsHelp (h : WantsHelp args) :
    run read args = { exitCode := 0, stdout := usage } := by
  rw [run, if_pos (asksForHelp_iff.mpr h)]

theorem run_of_options (h : ¬ WantsHelp args) (ho : Options.ofArgs? args = some o) :
    run read args = runOptions read o := by
  rw [run, if_neg (mt asksForHelp_iff.mp h), ho]

theorem runOptions_of_ok {l : Language} (h : ((source read o).load 0 o.grammar).value = .ok l) :
    runOptions read o =
      { exitCode := 0
        stdout := summary l ++ (if o.rules then ruleListing l else "")
        log := logged o.verbose ((source read o).load 0 o.grammar).events } := by
  have hrun := LoadCheck.run_of_load_ok (c := check o) rfl h
  rw [runOptions, hrun]
  rfl

theorem runOptions_of_error {e : LoadError}
    (h : ((source read o).load 0 o.grammar).value = .error e) :
    runOptions read o =
      { exitCode := 1
        stderr := (LoadCheck.Report.mk (check o).label e.message).message ++ "\n"
        log := logged o.verbose
          (((source read o).load 0 o.grammar).events ++ [.checkFailed o.grammar e.message]) } := by
  have hrun := LoadCheck.run_of_load_error (c := check o) rfl h
  rw [runOptions, hrun]
  rfl

theorem summary_of_load {l : Language} {n : Nat} {name : String}
    (h : (s.load n name).value = .ok l) :
    summary l = "loaded grammar '" ++ name ++ "': " ++ toString l.ruleNames.length ++ " rules, " ++
      toString l.externalNames.length ++ " externals\n" := by
  have hname : l.name = name := (Source.acceptable_of_load h).name
  have hcount : l.ruleCount = l.ruleNames.length := (List.length_map _).symm
  unfold summary
  rw [hname, hcount]

theorem exists_ends (read : String → Except ReadError String) (args : List String) :
    ∃ ending, Ends read args ending (run read args) := by
  by_cases h : WantsHelp args
  · rw [run_of_wantsHelp h]
    exact ⟨.help, .help h⟩
  · cases ho : Options.ofArgs? args with
    | none =>
      rw [run, if_neg (mt asksForHelp_iff.mp h), ho]
      exact ⟨.unparsed, .unparsed h ho⟩
    | some o =>
      have hsource := searches_source read o
      rw [run_of_options h ho]
      cases hload : ((source read o).load 0 o.grammar).value with
      | ok l =>
        rw [runOptions_of_ok hload, summary_of_load hload]
        exact ⟨.loaded o l, .loaded h ho hsource hload (lists_ruleNames l)⟩
      | error e =>
        rw [runOptions_of_error hload]
        exact ⟨.failed o e, .failed h ho hsource hload⟩

/-- The arguments and the files decide how a run ends. -/
theorem Ends.unique {e e' : Ending} {r r' : Outcome} (h : Ends read args e r)
    (h' : Ends read args e' r') : e = e' := by
  cases h with
  | help hhelp =>
    cases h' with
    | help => rfl
    | unparsed hno | loaded hno | failed hno => exact absurd hhelp hno
  | unparsed hno ho =>
    cases h' with
    | help hhelp => exact absurd hhelp hno
    | unparsed => rfl
    | loaded _ ho' | failed _ ho' => cases ho.symm.trans ho'
  | loaded hno ho hs hl =>
    cases h' with
    | help hhelp => exact absurd hhelp hno
    | unparsed _ ho' => cases ho.symm.trans ho'
    | loaded _ ho' hs' hl' =>
      cases ho.symm.trans ho'
      cases hs.unique hs'
      cases hl.symm.trans hl'
      rfl
    | failed _ ho' hs' he' =>
      cases ho.symm.trans ho'
      cases hs.unique hs'
      cases hl.symm.trans he'
  | failed hno ho hs he =>
    cases h' with
    | help hhelp => exact absurd hhelp hno
    | unparsed _ ho' => cases ho.symm.trans ho'
    | loaded _ ho' hs' hl' =>
      cases ho.symm.trans ho'
      cases hs.unique hs'
      cases he.symm.trans hl'
    | failed _ ho' hs' he' =>
      cases ho.symm.trans ho'
      cases hs.unique hs'
      cases he.symm.trans he'
      rfl

/-! ## Reading ahead -/

/-- What `read` finds, for a run that has its files read before it starts. -/
def readAhead (read : String → Except ReadError String) (args : List String) :
    String → Except ReadError String :=
  let files := (wantedPaths args).map fun path => (path, read path)
  fun path => (files.lookup path).getD (.error .notFound)

theorem readAhead_of_mem {path : String} (h : path ∈ wantedPaths args) :
    readAhead read args path = read path := by
  simp only [readAhead, List.lookup_graph read h, Option.getD_some]

/-- A run asks its source for one grammar only. -/
theorem runOptions_congr {read' : String → Except ReadError String}
    (h : (source read o).resolve o.grammar = (source read' o).resolve o.grammar) :
    runOptions read o = runOptions read' o := by
  have hload : (source read o).load 0 o.grammar = (source read' o).load 0 o.grammar := by
    simp only [Source.load, h]
  simp only [runOptions, LoadCheck.run, LoadCheck.decided, check, hload]

theorem run_congr {read' : String → Except ReadError String}
    (h : ∀ path ∈ wantedPaths args, read path = read' path) : run read args = run read' args := by
  unfold run
  split
  · rfl
  · cases ho : Options.ofArgs? args with
    | none => rfl
    | some o =>
      refine runOptions_congr ?_
      obtain ⟨grammar, directory, rules, verbose⟩ := o
      cases directory with
      | none => rfl
      | some root =>
        have hpaths : Source.IsPlain grammar →
            ∀ path ∈ Source.candidates root grammar, read path = read' path := by
          intro hplain path hpath
          refine h path ?_
          rw [wantedPaths, ho]
          simpa [Source.isPlainName_iff.mpr hplain] using hpath
        simp only [source, Source.orElse, Source.resolve_directory_congr hpaths]

/-- A run ends in exactly one way, as it should, and reading ahead the files that it may need makes
no difference to it. -/
theorem existsUnique_ends (read : String → Except ReadError String) (args : List String) :
    (∃! ending, Ends read args ending (run read args)) ∧
      run (readAhead read args) args = run read args := by
  obtain ⟨ending, h⟩ := exists_ends read args
  exact ⟨⟨ending, h, fun _ h' => h'.unique h⟩, run_congr fun _ hp => readAhead_of_mem hp⟩

end GrammarTables.CommandLine
