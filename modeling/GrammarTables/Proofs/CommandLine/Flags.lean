import GrammarTables.Proofs.CommandLine.Outcome
import GrammarTables.Proofs.Source.Chain

/-!
# Flags

Two flags tell how much a run shows, and each touches its own part of the output only. A verbose run
logs more, and a run that prints rules prints them behind the line that any run prints about a
grammar that has loaded. All else is the same with and without them, whatever the files are.
-/

namespace GrammarTables.CommandLine

/-- A run with these arguments goes on to load what the options say. -/
structure Parses (args : List String) (o : Options) : Prop where
  noHelp : ¬ WantsHelp args
  understood : Options.ofArgs? args = some o

/-- The log as it is printed. -/
def Outcome.lines (r : Outcome) : List String := r.log.map Event.logLine

/-- Whether a line of a log is about a warning. -/
def isWarning (line : String) : Bool := line.startsWith " WARN "

/-- The runs differ at most in the log, where the one has only the warnings of the other. -/
structure Quieter (quiet verbose : Outcome) : Prop where
  exitCode : quiet.exitCode = verbose.exitCode
  stdout : quiet.stdout = verbose.stdout
  stderr : quiet.stderr = verbose.stderr
  lines : quiet.lines = verbose.lines.filter isWarning

/-- The runs differ at most in the standard output, where the one ends with the line about the
grammar that has been loaded and the other goes on with its rules. -/
structure Shorter (loaded : Except LoadError Language) (short long : Outcome) : Prop where
  exitCode : short.exitCode = long.exitCode
  stderr : short.stderr = long.stderr
  lines : short.lines = long.lines
  stdout_of_error : ∀ e, loaded = .error e → short.stdout = long.stdout
  stdout_of_ok : ∀ l, loaded = .ok l → ∃ line : String, '\n' ∉ line.toList ∧
    short.stdout = line ++ "\n" ∧ long.stdout = line ++ "\n" ++ ruleListing l

variable {read : String → Except ReadError String} {args : List String} {o : Options}

theorem Parses.run_eq (h : Parses args o) : run read args = runOptions read o :=
  run_of_options h.noHelp h.understood

/-! ## Log lines -/

theorem isWarning_logLine (e : Event) : isWarning e.logLine = (e.level == .warn) := by
  rw [Bool.eq_iff_iff, isWarning, String.startsWith_string_iff, Event.logLine, beq_iff_eq]
  simp only [String.toList_append, List.append_assoc]
  cases e.level with
  | debug => exact iff_of_false (fun ⟨_, h⟩ => by cases h) nofun
  | warn => exact iff_of_true (List.prefix_append _ _) rfl

/-- A quiet run logs the lines that warn. -/
theorem lines_logged (events : List Event) :
    (logged false events).map Event.logLine =
      ((logged true events).map Event.logLine).filter isWarning := by
  have hverbose : logged true events = events := List.filter_true events
  rw [hverbose, List.filter_map]
  refine congrArg _ (List.filter_congr fun e _ => ?_)
  rw [Function.comp_apply, isWarning_logLine, Bool.false_or]

/-! ## The line about a grammar -/

theorem isPlain_of_load {s : Source} {directory : Option String} {name : String} {n : Nat}
    {l : Language} (hs : Searches read directory s) (h : (s.load n name).value = .ok l) :
    Source.IsPlain name := by
  obtain ⟨tables, hresolve, -⟩ := Source.load_eq_ok_iff.mp ⟨l, h, rfl, rfl⟩
  by_contra hplain
  cases hs with
  | embedded =>
    have hne : name ≠ Verse.name := fun heq => hplain (heq ▸ by decide)
    have hmissing : (Source.embedded.resolve name).value =
        .error ⟨name, .notFound ["embedded grammars"]⟩ := if_neg hne
    cases hmissing.symm.trans hresolve
  | directory root =>
    -- the directory refuses the name, and nothing is fallen back on
    have hrefused : ((Source.directory read root).resolve name).value = .error ⟨name, .invalidName⟩ :=
      congrArg _ (Source.resolve_of_not_isPlain hplain)
    have hfound : ¬ (Source.directory read root).misses name := by
      rw [Source.misses, hrefused]
      exact Bool.false_ne_true
    rw [Source.resolve_orElse_of_not_misses hfound, hrefused] at hresolve
    cases hresolve

theorem newline_notMem_toString (n : Nat) : '\n' ∉ (toString n).toList := by
  intro h
  have hdigit : ('\n').isDigit := by
    refine Nat.isDigit_of_mem_toDigits (b := 10) (n := n) (by decide) (by decide) ?_
    simpa [Nat.repr] using h
  exact absurd hdigit (by decide)

theorem exists_summary_line {n : Nat} {l : Language}
    (h : ((source read o).load n o.grammar).value = .ok l) :
    ∃ line : String, '\n' ∉ line.toList ∧ summary l = line ++ "\n" := by
  have hname : '\n' ∉ o.grammar.toList := fun hmem =>
    absurd ((isPlain_of_load (searches_source read o) h).plain _ hmem) (by decide)
  refine ⟨"loaded grammar '" ++ o.grammar ++ "': " ++ toString l.ruleNames.length ++ " rules, " ++
    toString l.externalNames.length ++ " externals", ?_, ?_⟩
  · simp only [String.toList_append, List.mem_append, hname, newline_notMem_toString, or_false]
    decide
  · rw [summary_of_load h]
    simp only [String.append_assoc]
    rfl

/-! ## Runs that differ in a flag -/

theorem quieter_runOptions (read : String → Except ReadError String) (o : Options) :
    Quieter (runOptions read { o with verbose := false })
      (runOptions read { o with verbose := true }) := by
  cases hload : ((source read o).load 0 o.grammar).value with
  | ok l =>
    rw [runOptions_of_ok (o := { o with verbose := false }) hload,
      runOptions_of_ok (o := { o with verbose := true }) hload]
    exact ⟨rfl, rfl, rfl, lines_logged _⟩
  | error e =>
    rw [runOptions_of_error (o := { o with verbose := false }) hload,
      runOptions_of_error (o := { o with verbose := true }) hload]
    exact ⟨rfl, rfl, rfl, lines_logged _⟩

theorem shorter_runOptions (read : String → Except ReadError String) (o : Options) :
    Shorter ((source read o).load 0 o.grammar).value (runOptions read { o with rules := false })
      (runOptions read { o with rules := true }) := by
  cases hload : ((source read o).load 0 o.grammar).value with
  | ok l =>
    rw [runOptions_of_ok (o := { o with rules := false }) hload,
      runOptions_of_ok (o := { o with rules := true }) hload]
    refine ⟨rfl, rfl, rfl, nofun, fun _ heq => ?_⟩
    cases heq
    obtain ⟨line, hline, hsummary⟩ := exists_summary_line hload
    exact ⟨line, hline, by simp [hsummary], by simp [hsummary]⟩
  | error e =>
    rw [runOptions_of_error (o := { o with rules := false }) hload,
      runOptions_of_error (o := { o with rules := true }) hload]
    exact ⟨rfl, rfl, rfl, fun _ _ => rfl, fun _ h => nomatch h⟩

/-- A verbose run shows the same as a quiet one, and logs more than its warnings. A run that prints
rules shows the same as one that does not, and prints more behind the only line of its output. -/
theorem run_flags (read : String → Except ReadError String) (o : Options) :
    (∀ quiet verbose, Parses quiet { o with verbose := false } →
      Parses verbose { o with verbose := true } →
      Quieter (run read quiet) (run read verbose)) ∧
    ∀ short long, Parses short { o with rules := false } → Parses long { o with rules := true } →
      Shorter ((source read o).load 0 o.grammar).value (run read short) (run read long) := by
  constructor
  · intro quiet verbose hquiet hverbose
    rw [hquiet.run_eq, hverbose.run_eq]
    exact quieter_runOptions read o
  · intro short long hshort hlong
    rw [hshort.run_eq, hlong.run_eq]
    exact shorter_runOptions read o

/-- The flags before and behind the grammar, where there are no files. -/
theorem run_flags_verse :
    let nowhere : String → Except ReadError String := fun _ => .error .notFound
    let verse : Options := { grammar := "verse" }
    Parses ["verse"] verse ∧ Parses ["--verbose", "verse"] { verse with verbose := true } ∧
      Parses ["verse", "-r"] { verse with rules := true } ∧
      Quieter (run nowhere ["verse"]) (run nowhere ["--verbose", "verse"]) ∧
      Shorter (Source.embedded.load 0 "verse").value (run nowhere ["verse"])
        (run nowhere ["verse", "-r"]) := by
  intro nowhere verse
  have hplain : Parses ["verse"] verse := ⟨by simp [WantsHelp], by decide⟩
  have hverbose : Parses ["--verbose", "verse"] { verse with verbose := true } :=
    ⟨by simp [WantsHelp], by decide +kernel⟩
  have hrules : Parses ["verse", "-r"] { verse with rules := true } :=
    ⟨by simp [WantsHelp], by decide⟩
  obtain ⟨hquieter, hshorter⟩ := run_flags nowhere verse
  exact ⟨hplain, hverbose, hrules, hquieter _ _ hplain hverbose, hshorter _ _ hplain hrules⟩

end GrammarTables.CommandLine
