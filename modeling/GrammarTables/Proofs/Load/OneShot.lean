import GrammarTables.LoadCheck
import GrammarTables.Proofs.Load.Acceptance

/-!
# Checks are decided once

The first run of a check decides it. A run of a decided check looks at nothing but the check: it
leaves the check as it is, asks no source and reports nothing. So however often a check is run, and
whatever becomes of the sources, all runs say what the first one said.
-/

namespace GrammarTables

/-- The number of a load is the number of the handle that it gives. -/
theorem Source.load_number {source : Source} {n : Nat} {name : String} {l : Language}
    (h : (source.load n name).value = .ok l) : l.load = n := by
  obtain ⟨tables, hresolve, hholds, -, ha⟩ := load_eq_ok_iff.mp ⟨l, h, rfl, rfl⟩
  have hd : l.grammar.defect? = none := l.grammar.value_check ▸ ha.sound
  rw [load_of_grammar hresolve (Tables.holds_iff.mp hholds), Grammar.accept,
    Grammar.mismatch?_of_fits ha.schema ha.name, Grammar.language_of_sound hd] at h
  exact (congrArg Language.load (Except.ok.inj h)).symm

namespace LoadCheck

/-- What a check is run with: the number of the load, if it comes to one, and the source as it is
at that time. -/
structure Turn where
  load : Nat
  source : Source

/-- Runs a check once for each turn. -/
def runAll (c : LoadCheck) : List Turn → List (Logged (LoadCheck × Except Report Language))
  | [] => []
  | turn :: turns =>
    c.run turn.load turn.source :: (c.run turn.load turn.source).value.1.runAll turns

variable {c : LoadCheck} {n : Nat} {source : Source}

/-! ## Single runs -/

theorem run_of_terminal (h : c.state.isTerminal) (n : Nat) (source : Source) :
    c.run n source = ⟨(c, c.outcome), []⟩ := by
  obtain ⟨label, grammar, state⟩ := c
  cases state with
  | unloaded => cases h
  | loaded l => rfl
  | failed e => rfl

theorem run_of_load_ok {l : Language} (h : c.state = .unloaded)
    (hl : (source.load n c.grammar).value = .ok l) :
    c.run n source =
      ⟨({ c with state := .loaded l }, .ok l), (source.load n c.grammar).events⟩ := by
  simp [run, decided, outcome, bind, pure, h, hl]

theorem run_of_load_error {e : LoadError} (h : c.state = .unloaded)
    (he : (source.load n c.grammar).value = .error e) :
    c.run n source =
      ⟨({ c with state := .failed e }, .error ⟨c.label, e.message⟩),
        (source.load n c.grammar).events ++ [.checkFailed c.grammar e.message]⟩ := by
  simp [run, decided, outcome, bind, pure, Logged.report, h, he]

/-- After any run the check is decided. -/
theorem isTerminal_run (c : LoadCheck) (n : Nat) (source : Source) :
    (c.run n source).value.1.state.isTerminal := by
  by_cases h : c.state = .unloaded
  · cases hl : (source.load n c.grammar).value with
    | ok l => rw [run_of_load_ok h hl]; rfl
    | error e => rw [run_of_load_error h hl]; rfl
  · have ht : c.state.isTerminal := by
      unfold State.isTerminal
      split
      · next hs => exact absurd hs h
      · rfl
      · rfl
    rw [run_of_terminal ht]
    exact ht

/-- What a run says is what the check says from then on. -/
theorem outcome_run (c : LoadCheck) (n : Nat) (source : Source) :
    (c.run n source).value.2 = (c.run n source).value.1.outcome := rfl

/-! ## Series of runs -/

theorem runAll_of_terminal (h : c.state.isTerminal) (turns : List Turn) :
    c.runAll turns = List.replicate turns.length ⟨(c, c.outcome), []⟩ := by
  induction turns with
  | nil => rfl
  | cons turn turns ih =>
    rw [runAll, run_of_terminal h, ih, List.length_cons, List.replicate_succ]

theorem runAll_cons (c : LoadCheck) (turn : Turn) (later : List Turn) :
    c.runAll (turn :: later) = c.run turn.load turn.source ::
      List.replicate later.length ⟨(c.run turn.load turn.source).value, []⟩ := by
  rw [runAll, runAll_of_terminal (c.isTerminal_run turn.load turn.source), ← outcome_run]

/-- The text of a load error is not what a check would say that was never run. -/
theorem message_ne_notRun (e : LoadError) : e.message ≠ "check did not run" := by
  intro h
  have hsecond : e.message.toList[1]? = some 'a' := by
    unfold LoadError.message
    rw [String.toList_append, String.toList_append, String.toList_append]
    rfl
  rw [h] at hsecond
  exact absurd hsecond (by decide +kernel)

/-- A check is decided by its first run: it has loaded the grammar just if that run's load gave a
handle, and has failed just if it gave an error. Later runs change nothing and report nothing, not
even what a source reports when it is asked, and all runs say the same: the handle of that one load,
or that load's error under the check's own label. -/
theorem runAll_one_shot (label grammar : String) (turn : Turn) (later : List Turn) :
    let check : LoadCheck := { label, grammar }
    let load := turn.source.load turn.load grammar
    let first := check.run turn.load turn.source
    check.runAll (turn :: later) =
      first :: List.replicate later.length ⟨first.value, []⟩ ∧
    (∀ l, first.value.1.state = .loaded l ↔ load.value = .ok l) ∧
    (∀ e, first.value.1.state = .failed e ↔ load.value = .error e) ∧
    ∀ run ∈ check.runAll (turn :: later),
      (∀ l, load.value = .ok l → l.load = turn.load ∧ run.value.2 = .ok l) ∧
      (∀ e, load.value = .error e → run.value.2 = .error ⟨label, e.message⟩) ∧
      ∀ report, run.value.2 = .error report → report.cause ≠ "check did not run" := by
  intro check load first
  have hruns : check.runAll (turn :: later) =
      first :: List.replicate later.length ⟨first.value, []⟩ := check.runAll_cons turn later
  have hsame : ∀ run ∈ check.runAll (turn :: later), run.value = first.value := by
    rw [hruns]
    refine List.forall_mem_cons.mpr ⟨rfl, fun run hrun => ?_⟩
    rw [List.eq_of_mem_replicate hrun]
  cases hload : load.value with
  | ok l =>
    have hfirst : first.value = ({ check with state := .loaded l }, .ok l) :=
      congrArg Logged.value (run_of_load_ok rfl hload)
    refine ⟨hruns, ?_, ?_, fun run hrun => ?_⟩
    · intro m
      rw [hfirst]
      simp
    · intro e
      rw [hfirst]
      simp
    · rw [hsame run hrun, hfirst]
      refine ⟨?_, nofun, nofun⟩
      rintro _ ⟨⟩
      exact ⟨Source.load_number hload, rfl⟩
  | error e =>
    have hfirst : first.value = ({ check with state := .failed e }, .error ⟨label, e.message⟩) :=
      congrArg Logged.value (run_of_load_error rfl hload)
    refine ⟨hruns, ?_, ?_, fun run hrun => ?_⟩
    · intro m
      rw [hfirst]
      simp
    · intro d
      rw [hfirst]
      simp
    · rw [hsame run hrun, hfirst]
      refine ⟨?_, ?_, ?_⟩
      · intro m hm
        cases hm
      · intro d hd
        rw [Except.error.inj hd]
      · intro report hreport hc
        have hcause : report.cause = e.message := congrArg Report.cause (Except.error.inj hreport).symm
        exact message_ne_notRun e (hcause.symm.trans hc)

end LoadCheck

end GrammarTables
