import GrammarTables.Proofs.Grammar.Reachability
import GrammarTables.Proofs.Load.Holdings
import GrammarTables.Proofs.Load.OneShot
import GrammarTables.Proofs.NameMap

/-!
# Reports of loads

A load reports findings only about a grammar that it gives a handle on, and then it reports the load
itself. A load that fails leaves that to the check that it was made for. So whatever a source reports
of its own work, the rest of what is reported tells how a load has ended.
-/

namespace GrammarTables

/-- Whether an event tells how a load has ended. -/
def Event.isVerdict : Event → Bool
  | loaded .. | checkFailed .. => true
  | _ => false

/-- Whether an event is about anything but the work of a source. -/
def Event.isDiagnosis : Event → Bool
  | tablesRead .. => false
  | _ => true

def verdicts (events : List Event) : List Event := events.filter Event.isVerdict

def diagnoses (events : List Event) : List Event := events.filter Event.isDiagnosis

/-- The source reports nothing but its own work. -/
def Source.IsQuiet (source : Source) (name : String) : Prop :=
  ∀ e ∈ (source.resolve name).events, e.isDiagnosis = false

/-- The names of the rules of a grammar, each once. -/
structure Grammar.RuleNamesAre (g : Grammar) (names : List String) : Prop where
  distinct : names.Nodup
  mem_iff : ∀ name, name ∈ names ↔ ∃ body, g.rule? name = some body

theorem Grammar.ruleNamesAre_names (g : Grammar) : g.RuleNamesAre g.rules.names :=
  ⟨g.rules.nodup_names, fun _ => NameMap.mem_names_iff⟩

/-! ## Findings are diagnoses, but no verdicts -/

theorem Event.isDiagnosis_of_isVerdict {e : Event} (h : e.isVerdict) : e.isDiagnosis := by
  cases e <;> first | rfl | cases h

theorem diagnoses_append (es fs : List Event) : diagnoses (es ++ fs) = diagnoses es ++ diagnoses fs :=
  List.filter_append ..

theorem verdicts_append (es fs : List Event) : verdicts (es ++ fs) = verdicts es ++ verdicts fs :=
  List.filter_append ..

namespace Grammar

variable {g : Grammar} {e : Event}

theorem kind_of_mem_findings (he : e ∈ g.findings) : e.isDiagnosis = true ∧ e.isVerdict = false := by
  rw [mem_findings] at he
  rcases he with hreach | ⟨name, -, rfl⟩ | ⟨mixed, -, rfl⟩
  · have hwarn := level_of_mem_reachabilityFindings hreach
    cases e <;> first | exact ⟨rfl, rfl⟩ | cases hwarn
  · exact ⟨rfl, rfl⟩
  · exact ⟨rfl, rfl⟩

theorem diagnoses_findings (g : Grammar) : diagnoses g.findings = g.findings :=
  List.filter_eq_self.mpr fun _ he => (kind_of_mem_findings he).1

theorem verdicts_findings (g : Grammar) : verdicts g.findings = [] :=
  List.filter_eq_nil_iff.mpr fun _ he => by simp [(kind_of_mem_findings he).2]

end Grammar

/-! ## Whole reports -/

namespace Source

variable {source : Source} {n : Nat} {name : String}

/-- What is reported of a load that goes through: the source's work, the findings, the load. -/
theorem events_load_of_ok {l : Language} (h : (source.load n name).value = .ok l) :
    ∃ tables, (source.resolve name).value = .ok tables ∧ tables.Holds l.grammar ∧
      tables.origin = l.origin ∧
      (source.load n name).events = (source.resolve name).events ++
        (l.grammar.findings ++ [.loaded name l.origin l.grammar.rules.size]) := by
  obtain ⟨tables, hresolve, hholds, horigin, ha⟩ := load_eq_ok_iff.mp ⟨l, h, rfl, rfl⟩
  obtain ⟨l', hl', -, -⟩ := Grammar.accept_of_acceptable ha n tables.origin
  refine ⟨tables, hresolve, hholds, horigin, ?_⟩
  rw [load_of_grammar hresolve (Tables.holds_iff.mp hholds), hl', ← horigin]

/-- Of a load that fails nothing is reported but the source's work. -/
theorem events_load_of_error {e : LoadError} (h : (source.load n name).value = .error e) :
    (source.load n name).events = (source.resolve name).events := by
  cases load_eq_error_iff.mp h with
  | notResolved hf => rw [load_of_error hf]
  | malformed hf hj => rw [load_of_malformed hf (Tables.grammar_of_malformed hj)]
  | foreign hf hg hs hne =>
    rw [load_of_grammar hf (Tables.holds_iff.mp hg),
      Grammar.accept_of_mismatch (Grammar.mismatch?_of_foreign hs hne), List.append_nil]
  | misnamed hf hg hs hne =>
    rw [load_of_grammar hf (Tables.holds_iff.mp hg),
      Grammar.accept_of_mismatch (Grammar.mismatch?_of_misnamed hs hne), List.append_nil]
  | invalid hf hg hs hn hd =>
    rw [load_of_grammar hf (Tables.holds_iff.mp hg),
      Grammar.accept_of_defect (Grammar.mismatch?_of_fits hs hn) hd, List.append_nil]

/-! ## Quiet sources -/

theorem IsQuiet.diagnoses_eq_nil (h : source.IsQuiet name) :
    diagnoses (source.resolve name).events = [] :=
  List.filter_eq_nil_iff.mpr fun e he => by simp [h e he]

theorem IsQuiet.verdicts_eq_nil (h : source.IsQuiet name) :
    verdicts (source.resolve name).events = [] :=
  List.filter_eq_nil_iff.mpr fun e he hv => by
    have hd := Event.isDiagnosis_of_isVerdict hv
    rw [h e he] at hd
    cases hd

theorem quiet_of_firstFile {read : String → Except ReadError String} {paths : List String}
    {found : Logged (Except LoadError Tables)} (h : firstFile read name paths = some found) :
    ∀ e ∈ found.events, e.isDiagnosis = false := by
  induction paths with
  | nil => cases h
  | cons path paths ih =>
    unfold firstFile at h
    split at h
    · cases h
      exact List.forall_mem_singleton.mpr rfl
    · exact ih h
    · cases h
      exact List.forall_mem_nil _

theorem IsBuiltIn.isQuiet (h : source.IsBuiltIn) : source.IsQuiet name := by
  cases h with
  | embedded | memory => exact List.forall_mem_nil _
  | directory read root =>
    unfold IsQuiet
    simp only [Source.directory]
    split
    · cases hf : firstFile read name (candidates root name) with
      | none => exact List.forall_mem_nil _
      | some found => exact quiet_of_firstFile hf
    · exact List.forall_mem_nil _

end Source

/-- The sources that come with the library are quiet, however they are chained. -/
theorem Chain.isQuiet {c : Chain} (h : ∀ s ∈ c.leaves, s.IsBuiltIn) (name : String) :
    c.source.IsQuiet name := by
  induction c with
  | single s => exact (h s List.mem_cons_self).isQuiet
  | orElse c d ihc ihd =>
    have hc := ihc fun s hs => h s (List.mem_append_left _ hs)
    have hd := ihd fun s hs => h s (List.mem_append_right _ hs)
    unfold Source.IsQuiet at *
    by_cases hm : c.source.misses name
    · rw [source, Source.resolve_orElse_of_misses hm]
      exact List.forall_mem_append.mpr ⟨hc, hd⟩
    · rw [source, Source.resolve_orElse_of_not_misses hm]
      exact hc

/-! ## Reports and outcomes -/

namespace Source

variable {source : Source} {n : Nat} {name : String}

theorem diagnoses_load_of_ok (hq : source.IsQuiet name) {l : Language}
    (h : (source.load n name).value = .ok l) :
    diagnoses (source.load n name).events =
        l.grammar.check.events ++ [.loaded name l.origin l.grammar.rules.size] ∧
      verdicts (source.load n name).events = [.loaded name l.origin l.grammar.rules.size] := by
  obtain ⟨-, -, -, -, hevents⟩ := events_load_of_ok h
  have hsound : l.grammar.check.value = none := (acceptable_of_load h).sound
  rw [hevents, diagnoses_append, diagnoses_append, verdicts_append, verdicts_append,
    hq.diagnoses_eq_nil, hq.verdicts_eq_nil, Grammar.diagnoses_findings, Grammar.verdicts_findings,
    Grammar.events_of_sound hsound]
  exact ⟨rfl, rfl⟩

theorem diagnoses_load_of_error (hq : source.IsQuiet name) {e : LoadError}
    (h : (source.load n name).value = .error e) :
    diagnoses (source.load n name).events = [] ∧ verdicts (source.load n name).events = [] := by
  rw [events_load_of_error h]
  exact ⟨hq.diagnoses_eq_nil, hq.verdicts_eq_nil⟩

end Source

/-- The first run of a check ends with one verdict. -/
theorem LoadCheck.verdicts_run {source : Source} {c : LoadCheck} (hc : c.state = .unloaded)
    (hq : source.IsQuiet c.grammar) (n : Nat) :
    (∃ l, (c.run n source).value.1.state = .loaded l ∧
      verdicts (c.run n source).events = [.loaded c.grammar l.origin l.grammar.rules.size]) ∨
    ∃ e, (c.run n source).value.1.state = .failed e ∧
      verdicts (c.run n source).events = [.checkFailed c.grammar e.message] := by
  cases hload : (source.load n c.grammar).value with
  | ok l =>
    rw [run_of_load_ok hc hload]
    exact .inl ⟨l, rfl, (Source.diagnoses_load_of_ok hq hload).2⟩
  | error e =>
    rw [run_of_load_error hc hload, verdicts_append, (Source.diagnoses_load_of_error hq hload).2]
    exact .inr ⟨e, rfl, rfl⟩

namespace Source

/-- Findings are reported only of sound grammars. A load from a quiet source reports, besides the
source's work, the findings about the grammar that it gives a handle on and, last of all, the load; if
it gives no handle it reports nothing. The first run of a check reports the load, or else the error
that it has failed for in full. -/
theorem load_reports :
    (∀ g : Grammar, g.check.value ≠ none → g.check.events = []) ∧
    ∀ (source : Source) (name : String), source.IsQuiet name → ∀ n,
      (∀ l, (source.load n name).value = .ok l → ∃ tables names,
        (source.resolve name).value = .ok tables ∧ tables.Holds l.grammar ∧
        l.grammar.RuleNamesAre names ∧
        diagnoses (source.load n name).events =
          l.grammar.check.events ++ [.loaded name tables.origin names.length] ∧
        verdicts (source.load n name).events = [.loaded name tables.origin names.length]) ∧
      (∀ e, (source.load n name).value = .error e →
        diagnoses (source.load n name).events = []) ∧
      ∀ label, let first := ({ label, grammar := name } : LoadCheck).run n source
        (∃ l, first.value.1.state = .loaded l ∧ ∃ names, l.grammar.RuleNamesAre names ∧
          verdicts first.events = [.loaded name l.origin names.length]) ∨
        ∃ e, first.value.1.state = .failed e ∧
          verdicts first.events = [.checkFailed name e.message] := by
  refine ⟨fun g => Grammar.events_of_unsound, fun source name hq n => ⟨?_, ?_, ?_⟩⟩
  · intro l hl
    obtain ⟨tables, hresolve, hholds, horigin, -⟩ := events_load_of_ok hl
    refine ⟨tables, _, hresolve, hholds, l.grammar.ruleNamesAre_names, ?_⟩
    rw [horigin, NameMap.length_names]
    exact diagnoses_load_of_ok hq hl
  · exact fun e he => (diagnoses_load_of_error hq he).1
  · intro label first
    rcases LoadCheck.verdicts_run (c := { label, grammar := name }) rfl hq n with
      ⟨l, hstate, hverdicts⟩ | hfailed
    · rw [← NameMap.length_names] at hverdicts
      exact .inl ⟨l, hstate, _, l.grammar.ruleNamesAre_names, hverdicts⟩
    · exact .inr hfailed

/-- The grammar has a rule that nothing leads to, which is reported. -/
def built : Source := .compiled [("words", Grammar.withGap)]

/-- A source that finds a file with tables that are cut off. -/
def cutOff : Source := ⟨fun name => ⟨.ok (.text "words.json" "\x7b"), [.tablesRead name "words.json"]⟩⟩

theorem load_reports_built_cutOff :
    (∃ l names, (built.load 0 "words").value = .ok l ∧ l.grammar = Grammar.withGap ∧
      Grammar.withGap.RuleNamesAre names ∧
      diagnoses (built.load 0 "words").events =
        Grammar.withGap.check.events ++ [.loaded "words" "compiled:words" names.length]) ∧
    (∃ e, (cutOff.load 0 "words").value = .error e ∧
      (cutOff.load 0 "words").events = [.tablesRead "words" "words.json"] ∧
      diagnoses (cutOff.load 0 "words").events = [] ∧
      verdicts (LoadCheck.run { label := "Words", grammar := "words" } 0 cutOff).events =
        [.checkFailed "words" e.message]) := by
  obtain ⟨-, hload⟩ := load_reports
  constructor
  · have hquiet : built.IsQuiet "words" := List.forall_mem_nil _
    have hresolve : (built.resolve "words").value =
        .ok (.built "compiled:words" Grammar.withGap) := rfl
    have hacceptable : Grammar.withGap.Acceptable "words" :=
      ⟨fun _ hs => (nomatch hs), rfl, by decide⟩
    obtain ⟨l, hl, hgrammar, -⟩ := load_of_acceptable hresolve (.built _ _) hacceptable 0
    obtain ⟨tables, names, htables, -, hnames, hdiagnoses, -⟩ := (hload built _ hquiet 0).1 l hl
    cases hresolve.symm.trans htables
    rw [hgrammar] at hnames hdiagnoses
    exact ⟨l, names, hl, hgrammar, hnames, hdiagnoses⟩
  · have hquiet : cutOff.IsQuiet "words" := List.forall_mem_singleton.mpr rfl
    have hcut : (Grammar.ofTables "\x7b").isOk = false := by decide +kernel
    obtain ⟨e, he⟩ : ∃ e, (cutOff.load 0 "words").value = .error e := by
      cases hjson : Grammar.ofTables "\x7b" with
      | ok g => rw [hjson] at hcut; cases hcut
      | error f => exact ⟨_, load_of_refused (.malformed rfl hjson)⟩
    obtain ⟨-, herror, hrun⟩ := hload cutOff _ hquiet 0
    refine ⟨e, he, ?_, herror e he, ?_⟩
    · rw [events_load_of_error he]
      rfl
    · have hfailed := LoadCheck.run_of_load_error (c := { label := "Words", grammar := "words" }) rfl he
      rcases hrun "Words" with ⟨l, hstate, -⟩ | ⟨e', hstate, hverdicts⟩
      · rw [hfailed] at hstate
        cases hstate
      · rw [hfailed] at hstate
        cases hstate
        exact hverdicts

end Source

end GrammarTables
