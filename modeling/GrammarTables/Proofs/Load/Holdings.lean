import GrammarTables.LoadCheck
import GrammarTables.Proofs.Load.Acceptance
import GrammarTables.Proofs.Source.Chain
import Mathlib.Logic.Relation

/-!
# What a program holds

A program that loads grammars, copies handles and runs checks, from any sources and in any order,
comes to hold handles. Each of them is on a grammar without defects that has the name it was asked
for. The sources that come with the library refuse in the name that was asked for, too.
-/

namespace GrammarTables

/-- The handles that a program has obtained, each with the name it was asked for, and its checks. -/
structure Holdings where
  handles : List (String × Language) := []
  checks : List LoadCheck := []

namespace Holdings

/-- What a program does next. Sources may be others each time. -/
inductive Step : Holdings → Holdings → Prop where
  | load {h : Holdings} {source : Source} {n : Nat} {name : String} {l : Language} :
      (source.load n name).value = .ok l → Step h ⟨(name, l) :: h.handles, h.checks⟩
  | clone {h : Holdings} {name : String} {l : Language} :
      (name, l) ∈ h.handles → Step h ⟨(name, l) :: h.handles, h.checks⟩
  | makeCheck {h : Holdings} (label grammar : String) :
      Step h ⟨h.handles, { label, grammar } :: h.checks⟩
  | passCheck {h : Holdings} {source : Source} {n : Nat} {front back : List LoadCheck}
      {c c' : LoadCheck} {l : Language} :
      h.checks = front ++ c :: back → (c.run n source).value = (c', .ok l) →
      Step h ⟨(c.grammar, l) :: h.handles, front ++ c' :: back⟩
  | failCheck {h : Holdings} {source : Source} {n : Nat} {front back : List LoadCheck}
      {c c' : LoadCheck} {report : LoadCheck.Report} :
      h.checks = front ++ c :: back → (c.run n source).value = (c', .error report) →
      Step h ⟨h.handles, front ++ c' :: back⟩

/-- What a program can come to hold that begins with nothing. -/
def Reachable (h : Holdings) : Prop := Relation.ReflTransGen Step {} h

end Holdings

/-! ## Checks -/

namespace LoadCheck

/-- A check that has been decided for a handle has loaded it under the name it checks. -/
def Sound (c : LoadCheck) : Prop := ∀ l, c.state = .loaded l → l.grammar.Acceptable c.grammar

variable {c c' : LoadCheck} {n : Nat} {source : Source} {outcome : Except Report Language}

/-- A run decides the check or leaves it as it is, and tells how it was decided. -/
theorem run_cases (h : (c.run n source).value = (c', outcome)) :
    outcome = c'.outcome ∧
      (c' = c ∨ (∃ l, (source.load n c.grammar).value = .ok l ∧ c' = { c with state := .loaded l }) ∨
        ∃ e, (source.load n c.grammar).value = .error e ∧ c' = { c with state := .failed e }) := by
  unfold run at h
  cases h
  refine ⟨rfl, ?_⟩
  unfold decided
  split
  · show _ ∨ _ ∨ _
    cases hl : (source.load n c.grammar).value with
    | ok l => exact .inr (.inl ⟨l, rfl, by simp [bind, pure, hl]⟩)
    | error e => exact .inr (.inr ⟨e, rfl, by simp [bind, pure, hl]⟩)
  · exact .inl rfl

theorem grammar_run (h : (c.run n source).value = (c', outcome)) : c'.grammar = c.grammar := by
  obtain ⟨-, rfl | ⟨l, -, rfl⟩ | ⟨e, -, rfl⟩⟩ := run_cases h <;> rfl

theorem Sound.run (hc : c.Sound) (h : (c.run n source).value = (c', outcome)) : c'.Sound := by
  obtain ⟨-, rfl | ⟨l, hl, rfl⟩ | ⟨e, -, rfl⟩⟩ := run_cases h
  · exact hc
  · intro l' hl'
    cases hl'
    exact Source.acceptable_of_load hl
  · exact fun l' hl' => nomatch hl'

theorem Sound.acceptable_of_run {l : Language} (hc : c.Sound)
    (h : (c.run n source).value = (c', .ok l)) : l.grammar.Acceptable c.grammar := by
  have hs := hc.run h
  obtain ⟨ho, -⟩ := run_cases h
  rw [← grammar_run h]
  refine hs l ?_
  unfold outcome at ho
  split at ho
  · next hl => cases ho; exact hl
  · cases ho
  · cases ho

end LoadCheck

/-! ## Runs -/

namespace Holdings

variable {h k : Holdings}

/-- All handles are on grammars that are acceptable under the names that were asked for. -/
structure Sound (h : Holdings) : Prop where
  handles : ∀ p ∈ h.handles, p.2.grammar.Acceptable p.1
  checks : ∀ c ∈ h.checks, c.Sound

theorem sound_empty : Sound {} := ⟨List.forall_mem_nil _, List.forall_mem_nil _⟩

/-- Running one of the checks leaves all of them sound. -/
theorem Sound.run {front back : List LoadCheck} {c c' : LoadCheck} {n : Nat} {source : Source}
    {outcome : Except LoadCheck.Report Language} (hs : Sound h)
    (hc : h.checks = front ++ c :: back) (hr : (c.run n source).value = (c', outcome)) :
    c.Sound ∧ ∀ d ∈ front ++ c' :: back, d.Sound := by
  have hchecks := hs.checks
  simp only [hc, List.forall_mem_append, List.forall_mem_cons] at hchecks ⊢
  obtain ⟨hfront, hc, hback⟩ := hchecks
  exact ⟨hc, hfront, hc.run hr, hback⟩

theorem Sound.step (hs : Sound h) (hstep : Step h k) : Sound k := by
  cases hstep with
  | load hl => exact ⟨List.forall_mem_cons.mpr ⟨Source.acceptable_of_load hl, hs.handles⟩, hs.checks⟩
  | clone hm => exact ⟨List.forall_mem_cons.mpr ⟨hs.handles _ hm, hs.handles⟩, hs.checks⟩
  | makeCheck label grammar =>
    exact ⟨hs.handles, List.forall_mem_cons.mpr ⟨(fun l hl => nomatch hl), hs.checks⟩⟩
  | passCheck hc hr =>
    obtain ⟨hsound, hchecks⟩ := hs.run hc hr
    exact ⟨List.forall_mem_cons.mpr ⟨hsound.acceptable_of_run hr, hs.handles⟩, hchecks⟩
  | failCheck hc hr => exact ⟨hs.handles, (hs.run hc hr).2⟩

theorem Reachable.sound (hr : Reachable h) : Sound h := by
  induction hr with
  | refl => exact sound_empty
  | tail _ hstep ih => exact ih.step hstep

end Holdings

/-! ## The sources that come with the library -/

namespace Source

/-- The sources that come with the library, apart from chains of them. -/
inductive IsBuiltIn : Source → Prop where
  | embedded : IsBuiltIn .embedded
  | memory (texts : NameMap String) : IsBuiltIn (.memory texts)
  | directory (read : String → Except ReadError String) (root : String) :
      IsBuiltIn (.directory read root)

variable {source : Source} {name : String} {e : LoadError}

theorem grammar_of_firstFile {read : String → Except ReadError String} {paths : List String}
    {found : Logged (Except LoadError Tables)} (h : firstFile read name paths = some found)
    (he : found.value = .error e) : e.grammar = name := by
  induction paths with
  | nil => cases h
  | cons path paths ih =>
    unfold firstFile at h
    split at h
    · cases h; cases he
    · exact ih h
    · cases h; cases he; rfl

theorem IsBuiltIn.grammar_of_error (h : source.IsBuiltIn)
    (he : (source.resolve name).value = .error e) : e.grammar = name := by
  cases h with
  | embedded =>
    simp only [Source.embedded, silent] at he
    split at he <;> cases he
    rfl
  | memory texts =>
    simp only [Source.memory, silent] at he
    split at he <;> cases he
    rfl
  | directory read root =>
    simp only [Source.directory] at he
    split at he
    · cases hf : firstFile read name (candidates root name) with
      | none => rw [hf] at he; cases he; rfl
      | some found => rw [hf] at he; exact grammar_of_firstFile hf he
    · cases he; rfl

end Source

theorem Chain.grammar_of_error {c : Chain} {name : String} {e : LoadError}
    (h : ∀ s ∈ c.leaves, s.IsBuiltIn) (he : (c.source.resolve name).value = .error e) :
    e.grammar = name := by
  rcases first_or_all_miss c.leaves name with hall | ⟨front, s, back, hc, hfront, hs⟩
  · obtain ⟨last, grammar, hlast, hvalue, hresolve⟩ := resolve_of_all_miss hall
    rw [hresolve] at he
    cases he
    have hgrammar : grammar = name := (h last (List.mem_of_getLast? hlast)).grammar_of_error hvalue
    exact hgrammar
  · rw [resolve_of_first hc hfront hs] at he
    have hmem : s ∈ c.leaves := hc ▸ List.mem_append_right front List.mem_cons_self
    exact (h s hmem).grammar_of_error he

/-! ## Loads and handles -/

namespace Source

/-- A load gives a handle just for tables of an acceptable grammar, and is refused for the first
thing that is wrong with all others. So whatever a program does, all its handles are on acceptable
grammars; and what is refused from chains of the library's own sources is refused by its name. -/
theorem load_outcome :
    (∀ (source : Source) (load : Nat) (name : String),
      (∀ g origin,
        (∃ l, (source.load load name).value = .ok l ∧ l.grammar = g ∧ l.origin = origin) ↔
          ∃ tables, (source.resolve name).value = .ok tables ∧ tables.Holds g ∧
            tables.origin = origin ∧ g.Acceptable name) ∧
      ∀ e, (source.load load name).value = .error e ↔
        Refused (source.resolve name).value name e) ∧
    (∀ h : Holdings, h.Reachable → ∀ name l, (name, l) ∈ h.handles →
      l.grammar.check.value = none ∧ l.name = name) ∧
    ∀ c : Chain, (∀ s ∈ c.leaves, s.IsBuiltIn) → ∀ load name e,
      (c.source.load load name).value = .error e → e.grammar = name := by
  refine ⟨fun source load name => ⟨fun g origin => load_eq_ok_iff, fun e => load_eq_error_iff⟩,
    fun h hr name l hl => ?_, fun c hc load name e he => ?_⟩
  · obtain ⟨-, hname, hsound⟩ := hr.sound.handles _ hl
    exact ⟨hsound, hname⟩
  · cases load_eq_error_iff.mp he with
    | notResolved h => exact Chain.grammar_of_error hc h
    | malformed | foreign | misnamed | invalid => rfl

/-- A grammar under its own name and under another one. -/
def twoNames : Source :=
  .compiled [("words", oneRule), ("others", oneRule)]
where
  oneRule : Grammar := { name := "words", rules := .ofList [("text", { kind := .blank })] }

theorem load_outcome_twoNames :
    (∃ l, ∃ h : Holdings, (twoNames.load 0 "words").value = .ok l ∧
      h.Reachable ∧ h.handles = [("words", l), ("words", l)] ∧
      l.grammar.check.value = none ∧ l.name = "words") ∧
    (twoNames.load 0 "others").value =
      .error ⟨"others", .incompatible "tables are for grammar 'words'"⟩ ∧
    ∃ e, ((Chain.orElse (.single (.memory .empty)) (.single .embedded)).source.load 0
      "words").value = .error e ∧ e.grammar = "words" := by
  obtain ⟨hload, hheld, hchain⟩ := load_outcome
  have fits : twoNames.oneRule.SchemaFits := fun _ hs => nomatch hs
  refine ⟨?_, ?_, ?_⟩
  · obtain ⟨l, hl, -, -⟩ := ((hload twoNames 0 "words").1 twoNames.oneRule "compiled:words").mpr
      ⟨_, rfl, .built _ _, rfl, fits, rfl, by decide⟩
    have hr : Holdings.Reachable ⟨[("words", l), ("words", l)], []⟩ :=
      (Relation.ReflTransGen.single (.load hl)).tail (.clone List.mem_cons_self)
    exact ⟨l, _, hl, hr, rfl, hheld _ hr "words" l List.mem_cons_self⟩
  · exact ((hload twoNames 0 "others").2 _).mpr
      (.misnamed (g := twoNames.oneRule) rfl (.built _ _) fits (by decide))
  · have he := ((hload (Chain.orElse (.single (.memory .empty)) (.single .embedded)).source 0
      "words").2 _).mpr (.notResolved rfl)
    refine ⟨_, he, hchain _ ?_ 0 "words" _ he⟩
    intro s hs
    rcases List.mem_cons.mp hs with rfl | hs
    · exact .memory .empty
    · rw [List.mem_singleton.mp hs]
      exact .embedded

end Source

end GrammarTables
