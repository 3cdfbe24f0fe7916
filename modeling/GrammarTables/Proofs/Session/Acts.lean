import GrammarTables.Proofs.Load.OneShot
import GrammarTables.Proofs.NameMap
import GrammarTables.Session

/-!
# Acts on handles

A session keeps handles under names and in checks. What an act does with them is one of four
things: it loads a grammar, and the handle may go to a place; it copies the handle of one place to
another; it empties a place; or it leaves all places as they are. Each of the first three is a
relation that does not look at the session after the act, and `does` says that there is nothing
else.
-/

namespace GrammarTables

/-- The handle that a check gives when it is run again. -/
def LoadCheck.language? (c : LoadCheck) : Option Language := c.outcome.toOption

theorem LoadCheck.language?_of_unloaded {c : LoadCheck} (h : c.state = .unloaded) :
    c.language? = none := by
  rw [language?, outcome, h]
  rfl

theorem LoadCheck.State.unloaded_or_isTerminal (s : State) : s = .unloaded ∨ s.isTerminal := by
  cases s with
  | unloaded => exact .inl rfl
  | loaded | failed => exact .inr rfl

namespace Session

/-- Where a session keeps a handle. -/
inductive Place where
  | name (id : String)
  | check (id : String)
  deriving DecidableEq

def at? (s : Session) : Place → Option Language
  | .name id => s.languages.get? id
  | .check id => (s.checks.get? id).bind LoadCheck.language?

/-- Checks are made undecided. -/
def Request.Proper : Request → Prop
  | .makeCheck _ check => check.state = .unloaded
  | _ => True

inductive Act where
  | request (r : Request) (proper : r.Proper)
  /-- Loads a grammar from any source, also from one that no plan describes. -/
  | load (source : Source) (name : String) (keepAs : Option String)
  | runCheck (id : String) (source : Source)
  /-- Keeps what a run of a decided check gives. -/
  | copyChecked (checkId newId : String)
  | dropCheck (id : String)

def perform (s : Session) : Act → Session
  | .request r _ => (s.handle r).value.1
  | .load source name keepAs => (s.load source name keepAs).value.1
  | .runCheck id source =>
    match s.checks.get? id with
    | some check => (s.runCheck id check source).value.1
    | none => s
  | .copyChecked checkId newId =>
    match s.at? (.check checkId) with
    | some l => { s with languages := s.languages.insert newId l }
    | none => s
  | .dropCheck id => { s with checks := s.checks.erase id }

/-! ## What an act does -/

/-- An act asks a source for a grammar, and what it gets is for `target` if anywhere. A check that
is decided asks for nothing. -/
inductive Asks (s : Session) : Act → Source → String → Option Place → Prop where
  | load (source : Source) (name : String) (keepAs : Option String) :
      Asks s (.load source name keepAs) source name (keepAs.map .name)
  | runCheck {id : String} {check : LoadCheck} (source : Source) :
      s.checks.get? id = some check → check.state = .unloaded →
      Asks s (.runCheck id source) source check.grammar (some (.check id))
  | requestLoad {plan : SourcePlan} {source : Source} (name : String) (keepAs : Option String)
      (proper : (Request.load plan name keepAs).Proper) :
      s.source? plan = some source →
      Asks s (.request (.load plan name keepAs) proper) source name (keepAs.map .name)
  | requestRunCheck {id : String} {plan : SourcePlan} {source : Source} {check : LoadCheck}
      (proper : (Request.runCheck id plan).Proper) :
      s.source? plan = some source → s.checks.get? id = some check → check.state = .unloaded →
      Asks s (.request (.runCheck id plan) proper) source check.grammar (some (.check id))

/-- An act is a successful load: it makes the handle `l` from `tables`. -/
inductive Loads (s : Session) (act : Act) (target : Option Place) (tables : Tables)
    (l : Language) : Prop where
  | intro {source : Source} {name : String} :
      Asks s act source name target → (source.resolve name).value = .ok tables →
      (source.load s.nextLoad name).value = .ok l → Loads s act target tables l

/-- The handle of the first place, if there is one, is copied to the second. -/
inductive Copies : Act → Place → Place → Prop where
  | copyLanguage (id newId : String) (proper : (Request.copyLanguage id newId).Proper) :
      Copies (.request (.copyLanguage id newId) proper) (.name id) (.name newId)
  | copyChecked (checkId newId : String) :
      Copies (.copyChecked checkId newId) (.check checkId) (.name newId)

/-- The place is emptied. -/
inductive Drops : Act → Place → Prop where
  | dropLanguage (id : String) (proper : (Request.dropLanguage id).Proper) :
      Drops (.request (.dropLanguage id) proper) (.name id)
  | makeCheck (id : String) (check : LoadCheck) (proper : (Request.makeCheck id check).Proper) :
      Drops (.request (.makeCheck id check) proper) (.check id)
  | dropCheck (id : String) : Drops (.dropCheck id) (.check id)

/-- The act puts something else at the place, or nothing. -/
inductive Touches (s : Session) (act : Act) (p : Place) : Prop where
  | loads {tables : Tables} {l : Language} : Loads s act (some p) tables l → Touches s act p
  | copies {q : Place} {l : Language} : Copies act q p → s.at? q = some l → Touches s act p
  | drops : Drops act p → Touches s act p

variable {s t : Session} {act : Act} {p q r : Place} {target : Option Place} {tables : Tables}
  {l : Language} {source : Source} {name id : String}

/-! ## Places of altered sessions -/

/-- The places depend on the names and the checks only. -/
theorem at?_congr (hl : t.languages = s.languages) (hc : t.checks = s.checks) (p : Place) :
    t.at? p = s.at? p := by
  cases p <;> simp [at?, hl, hc]

theorem at?_of_insertLanguage (hl : t.languages = s.languages.insert id l)
    (hc : t.checks = s.checks) (p : Place) :
    t.at? p = if p = .name id then some l else s.at? p := by
  cases p <;> simp [at?, hl, hc, NameMap.get?_insert]

theorem at?_of_eraseLanguage (hl : t.languages = s.languages.erase id)
    (hc : t.checks = s.checks) (p : Place) :
    t.at? p = if p = .name id then none else s.at? p := by
  cases p <;> simp [at?, hl, hc, NameMap.get?_erase]

theorem at?_of_insertCheck {check : LoadCheck} (hl : t.languages = s.languages)
    (hc : t.checks = s.checks.insert id check) (p : Place) :
    t.at? p = if p = .check id then check.language? else s.at? p := by
  cases p with
  | name other => simp [at?, hl]
  | check other =>
    simp only [at?, hc, NameMap.get?_insert, Place.check.injEq]
    split <;> rfl

theorem at?_of_eraseCheck (hl : t.languages = s.languages) (hc : t.checks = s.checks.erase id)
    (p : Place) : t.at? p = if p = .check id then none else s.at? p := by
  cases p with
  | name other => simp [at?, hl]
  | check other =>
    simp only [at?, hc, NameMap.get?_erase, Place.check.injEq]
    split <;> rfl

/-! ## Loads -/

theorem perform_load_of_ok {keepAs : Option String}
    (h : (source.load s.nextLoad name).value = .ok l) :
    s.perform (.load source name keepAs) =
      { s with
        nextLoad := s.nextLoad + 1
        languages := keepAs.elim s.languages (s.languages.insert · l) } := by
  cases keepAs <;> simp [perform, load, bind, pure, h]

theorem perform_load_of_error {keepAs : Option String} {e : LoadError}
    (h : (source.load s.nextLoad name).value = .error e) :
    s.perform (.load source name keepAs) = { s with nextLoad := s.nextLoad + 1 } := by
  simp [perform, load, bind, pure, h]

theorem perform_runCheck {check : LoadCheck} (h : s.checks.get? id = some check) :
    s.perform (.runCheck id source) =
      { s with
        checks := s.checks.insert id (check.run s.nextLoad source).value.1
        nextLoad := s.nextLoad + 1 } := by
  simp [perform, runCheck, bind, pure, h]

theorem perform_runCheck_of_none (h : s.checks.get? id = none) :
    s.perform (.runCheck id source) = s := by
  simp [perform, h]

/-- A request to load is a load from the source that its plan describes. -/
theorem perform_requestLoad {plan : SourcePlan} {keepAs : Option String}
    {proper : (Request.load plan name keepAs).Proper} (h : s.source? plan = some source) :
    s.perform (.request (.load plan name keepAs) proper) =
      s.perform (.load source name keepAs) := by
  simp [perform, handle, h]

theorem perform_requestRunCheck {plan : SourcePlan} {proper : (Request.runCheck id plan).Proper}
    (h : s.source? plan = some source) :
    s.perform (.request (.runCheck id plan) proper) = s.perform (.runCheck id source) := by
  cases hc : s.checks.get? id <;> simp [perform, handle, tell, pure, h, hc]

theorem perform_requestLoad_of_none {plan : SourcePlan} {keepAs : Option String}
    {proper : (Request.load plan name keepAs).Proper} (h : s.source? plan = none) :
    s.perform (.request (.load plan name keepAs) proper) = s := by
  simp [perform, handle, tell, pure, h]

theorem perform_requestRunCheck_of_none {plan : SourcePlan}
    {proper : (Request.runCheck id plan).Proper} (h : s.source? plan = none) :
    s.perform (.request (.runCheck id plan) proper) = s := by
  simp [perform, handle, tell, pure, h]

/-- Whatever asks a source is a plain load or the first run of a check. -/
theorem Asks.eq_load_or_runCheck (h : Asks s act source name target) :
    (∃ keepAs : Option String,
      s.perform act = s.perform (.load source name keepAs) ∧ target = keepAs.map .name) ∨
    ∃ id check, s.perform act = s.perform (.runCheck id source) ∧ target = some (.check id) ∧
      s.checks.get? id = some check ∧ check.state = .unloaded ∧ check.grammar = name := by
  cases h with
  | load source name keepAs => exact .inl ⟨keepAs, rfl, rfl⟩
  | runCheck source hc hu => exact .inr ⟨_, _, rfl, rfl, hc, hu, rfl⟩
  | requestLoad name keepAs proper hs => exact .inl ⟨keepAs, perform_requestLoad hs, rfl⟩
  | requestRunCheck proper hs hc hu =>
    exact .inr ⟨_, _, perform_requestRunCheck hs, rfl, hc, hu, rfl⟩

theorem at?_check_of_unloaded {check : LoadCheck} (hc : s.checks.get? id = some check)
    (hu : check.state = .unloaded) : s.at? (.check id) = none := by
  rw [at?, hc, Option.bind_some, LoadCheck.language?_of_unloaded hu]

/-- An act asks at most once. -/
theorem Asks.unique {source' : Source} {name' : String} {target' : Option Place}
    (h : Asks s act source name target) (h' : Asks s act source' name' target') :
    source = source' ∧ name = name' ∧ target = target' := by
  cases h with
  | load =>
    cases h'
    exact ⟨rfl, rfl, rfl⟩
  | runCheck source hc =>
    cases h' with
    | runCheck _ hc' =>
      cases hc.symm.trans hc'
      exact ⟨rfl, rfl, rfl⟩
  | requestLoad name keepAs proper hs =>
    cases h' with
    | requestLoad _ _ _ hs' =>
      cases hs.symm.trans hs'
      exact ⟨rfl, rfl, rfl⟩
  | requestRunCheck proper hs hc =>
    cases h' with
    | requestRunCheck _ hs' hc' =>
      cases hs.symm.trans hs'
      cases hc.symm.trans hc'
      exact ⟨rfl, rfl, rfl⟩

/-! ## After an act -/

theorem Loads.grammar (h : Loads s act target tables l) : tables.grammar = .ok l.grammar := by
  obtain ⟨-, hresolve, hload⟩ := h
  obtain ⟨tables', hresolve', hholds, -, -⟩ := Source.load_eq_ok_iff.mp ⟨l, hload, rfl, rfl⟩
  cases hresolve.symm.trans hresolve'
  exact Tables.holds_iff.mp hholds

theorem Loads.load_eq (h : Loads s act target tables l) : l.load = s.nextLoad := by
  obtain ⟨-, -, hload⟩ := h
  exact Source.load_number hload

theorem Loads.unique {target' : Option Place} {tables' : Tables} {l' : Language}
    (h : Loads s act target tables l) (h' : Loads s act target' tables' l') :
    tables = tables' ∧ l = l' := by
  obtain ⟨hask, hresolve, hload⟩ := h
  obtain ⟨hask', hresolve', hload'⟩ := h'
  obtain ⟨rfl, rfl, -⟩ := hask.unique hask'
  exact ⟨Except.ok.inj (hresolve.symm.trans hresolve'), Except.ok.inj (hload.symm.trans hload')⟩

theorem Loads.nextLoad (h : Loads s act target tables l) :
    (s.perform act).nextLoad = s.nextLoad + 1 := by
  obtain ⟨hask, -, hload⟩ := h
  obtain ⟨keepAs, heq, -⟩ | ⟨id, check, heq, -, hc, -⟩ := hask.eq_load_or_runCheck
  · rw [heq, perform_load_of_ok hload]
  · rw [heq, perform_runCheck hc]

theorem Loads.at? (h : Loads s act target tables l) (r : Place) :
    (s.perform act).at? r = if target = some r then some l else s.at? r := by
  obtain ⟨hask, -, hload⟩ := h
  obtain ⟨keepAs, heq, rfl⟩ | ⟨id, check, heq, rfl, hc, hu, rfl⟩ := hask.eq_load_or_runCheck
  · rw [heq, perform_load_of_ok hload]
    cases keepAs with
    | none => exact at?_congr rfl rfl r
    | some id =>
      refine (at?_of_insertLanguage (s := s) (by rfl) (by rfl) r).trans ?_
      simp [eq_comm]
  · rw [heq, perform_runCheck hc, LoadCheck.run_of_load_ok hu hload]
    refine (at?_of_insertCheck (s := s) (by rfl) (by rfl) r).trans ?_
    simp [eq_comm, LoadCheck.language?, LoadCheck.outcome, Except.toOption]

theorem Copies.at? (h : Copies act p q) (hp : s.at? p = some l) (r : Place) :
    (s.perform act).at? r = if r = q then some l else s.at? r := by
  cases h with
  | copyLanguage id newId =>
    have hget : s.languages.get? id = some l := hp
    simp only [perform, handle, hget, tell, pure]
    exact at?_of_insertLanguage (by rfl) (by rfl) r
  | copyChecked checkId newId =>
    simp only [perform, hp]
    exact at?_of_insertLanguage (by rfl) (by rfl) r

theorem Drops.at? (h : Drops act p) (r : Place) :
    (s.perform act).at? r = if r = p then none else s.at? r := by
  cases h with
  | dropLanguage id => exact at?_of_eraseLanguage (by rfl) (by rfl) r
  | makeCheck id check proper =>
    have hnone : check.language? = none := LoadCheck.language?_of_unloaded proper
    exact hnone ▸ at?_of_insertCheck (by rfl) (by rfl) r
  | dropCheck id => exact at?_of_eraseCheck (by rfl) (by rfl) r

theorem Asks.at?_of_error {e : LoadError} (h : Asks s act source name target)
    (he : (source.load s.nextLoad name).value = .error e) (r : Place) :
    (s.perform act).at? r = s.at? r := by
  obtain ⟨keepAs, heq, -⟩ | ⟨id, check, heq, -, hc, hu, rfl⟩ := h.eq_load_or_runCheck
  · rw [heq, perform_load_of_error he]
    exact at?_congr rfl rfl r
  · rw [heq, perform_runCheck hc, LoadCheck.run_of_load_error hu he]
    refine (at?_of_insertCheck (s := s) (by rfl) (by rfl) r).trans ?_
    split
    · next hr => exact hr ▸ (at?_check_of_unloaded hc hu).symm
    · rfl

theorem at?_runCheck_of_terminal {check : LoadCheck} (hc : s.checks.get? id = some check)
    (ht : check.state.isTerminal) (r : Place) :
    (s.perform (.runCheck id source)).at? r = s.at? r := by
  rw [perform_runCheck hc, LoadCheck.run_of_terminal ht]
  refine (at?_of_insertCheck (s := s) (by rfl) (by rfl) r).trans ?_
  split
  · next hr => rw [hr, Session.at?, hc, Option.bind_some]
  · rfl

/-! ## All that an act can do -/

/-- The act loads, copies or drops, or all places are as before. -/
inductive Does (s : Session) (act : Act) : Prop where
  | loads {target : Option Place} {tables : Tables} {l : Language} :
      Loads s act target tables l → Does s act
  | copies {p q : Place} {l : Language} : Copies act p q → s.at? p = some l → Does s act
  | drops {p : Place} : Drops act p → Does s act
  | keeps : (∀ p, (s.perform act).at? p = s.at? p) → Does s act

theorem Asks.does (h : Asks s act source name target) : Does s act := by
  cases hload : (source.load s.nextLoad name).value with
  | ok l =>
    obtain ⟨tables, hresolve, -, -, -⟩ := Source.load_eq_ok_iff.mp ⟨l, hload, rfl, rfl⟩
    exact .loads ⟨h, hresolve, hload⟩
  | error e => exact .keeps (h.at?_of_error hload)

theorem does_request (s : Session) (r : Request) (proper : r.Proper) :
    Does s (.request r proper) := by
  cases r with
  | load plan name keepAs =>
    cases hs : s.source? plan with
    | some source => exact (Asks.requestLoad name keepAs proper hs).does
    | none => exact .keeps fun p => by rw [perform_requestLoad_of_none hs]
  | runCheck id plan =>
    cases hs : s.source? plan with
    | none => exact .keeps fun p => by rw [perform_requestRunCheck_of_none hs]
    | some source =>
      cases hc : s.checks.get? id with
      | none =>
        exact .keeps fun p => by rw [perform_requestRunCheck hs, perform_runCheck_of_none hc]
      | some check =>
        rcases check.state.unloaded_or_isTerminal with hu | ht
        · exact (Asks.requestRunCheck proper hs hc hu).does
        · refine .keeps fun p => ?_
          rw [perform_requestRunCheck hs, at?_runCheck_of_terminal hc ht]
  | copyLanguage id newId =>
    cases hl : s.languages.get? id with
    | some l => exact .copies (.copyLanguage id newId proper) hl
    | none => exact .keeps fun p => by simp [perform, handle, tell, pure, hl]
  | dropLanguage id => exact .drops (.dropLanguage id proper)
  | makeCheck id check => exact .drops (.makeCheck id check proper)
  | changeFiles | makeMemory => exact .keeps (at?_congr rfl rfl)
  | addText | resolve | showLanguage | findRule | compareLanguages | showCheck =>
    refine .keeps fun p => at?_congr ?_ ?_ p <;> simp only [perform, handle] <;> split <;> rfl

theorem does (s : Session) (act : Act) : Does s act := by
  cases act with
  | request r proper => exact does_request s r proper
  | load source name keepAs => exact (Asks.load source name keepAs).does
  | runCheck id source =>
    cases hc : s.checks.get? id with
    | none => exact .keeps fun p => by rw [perform_runCheck_of_none hc]
    | some check =>
      rcases check.state.unloaded_or_isTerminal with hu | ht
      · exact (Asks.runCheck source hc hu).does
      · exact .keeps (at?_runCheck_of_terminal hc ht)
  | copyChecked checkId newId =>
    cases hl : s.at? (.check checkId) with
    | some l => exact .copies (.copyChecked checkId newId) hl
    | none => exact .keeps fun p => by simp [perform, hl]
  | dropCheck id => exact .drops (.dropCheck id)

theorem at?_of_not_touches (h : ¬ Touches s act p) : (s.perform act).at? p = s.at? p := by
  cases does s act with
  | @loads target tables l hl =>
    have hne : target ≠ some p := fun ht => h (.loads (ht ▸ hl))
    rw [hl.at?, if_neg hne]
  | @copies q r l hc hq =>
    have hne : p ≠ r := fun hp => h (.copies (hp ▸ hc) hq)
    rw [hc.at? hq, if_neg hne]
  | @drops q hd =>
    have hne : p ≠ q := fun hp => h (.drops (hp ▸ hd))
    rw [hd.at?, if_neg hne]
  | keeps hk => exact hk p

/-- A handle is where it is because the act has put it there or has left it there. -/
theorem at?_perform_cases (h : (s.perform act).at? p = some l) :
    (∃ tables, Loads s act (some p) tables l) ∨ (∃ q, Copies act q p ∧ s.at? q = some l) ∨
      ¬ Touches s act p ∧ s.at? p = some l := by
  by_cases ht : Touches s act p
  · cases ht with
    | loads hl =>
      rw [hl.at?, if_pos rfl] at h
      cases h
      exact .inl ⟨_, hl⟩
    | copies hc hq =>
      rw [hc.at? hq, if_pos rfl] at h
      cases h
      exact .inr (.inl ⟨_, hc, hq⟩)
    | drops hd =>
      rw [hd.at?, if_pos rfl] at h
      cases h
  · exact .inr (.inr ⟨ht, at?_of_not_touches ht ▸ h⟩)

/-! ## Numbers of loads -/

theorem nextLoad_perform_load (s : Session) (source : Source) (name : String)
    (keepAs : Option String) :
    (s.perform (.load source name keepAs)).nextLoad = s.nextLoad + 1 := by
  cases h : (source.load s.nextLoad name).value with
  | ok l => rw [perform_load_of_ok h]
  | error e => rw [perform_load_of_error h]

theorem nextLoad_le_runCheck (s : Session) (id : String) (source : Source) :
    s.nextLoad ≤ (s.perform (.runCheck id source)).nextLoad := by
  cases hc : s.checks.get? id with
  | none => exact Nat.le_of_eq (by rw [perform_runCheck_of_none hc])
  | some check =>
    rw [perform_runCheck hc]
    exact Nat.le_succ _

/-- A number that a load has had does not come again. -/
theorem nextLoad_le_perform (s : Session) (act : Act) :
    s.nextLoad ≤ (s.perform act).nextLoad := by
  cases act with
  | load source name keepAs => exact nextLoad_perform_load s source name keepAs ▸ Nat.le_succ _
  | runCheck id source => exact nextLoad_le_runCheck s id source
  | copyChecked =>
    simp only [perform]
    split <;> exact Nat.le_refl _
  | dropCheck => exact Nat.le_refl _
  | request r proper =>
    cases r with
    | load plan name keepAs =>
      cases hs : s.source? plan with
      | none => exact Nat.le_of_eq (by rw [perform_requestLoad_of_none hs])
      | some source =>
        rw [perform_requestLoad hs, nextLoad_perform_load]
        exact Nat.le_succ _
    | runCheck id plan =>
      cases hs : s.source? plan with
      | none => exact Nat.le_of_eq (by rw [perform_requestRunCheck_of_none hs])
      | some source =>
        rw [perform_requestRunCheck hs]
        exact nextLoad_le_runCheck s id source
    | changeFiles | makeMemory | dropLanguage | makeCheck => exact Nat.le_refl _
    | addText | resolve | copyLanguage | showLanguage | findRule | compareLanguages | showCheck =>
      simp only [perform, handle]
      split <;> exact Nat.le_refl _

/-! ## Acts that cannot disturb a handle -/

/-- The place that an act is to fill or to empty. A run of a check is none: what a decided check
keeps stays. -/
def Act.rebinds : Act → Option Place
  | .request (.load _ _ keepAs) _ | .load _ _ keepAs => keepAs.map .name
  | .request (.copyLanguage _ newId) _ | .copyChecked _ newId => some (.name newId)
  | .request (.dropLanguage id) _ => some (.name id)
  | .request (.makeCheck id _) _ | .dropCheck id => some (.check id)
  | .request .. | .runCheck .. => none

/-- An act that is to do with other places does not touch a handle. -/
theorem not_touches_of_rebinds_ne (hp : s.at? p = some l) (h : act.rebinds ≠ some p) :
    ¬ Touches s act p := by
  intro ht
  cases ht with
  | loads hl =>
    obtain ⟨hask, -, -⟩ := hl
    generalize htarget : some p = target at hask
    cases hask with
    | load | requestLoad => exact h htarget.symm
    | runCheck source hc hu | requestRunCheck proper hs hc hu =>
      cases htarget
      rw [at?_check_of_unloaded hc hu] at hp
      cases hp
  | copies hc => cases hc <;> exact h rfl
  | drops hd => cases hd <;> exact h rfl

end Session

end GrammarTables
