import GrammarTables.Proofs.Session.Acts

/-!
# Handles share what they come from

A history is the list of acts so far, the latest first. Each act has a number, the first one 0. A
handle that stands at a place descends from one load of the history, through copies. Two handles
share their tables just if they descend from the same load, and a handle is the same until its
place is filled or emptied.

The numbers that loads have in a session are not those of the acts: the session counts attempts.
What carries the proof is that each handle that a load has ever given has a number below the next
one, so that the next load cannot give a handle which shares with an older one.
-/

namespace GrammarTables.Session

/-- The session after the acts of a history. -/
def after : List Act → Session
  | [] => {}
  | act :: acts => (after acts).perform act

/-- Act number `n` is a load that gives the handle `l` from `tables`. -/
inductive Gave : List Act → Nat → Tables → Language → Prop where
  | now {acts : List Act} {act : Act} {target : Option Place} {tables : Tables} {l : Language} :
      Loads (after acts) act target tables l → Gave (act :: acts) acts.length tables l
  | before {acts : List Act} {n : Nat} {tables : Tables} {l : Language} (act : Act) :
      Gave acts n tables l → Gave (act :: acts) n tables l

/-- What stands at the place comes from act number `n`, a load: it was put there by the load, or
is a copy of what came from the load, and nobody has touched it since. -/
inductive Descends : List Act → Place → Nat → Prop where
  | load {acts : List Act} {act : Act} {p : Place} {tables : Tables} {l : Language} :
      Loads (after acts) act (some p) tables l → Descends (act :: acts) p acts.length
  | copy {acts : List Act} {act : Act} {p q : Place} {n : Nat} :
      Copies act p q → Descends acts p n → Descends (act :: acts) q n
  | keep {acts : List Act} {act : Act} {p : Place} {n : Nat} :
      ¬ Touches (after acts) act p → Descends acts p n → Descends (act :: acts) p n

variable {acts : List Act} {n k : Nat} {tables tables' : Tables} {l m : Language} {p q : Place}

/-! ## Loads of a history -/

theorem Gave.lt_length (h : Gave acts n tables l) : n < acts.length := by
  induction h with
  | now => exact Nat.lt_succ_self _
  | before act _ ih => exact Nat.lt_succ_of_lt ih

/-- A load has given a number below the next one. -/
theorem Gave.load_lt (h : Gave acts n tables l) : l.load < (after acts).nextLoad := by
  induction h with
  | now hl =>
    rw [after, hl.nextLoad, hl.load_eq]
    exact Nat.lt_succ_self _
  | before act _ ih => exact Nat.lt_of_lt_of_le ih (nextLoad_le_perform _ act)

theorem Gave.grammar (h : Gave acts n tables l) : tables.grammar = .ok l.grammar := by
  induction h with
  | now hl => exact hl.grammar
  | before _ _ ih => exact ih

/-- Handles that loads of one history have given have the same number just if they are from the
same act. -/
theorem Gave.load_eq_iff (hl : Gave acts n tables l) (hm : Gave acts k tables' m) :
    l.load = m.load ↔ n = k := by
  induction acts with
  | nil => cases hl
  | cons act acts ih =>
    cases hl with
    | now hl =>
      cases hm with
      | now hm => exact iff_of_true (hl.load_eq.trans hm.load_eq.symm) rfl
      | before _ hm =>
        have hload := hl.load_eq ▸ hm.load_lt
        exact iff_of_false (Nat.ne_of_gt hload) (Nat.ne_of_gt hm.lt_length)
    | before _ hl =>
      cases hm with
      | now hm =>
        have hload := hm.load_eq ▸ hl.load_lt
        exact iff_of_false (Nat.ne_of_lt hload) (Nat.ne_of_lt hl.lt_length)
      | before _ hm => exact ih hl hm

theorem Gave.unique (hl : Gave acts n tables l) (hm : Gave acts n tables' m) : l = m := by
  induction acts with
  | nil => cases hl
  | cons act acts ih =>
    cases hl with
    | now hl =>
      cases hm with
      | now hm => exact (hl.unique hm).2
      | before _ hm => exact absurd hm.lt_length (Nat.lt_irrefl _)
    | before _ hl =>
      cases hm with
      | now hm => exact absurd hl.lt_length (Nat.lt_irrefl _)
      | before _ hm => exact ih hl hm

theorem shares_iff : l.shares m = true ↔ l.load = m.load := beq_iff_eq

theorem Gave.shares_iff_eq (hl : Gave acts n tables l) (hm : Gave acts k tables' m) :
    l.shares m = true ↔ n = k := shares_iff.trans (hl.load_eq_iff hm)

/-! ## Handles at places -/

/-- What descends from a load is the handle that the load gave. -/
theorem Descends.gave (h : Descends acts p n) :
    ∃ tables l, Gave acts n tables l ∧ (after acts).at? p = some l := by
  induction h with
  | load hl =>
    refine ⟨_, _, .now hl, ?_⟩
    rw [after, hl.at?, if_pos rfl]
  | copy hc _ ih =>
    obtain ⟨tables, l, hgave, hat⟩ := ih
    refine ⟨tables, l, .before _ hgave, ?_⟩
    rw [after, hc.at? hat, if_pos rfl]
  | keep ht _ ih =>
    obtain ⟨tables, l, hgave, hat⟩ := ih
    refine ⟨tables, l, .before _ hgave, ?_⟩
    rw [after, at?_of_not_touches ht, hat]

/-- Whatever stands at a place descends from a load. -/
theorem exists_descends (h : (after acts).at? p = some l) :
    ∃ n tables, Descends acts p n ∧ Gave acts n tables l := by
  induction acts generalizing p with
  | nil => cases p <;> cases h
  | cons act acts ih =>
    rcases at?_perform_cases h with ⟨tables, hl⟩ | ⟨q, hc, hq⟩ | ⟨ht, hp⟩
    · exact ⟨acts.length, tables, .load hl, .now hl⟩
    · obtain ⟨n, tables, hd, hgave⟩ := ih hq
      exact ⟨n, tables, .copy hc hd, .before act hgave⟩
    · obtain ⟨n, tables, hd, hgave⟩ := ih hp
      exact ⟨n, tables, .keep ht hd, .before act hgave⟩

/-- The load that a handle descends from gave just this handle. -/
theorem Descends.gave_at (h : Descends acts p n) (hp : (after acts).at? p = some l) :
    ∃ tables, Gave acts n tables l := by
  obtain ⟨tables, l', hgave, hp'⟩ := h.gave
  cases hp.symm.trans hp'
  exact ⟨tables, hgave⟩

theorem Descends.keep_of_rebinds_ne {act : Act} (h : Descends acts p n)
    (hne : act.rebinds ≠ some p) : Descends (act :: acts) p n := by
  obtain ⟨_, _, _, hat⟩ := h.gave
  exact .keep (not_touches_of_rebinds_ne hat hne) h

theorem shares_iff_exists_descends (hp : (after acts).at? p = some l)
    (hq : (after acts).at? q = some m) :
    l.shares m = true ↔ ∃ n, Descends acts p n ∧ Descends acts q n := by
  constructor
  · intro hs
    obtain ⟨n, tables, hn, hl⟩ := exists_descends hp
    obtain ⟨k, tables', hk, hm⟩ := exists_descends hq
    cases (hl.shares_iff_eq hm).mp hs
    exact ⟨n, hn, hk⟩
  · rintro ⟨n, hn, hk⟩
    obtain ⟨tables, hl⟩ := hn.gave_at hp
    obtain ⟨tables', hm⟩ := hk.gave_at hq
    exact (hl.shares_iff_eq hm).mpr rfl

/-- Acts that are to do with other places leave a handle where it is. -/
theorem at?_after_append (hp : (after acts).at? p = some l) (later : List Act)
    (h : ∀ act ∈ later, act.rebinds ≠ some p) : (after (later ++ acts)).at? p = some l := by
  induction later with
  | nil => exact hp
  | cons act later ih =>
    obtain ⟨hact, hlater⟩ := List.forall_mem_cons.mp h
    have hat := ih hlater
    exact (at?_of_not_touches (not_touches_of_rebinds_ne hat hact)).trans hat

/-- Handles follow loads. What stands at a place is the handle of the load that it descends from.
Two handles share their tables just if they descend from the same load. Handles of different loads
never share them, but if the loads found the same tables then the grammars are equal. And a handle
stays as it is, whatever else is done, until its own place is filled or emptied. -/
theorem handles_follow_loads (acts : List Act) :
    (∀ p l, (after acts).at? p = some l ↔
      ∃ n tables, Descends acts p n ∧ Gave acts n tables l) ∧
    (∀ p q l m, (after acts).at? p = some l → (after acts).at? q = some m →
      (l.shares m = true ↔ ∃ n, Descends acts p n ∧ Descends acts q n)) ∧
    (∀ n k tables tables' l m, Gave acts n tables l → Gave acts k tables' m →
      (l.shares m = true ↔ n = k) ∧
      (tables.grammar = tables'.grammar → l.grammar = m.grammar)) ∧
    ∀ p l later, (after acts).at? p = some l → (∀ act ∈ later, act.rebinds ≠ some p) →
      (after (later ++ acts)).at? p = some l := by
  refine ⟨fun p l => ⟨exists_descends, ?_⟩, fun p q l m hp hq => shares_iff_exists_descends hp hq,
    fun n k tables tables' l m hl hm => ⟨hl.shares_iff_eq hm, fun htables => ?_⟩,
    fun p l later hp => at?_after_append hp later⟩
  · rintro ⟨n, tables, hd, hl⟩
    obtain ⟨tables', l', hl', hat⟩ := hd.gave
    rw [hat, hl.unique hl']
  · exact Except.ok.inj (hl.grammar.symm.trans (htables.trans hm.grammar))

/-! A check is run, and what it gives is kept as b; then the same tables are loaded again, as c.
Running the check once more, from a source that does not have the grammar, changes nothing. -/

def letters : Grammar := { name := "letters", rules := .ofList [("text", { kind := .blank })] }

def lettersPlan : SourcePlan := .compiled [("letters", letters)]

def checkedAndLoaded : List Act :=
  [.request (.load lettersPlan "letters" (some "c")) trivial, .copyChecked "k" "b",
    .request (.runCheck "k" lettersPlan) trivial,
    .request (.makeCheck "k" { label := "Letters", grammar := "letters" }) rfl]

def runAgain : List Act :=
  [.request (.runCheck "k" .embedded) trivial, .request (.dropLanguage "c") trivial,
    .request (.changeFiles []) trivial]

theorem handles_follow_loads_letters :
    ∃ l m, (after checkedAndLoaded).at? (.check "k") = some l ∧
      (after checkedAndLoaded).at? (.name "b") = some l ∧
      (after checkedAndLoaded).at? (.name "c") = some m ∧
      l.shares m = false ∧ l.grammar = m.grammar ∧
      (after (runAgain ++ checkedAndLoaded)).at? (.check "k") = some l := by
  have hresolve : ((Source.compiled [("letters", letters)]).resolve "letters").value =
      .ok (.built "compiled:letters" letters) := rfl
  have hload (n : Nat) :
      ∃ l, ((Source.compiled [("letters", letters)]).load n "letters").value = .ok l := by
    obtain ⟨l, hl, -, -⟩ := Source.load_of_acceptable hresolve (.built _ letters)
      ⟨fun _ hs => (nomatch hs), rfl, by decide⟩ n
    exact ⟨l, hl⟩
  obtain ⟨hplaces, -, hloads, hstays⟩ := handles_follow_loads checkedAndLoaded
  obtain ⟨l, hl⟩ := hload 0
  obtain ⟨m, hm⟩ := hload (after checkedAndLoaded.tail).nextLoad
  -- What the acts do, from the first one on.
  have hrun : Loads (after checkedAndLoaded.tail.tail.tail)
      (.request (.runCheck "k" lettersPlan) trivial) (some (.check "k")) _ l :=
    ⟨.requestRunCheck trivial rfl rfl rfl, hresolve, hl⟩
  have hagain : Loads (after checkedAndLoaded.tail)
      (.request (.load lettersPlan "letters" (some "c")) trivial) (some (.name "c")) _ m :=
    ⟨.requestLoad "letters" (some "c") trivial rfl, hresolve, hm⟩
  have hgl : Gave checkedAndLoaded 1 _ l := .before _ (.before _ (.now hrun))
  have hgm : Gave checkedAndLoaded 3 _ m := .now hagain
  -- Where the two handles stand.
  have hdk : Descends checkedAndLoaded (.check "k") 1 :=
    ((Descends.load hrun).keep_of_rebinds_ne (by decide)).keep_of_rebinds_ne (by decide)
  have hdb : Descends checkedAndLoaded (.name "b") 1 :=
    (Descends.copy (.copyChecked "k" "b") (.load hrun)).keep_of_rebinds_ne (by decide)
  have hk : (after checkedAndLoaded).at? (.check "k") = some l := (hplaces _ _).mpr ⟨1, _, hdk, hgl⟩
  have hb : (after checkedAndLoaded).at? (.name "b") = some l := (hplaces _ _).mpr ⟨1, _, hdb, hgl⟩
  have hc : (after checkedAndLoaded).at? (.name "c") = some m :=
    (hplaces _ _).mpr ⟨3, _, .load hagain, hgm⟩
  obtain ⟨hnot, hequal⟩ := hloads 1 3 _ _ l m hgl hgm
  exact ⟨l, m, hk, hb, hc, Bool.eq_false_iff.mpr (hnot.not.mpr (by decide)), hequal rfl,
    hstays _ _ runAgain hk (by decide)⟩

end GrammarTables.Session
