import GrammarTables.Grammar.Builder
import GrammarTables.Proofs.NameMap
import Mathlib.Data.List.Basic
import Mathlib.Data.List.Infix

/-!
# Building by sections

Each step acts on one section of the grammar, and what a section of the finished grammar holds is
told by the steps that act on it alone: the last definition of each rule, the last word, and in all
other sections what their steps add, in order. White space becomes an extra only when the grammar is
finished, so a builder that goes on after its grammar was looked at does not know of it.
-/

namespace GrammarTables.Grammar

open Builder (Step append whiteSpace)

/-! ## Steps by sections -/

/-- The sections that steps act on. -/
inductive Builder.Target where
  | rules
  | externals
  | extras
  | word
  | inline
  | conflicts
  | supertypes
  deriving DecidableEq

namespace Builder.Step

/-- The section that the step acts on. -/
def target : Step → Target
  | rule .. => .rules
  | external _ => .externals
  | extra _ => .extras
  | word _ => .word
  | inline _ => .inline
  | conflict _ => .conflicts
  | supertype _ => .supertypes

/-- The body that the step defines the rule of this name to have. -/
def body? (name : String) : Step → Option Rule
  | rule n body => if n = name then some body else none
  | _ => none

def external? : Step → Option String
  | external name => some name
  | _ => none

def extra? : Step → Option Rule
  | extra body => some body
  | _ => none

def word? : Step → Option String
  | word name => some name
  | _ => none

def inline? : Step → Option String
  | inline name => some name
  | _ => none

def conflict? : Step → Option (List String)
  | conflict names => some names
  | _ => none

def supertype? : Step → Option String
  | supertype name => some name
  | _ => none

/-- The steps act on different sections, or define different rules. -/
inductive Independent : Step → Step → Prop where
  | sections {a b : Step} : a.target ≠ b.target → Independent a b
  | rules {m n : String} {r s : Rule} : m ≠ n → Independent (rule m r) (rule n s)

end Builder.Step

variable {α : Type}

/-- Of the steps that define the rule, the last one gives it this body. -/
def LastDefines (steps : List Step) (name : String) (body : Rule) : Prop :=
  ∃ front back, steps = front ++ .rule name body :: back ∧ ∀ other, .rule name other ∉ back

/-- A section that is unset if there is nothing in it. -/
def unlessEmpty (items : List α) : Option (List α) := if items = [] then none else some items

/-- The extras that the steps name, or white space if they name none. -/
def extrasOf (steps : List Step) : List Rule :=
  if steps.filterMap Step.extra? = [] then [.pattern "\\s"] else steps.filterMap Step.extra?

/-- The grammar of this name holds in each section what the steps say of that section. -/
structure MadeBy (name : String) (steps : List Step) (g : Grammar) : Prop where
  schema : g.schema = some schemaAddress
  name : g.name = name
  inherits : g.inherits = none
  rules : ∀ rule body, g.rules.get? rule = some body ↔ LastDefines steps rule body
  extras : g.extras = some (extrasOf steps)
  externals : g.externals = unlessEmpty ((steps.filterMap Step.external?).map .symbol)
  inline : g.inline = unlessEmpty (steps.filterMap Step.inline?)
  precedences : g.precedences = none
  conflicts : g.conflicts = unlessEmpty (steps.filterMap Step.conflict?)
  reserved : g.reserved = none
  word : g.word = (steps.filterMap Step.word?).getLast?
  supertypes : g.supertypes = unlessEmpty (steps.filterMap Step.supertype?)

/-- The steps say the same of each section. -/
structure SameSections (xs ys : List Step) : Prop where
  rules : ∀ name body, LastDefines xs name body ↔ LastDefines ys name body
  externals : xs.filterMap Step.external? = ys.filterMap Step.external?
  extras : extrasOf xs = extrasOf ys
  word : (xs.filterMap Step.word?).getLast? = (ys.filterMap Step.word?).getLast?
  inline : xs.filterMap Step.inline? = ys.filterMap Step.inline?
  conflicts : xs.filterMap Step.conflict? = ys.filterMap Step.conflict?
  supertypes : xs.filterMap Step.supertype? = ys.filterMap Step.supertype?

/-! ## Sections after steps -/

namespace Builder

variable {steps : List Step}

theorem applyAll_cons (b : Builder) (s : Step) (steps : List Step) :
    b.applyAll (s :: steps) = (b.apply s).applyAll steps := rfl

/-- What no step touches is left alone. -/
theorem view_applyAll_of_untouched (view : Grammar → α)
    (h : ∀ b s, view (apply b s).grammar = view b.grammar) (b : Builder) (steps : List Step) :
    view (b.applyAll steps).grammar = view b.grammar := by
  induction steps generalizing b with
  | nil => rfl
  | cons s steps ih => rw [applyAll_cons, ih, h]

/-- A section that each of its steps adds one thing to. -/
theorem view_applyAll_of_append (view : Grammar → Option (List α)) (item? : Step → Option α)
    (h : ∀ b s, view (apply b s).grammar =
      (item? s).elim (view b.grammar) (append (view b.grammar)))
    (b : Builder) (steps : List Step) :
    view (b.applyAll steps).grammar = (steps.filterMap item?).foldl append (view b.grammar) := by
  induction steps generalizing b with
  | nil => rfl
  | cons s steps ih =>
    rw [applyAll_cons, ih, h, List.filterMap_cons]
    cases item? s <;> rfl

/-- A section in which each of its steps takes the place of what was there. -/
theorem view_applyAll_of_overwrite (view : Grammar → Option α) (value? : Step → Option α)
    (h : ∀ b s, view (apply b s).grammar = (value? s).or (view b.grammar))
    (b : Builder) (steps : List Step) :
    view (b.applyAll steps).grammar = (steps.filterMap value?).getLast?.or (view b.grammar) := by
  induction steps generalizing b with
  | nil => rfl
  | cons s steps ih =>
    rw [applyAll_cons, ih, h, List.filterMap_cons]
    cases value? s with
    | none => rfl
    | some a =>
      rw [List.getLast?_cons]
      cases (steps.filterMap value?).getLast? <;> rfl

theorem foldl_append_some (items new : List α) :
    new.foldl append (some items) = some (items ++ new) := by
  induction new generalizing items with
  | nil => rw [List.append_nil]; rfl
  | cons a new ih =>
    rw [List.foldl_cons, append, Option.getD_some, ih, List.append_assoc, List.singleton_append]

theorem foldl_append_none (items : List α) : items.foldl append none = unlessEmpty items := by
  cases items with
  | nil => rfl
  | cons a items => exact foldl_append_some [a] items

theorem view_start_of_append (view : Grammar → Option (List α)) (item? : Step → Option α)
    (h : ∀ b s, view (apply b s).grammar =
      (item? s).elim (view b.grammar) (append (view b.grammar)))
    (name : String) (h0 : view (start name).grammar = none) (steps : List Step) :
    view ((start name).applyAll steps).grammar = unlessEmpty (steps.filterMap item?) := by
  rw [view_applyAll_of_append view item? h, h0, foldl_append_none]

theorem get?_apply (b : Builder) (s : Step) (name : String) :
    (b.apply s).grammar.rules.get? name = (s.body? name).or (b.grammar.rules.get? name) := by
  cases s with
  | rule n body =>
    show (b.grammar.rules.insert n body).get? name = _
    rw [NameMap.get?_insert, Step.body?]
    by_cases h : name = n
    · rw [if_pos h, if_pos h.symm, Option.some_or]
    · rw [if_neg h, if_neg (Ne.symm h), Option.none_or]
  | external | extra | word | inline | conflict | supertype => rfl

theorem body?_eq_some_iff {name : String} {body : Rule} {s : Step} :
    s.body? name = some body ↔ s = .rule name body := by
  cases s with
  | rule n r => simp [Step.body?]
  | external | extra | word | inline | conflict | supertype => simp [Step.body?]

/-- The last of the steps that define the rule is the last one with a body for it. -/
theorem lastDefines_iff {name : String} {body : Rule} :
    LastDefines steps name body ↔ (steps.filterMap (Step.body? name)).getLast? = some body := by
  have isOther {s : Step} : s.body? name = none ↔ ∀ other, s ≠ .rule name other := by
    simp only [Option.eq_none_iff_forall_ne_some, ne_eq, body?_eq_some_iff]
  rw [List.getLast?_filterMap, List.findSome?_eq_some_iff]
  constructor
  · rintro ⟨front, back, rfl, hback⟩
    refine ⟨back.reverse, .rule name body, front.reverse, by simp, body?_eq_some_iff.mpr rfl, ?_⟩
    intro s hs
    refine isOther.mpr fun other heq => hback other ?_
    exact heq ▸ List.mem_reverse.mp hs
  · rintro ⟨back, s, front, hsteps, hs, hback⟩
    rw [body?_eq_some_iff] at hs
    subst hs
    refine ⟨front.reverse, back.reverse, ?_, fun other hmem => ?_⟩
    · rw [← List.reverse_reverse steps, hsteps]
      simp
    · exact isOther.mp (hback _ (List.mem_reverse.mp hmem)) other rfl

/-! ## Order of steps -/

/-- Steps on different sections write different parts of the grammar. -/
theorem apply_comm {x y : Step} (h : x.Independent y) (b : Builder) :
    (b.apply x).apply y = (b.apply y).apply x := by
  cases h with
  | sections h => cases x <;> cases y <;> simp [Step.target] at h <;> rfl
  | rules h =>
    show Builder.mk { b.grammar with rules := (b.grammar.rules.insert _ _).insert _ _ } = _
    rw [NameMap.insert_comm h]
    rfl

theorem applyAll_swap {x y : Step} (h : x.Independent y) (b : Builder) (front back : List Step) :
    b.applyAll (front ++ x :: y :: back) = b.applyAll (front ++ y :: x :: back) := by
  simp only [applyAll, List.foldl_append, List.foldl_cons, apply_comm h]

/-- Finishing the grammar after each step, and going on, shows what the steps up to there make. -/
theorem stages_eq (b : Builder) (steps : List Step) :
    b.stages steps = steps.inits.map fun front => (b.applyAll front).build := by
  induction steps generalizing b with
  | nil => rfl
  | cons s steps ih =>
    rw [stages, ih, List.inits_cons, List.map_cons, List.map_map]
    rfl

end Builder

/-! ## Finished grammars -/

theorem getD_unlessEmpty (items default : List α) :
    (unlessEmpty items).getD default = if items = [] then default else items := by
  unfold unlessEmpty
  split <;> rfl

theorem unlessEmpty_inj {as bs : List α} : unlessEmpty as = unlessEmpty bs ↔ as = bs := by
  unfold unlessEmpty
  split <;> split <;> simp_all [eq_comm]

theorem symbols_inj {xs ys : List String} : xs.map Rule.symbol = ys.map Rule.symbol ↔ xs = ys :=
  (List.map_injective_iff.mpr fun _ _ h => Option.some.inj (congrArg Rule.name h)).eq_iff

open Builder in
theorem madeBy_ofSteps (name : String) (steps : List Step) :
    MadeBy name steps (ofSteps name steps) where
  schema := view_applyAll_of_untouched (·.schema) (fun _ s => by cases s <;> rfl) (start name) steps
  name := view_applyAll_of_untouched (·.name) (fun _ s => by cases s <;> rfl) (start name) steps
  inherits :=
    view_applyAll_of_untouched (·.inherits) (fun _ s => by cases s <;> rfl) (start name) steps
  rules rule body := by
    have h := view_applyAll_of_overwrite (·.rules.get? rule) (Step.body? rule)
      (fun b s => get?_apply b s rule) (start name) steps
    show ((start name).applyAll steps).grammar.rules.get? rule = _ ↔ _
    rw [h, lastDefines_iff]
    show Option.or _ none = _ ↔ _
    rw [Option.or_none]
  extras := by
    have h := view_start_of_append (·.extras) Step.extra? (fun _ s => by cases s <;> rfl) name rfl steps
    show some (((start name).applyAll steps).grammar.extras.getD [whiteSpace]) = _
    rw [h, getD_unlessEmpty]
    rfl
  externals := by
    rw [List.map_filterMap]
    exact view_start_of_append (·.externals) (fun s => s.external?.map .symbol)
      (fun _ s => by cases s <;> rfl) name rfl steps
  inline :=
    view_start_of_append (·.inline) Step.inline? (fun _ s => by cases s <;> rfl) name rfl steps
  precedences :=
    view_applyAll_of_untouched (·.precedences) (fun _ s => by cases s <;> rfl) (start name) steps
  conflicts :=
    view_start_of_append (·.conflicts) Step.conflict? (fun _ s => by cases s <;> rfl) name rfl steps
  reserved :=
    view_applyAll_of_untouched (·.reserved) (fun _ s => by cases s <;> rfl) (start name) steps
  word := by
    have h := view_applyAll_of_overwrite (·.word) Step.word? (fun _ s => by cases s <;> rfl)
      (start name) steps
    exact h.trans (Option.or_none ..)
  supertypes :=
    view_start_of_append (·.supertypes) Step.supertype? (fun _ s => by cases s <;> rfl) name rfl steps

/-- Steps make the same grammar just if they say the same of each section. -/
theorem MadeBy.eq_iff {name : String} {xs ys : List Step} {g h : Grammar} (hg : MadeBy name xs g)
    (hh : MadeBy name ys h) : g = h ↔ SameSections xs ys := by
  constructor
  · rintro rfl
    exact {
      rules := fun rule body => (hg.rules rule body).symm.trans (hh.rules rule body)
      externals := symbols_inj.mp (unlessEmpty_inj.mp (hg.externals.symm.trans hh.externals))
      extras := Option.some.inj (hg.extras.symm.trans hh.extras)
      word := hg.word.symm.trans hh.word
      inline := unlessEmpty_inj.mp (hg.inline.symm.trans hh.inline)
      conflicts := unlessEmpty_inj.mp (hg.conflicts.symm.trans hh.conflicts)
      supertypes := unlessEmpty_inj.mp (hg.supertypes.symm.trans hh.supertypes) }
  · intro same
    have hrules : g.rules = h.rules := NameMap.ext_mem fun e => by
      rw [← NameMap.get?_eq_some_iff, hg.rules, same.rules, ← hh.rules, NameMap.get?_eq_some_iff]
    obtain ⟨s, n, i, rs, ex, et, il, ps, cs, res, w, st⟩ := g
    obtain ⟨s', n', i', rs', ex', et', il', ps', cs', res', w', st'⟩ := h
    obtain ⟨rfl, rfl, rfl, -, rfl, rfl, rfl, rfl, rfl, rfl, rfl, rfl⟩ := hg
    obtain ⟨rfl, rfl, rfl, -, rfl, rfl, rfl, rfl, rfl, rfl, rfl, rfl⟩ := hh
    obtain rfl : rs = rs' := hrules
    simp only [same.externals, same.extras, same.word, same.inline, same.conflicts, same.supertypes]

/-- What steps make is told section by section, for any steps in any order. Independent steps may
change places, and a builder goes on the same after its grammar was finished. -/
theorem ofSteps_by_section (name : String) :
    (∀ steps, MadeBy name steps (ofSteps name steps)) ∧
    (∀ xs ys, ofSteps name xs = ofSteps name ys ↔ SameSections xs ys) ∧
    (∀ front back : List Step, ∀ x y : Step, x.Independent y →
      ofSteps name (front ++ x :: y :: back) = ofSteps name (front ++ y :: x :: back)) ∧
    ∀ steps, (Builder.start name).stages steps = steps.inits.map (ofSteps name) := by
  refine ⟨madeBy_ofSteps name, fun xs ys => ?_, fun front back x y h => ?_, fun steps => ?_⟩
  · exact (madeBy_ofSteps name xs).eq_iff (madeBy_ofSteps name ys)
  · exact congrArg Builder.build (Builder.applyAll_swap h _ front back)
  · exact Builder.stages_eq (.start name) steps

/-- Lists of words that end with a token of the scanner. -/
def listSteps : List Step :=
  [.rule "list" (.repeat0 (.symbol "word")), .rule "word" (.pattern "[a-z]+"), .external "_end"]

theorem ofSteps_by_section_lists :
    (ofSteps "lists" listSteps).extras = some [.pattern "\\s"] ∧
      Step.Independent (.external "_end") (.word "word") ∧
      ofSteps "lists" (listSteps ++ [.word "word"]) =
        ofSteps "lists" (listSteps.take 2 ++ [.word "word", .external "_end"]) := by
  obtain ⟨hmade, -, hswap, -⟩ := ofSteps_by_section "lists"
  have h : Step.Independent (.external "_end") (.word "word") := .sections (by decide)
  exact ⟨(hmade listSteps).extras, h, hswap (listSteps.take 2) [] _ _ h⟩

end GrammarTables.Grammar
