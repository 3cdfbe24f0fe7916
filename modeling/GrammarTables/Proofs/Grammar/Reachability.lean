import GrammarTables.Proofs.Grammar.Findings
import GrammarTables.Proofs.NameMap
import GrammarTables.Proofs.Rule.Walk
import GrammarTables.Proofs.Text.ByteOrder
import Mathlib.Logic.Relation

/-!
# Reachability

The search for rules that nothing leads to is a walk in steps: each step takes
one name off the work, and if a rule of that name has not been met, puts what
the rule refers to in its place. The walk ends, and what it has not met then is
just what no chain of references leads to.
-/

namespace GrammarTables.Grammar

/-! ## Chains of references -/

/-- The body of a rule holds a symbol of that name. -/
def Links (g : Grammar) (a b : String) : Prop :=
  ∃ body, g.rule? a = some body ∧ ∃ node ∈ body.nodes, node.symbolName? = some b

/-- Names that chains of references start from. -/
inductive IsEntry (g : Grammar) : String → Prop where
  | start {name : String} : name ∈ g.startRules → IsEntry g name
  | extra {name : String} {body node : Rule} : body ∈ g.extras.getD [] → node ∈ body.nodes →
      node.symbolName? = some name → IsEntry g name
  | word {name : String} : g.word = some name → IsEntry g name

def Reachable (g : Grammar) (name : String) : Prop :=
  ∃ entry, g.IsEntry entry ∧ Relation.ReflTransGen g.Links entry name

theorem links_iff {g : Grammar} {a b : String} :
    g.Links a b ↔ ∃ body, (a, body) ∈ g.rules.entries ∧ b ∈ body.symbols := by
  simp only [Links, rule?, NameMap.get?_eq_some_iff, Rule.mem_symbols]

theorem links_of_mem {g : Grammar} {a b : String} {body : Rule} (h : (a, body) ∈ g.rules.entries) :
    g.Links a b ↔ b ∈ body.symbols := by
  rw [Links, rule?, NameMap.get?_eq_some_iff.mpr h, Rule.mem_symbols]
  simp

theorem Reachable.tail {g : Grammar} {a b : String} (ha : g.Reachable a) (hl : g.Links a b) :
    g.Reachable b := by
  obtain ⟨entry, he, hchain⟩ := ha
  exact ⟨entry, he, hchain.tail hl⟩

theorem mem_entryNames {g : Grammar} {name : String} : name ∈ g.entryNames ↔ g.IsEntry name := by
  simp only [entryNames, List.mem_append, List.mem_flatMap, Rule.mem_symbols, Option.mem_toList]
  constructor
  · rintro ((h | ⟨body, hb, node, hn, hs⟩) | h)
    · exact .start h
    · exact .extra hb hn hs
    · exact .word h
  · rintro (h | ⟨hb, hn, hs⟩ | h)
    · exact .inl (.inl h)
    · exact .inl (.inr ⟨_, hb, _, hn, hs⟩)
    · exact .inr h

/-- Where the names that parsing begins with are, and all that rules there refer to, is everything that
can be reached. -/
theorem Reachable.mem_of_closed {g : Grammar} {name : String} {names : List String}
    (hentries : ∀ entry ∈ g.entryNames, entry ∈ names)
    (hclosed : ∀ rule ∈ g.rules.entries, rule.1 ∈ names → ∀ b ∈ rule.2.symbols, b ∈ names)
    (h : g.Reachable name) : name ∈ names := by
  obtain ⟨entry, he, hchain⟩ := h
  induction hchain with
  | refl => exact hentries entry (mem_entryNames.mpr he)
  | tail _ hl ih =>
    obtain ⟨body, hbody, hb⟩ := links_iff.mp hl
    exact hclosed _ hbody ih _ hb

/-! ## The walk -/

/-- Rules that have not been met, and names that are still to be looked at. -/
structure Walk where
  rest : List (String × Rule)
  work : List String

namespace Walk

def step : Walk → Option Walk
  | ⟨_, []⟩ => none
  | ⟨rest, name :: work⟩ =>
    match rest.find? (·.1 == name) with
    | none => some ⟨rest, work⟩
    | some (_, body) => some ⟨rest.eraseP (·.1 == name), body.symbols ++ work⟩

/-- `n` steps lead from the one to the other. -/
inductive Runs : Nat → Walk → Walk → Prop where
  | refl (w : Walk) : Runs 0 w w
  | step {n : Nat} {u v w : Walk} : u.step = some v → Runs n v w → Runs (n + 1) u w

/-- The names that the walk can still come to look at, one for each step. -/
def size (w : Walk) : Nat := w.work.length + (w.rest.flatMap (·.2.symbols)).length

/-- The names of the rules that have not been met. -/
def unmet (w : Walk) : List String := w.rest.map (·.1)

theorem split_of_find? {rest : List (String × Rule)} {name : String} {e : String × Rule}
    (h : rest.find? (·.1 == name) = some e) :
    ∃ front back, e.1 = name ∧ rest = front ++ e :: back ∧
      rest.eraseP (·.1 == name) = front ++ back := by
  obtain ⟨he, front, back, rfl, hf⟩ := List.find?_eq_some_iff_append.mp h
  refine ⟨front, back, beq_iff_eq.mp he, rfl, ?_⟩
  rw [List.eraseP_append_right _ fun b hb => by simpa using hf b hb]
  exact congrArg (front ++ ·) (List.eraseP_cons_of_pos he)

/-- A step takes a name off the work. Either no rule of that name is left, or that rule is met. -/
theorem step_cases {u v : Walk} (h : u.step = some v) :
    (∃ name, u.work = name :: v.work ∧ name ∉ u.unmet ∧ v.rest = u.rest) ∨
    (∃ name body work front back, u.work = name :: work ∧ u.rest = front ++ (name, body) :: back ∧
      v = ⟨front ++ back, body.symbols ++ work⟩) := by
  obtain ⟨rest, work⟩ := u
  cases work with
  | nil => cases h
  | cons name work =>
    rw [step] at h
    split at h
    · next hf =>
      cases h
      refine .inl ⟨name, rfl, fun hm => ?_, rfl⟩
      obtain ⟨e, he, rfl⟩ := List.mem_map.mp hm
      exact List.find?_eq_none.mp hf e he BEq.rfl
    · next hf =>
      obtain ⟨front, back, rfl, hrest, herase⟩ := split_of_find? hf
      cases h
      exact .inr ⟨_, _, work, front, back, rfl, hrest, by rw [herase]⟩

theorem size_of_step {u v : Walk} (h : u.step = some v) : u.size = v.size + 1 := by
  rcases step_cases h with ⟨name, hw, -, hr⟩ | ⟨name, body, work, front, back, hw, hr, rfl⟩
  · simp only [size, hw, hr, List.length_cons]
    omega
  · simp only [size, hw, hr, List.length_cons, List.length_append, List.flatMap_append,
      List.flatMap_cons]
    omega

theorem unreached_of_step {u v : Walk} (h : u.step = some v) :
    unreached u.rest u.work = unreached v.rest v.work := by
  obtain ⟨rest, work⟩ := u
  cases work with
  | nil => cases h
  | cons name work =>
    rw [step] at h
    rw [unreached]
    split at h <;> cases h <;> split <;> simp_all

/-- The walk ends, after no more steps than there are names to look at. -/
theorem ends (w : Walk) : ∃ n ≤ w.size, Runs n w ⟨unreached w.rest w.work, []⟩ := by
  induction hs : w.size generalizing w with
  | zero =>
    obtain ⟨rest, work⟩ := w
    have hw : work = [] := List.length_eq_zero_iff.mp (Nat.eq_zero_of_add_eq_zero hs).1
    subst hw
    exact ⟨0, Nat.le_refl 0, by rw [unreached]; exact .refl _⟩
  | succ n ih =>
    cases hv : w.step with
    | none =>
      obtain ⟨rest, work⟩ := w
      cases work with
      | nil => exact ⟨0, Nat.zero_le _, by rw [unreached]; exact .refl _⟩
      | cons name work =>
        rw [step] at hv
        split at hv <;> cases hv
    | some v =>
      have hsize := size_of_step hv
      obtain ⟨m, hm, hr⟩ := ih v (by omega)
      exact ⟨m + 1, by omega, .step hv (unreached_of_step hv ▸ hr)⟩

/-! ## What the walk meets -/

variable {g : Grammar} {u v w : Walk}

/-- All that the walk has come across is reachable, and where it has been it has left nothing out:
what starts there or is linked from there is met, no rule, or still to be looked at. -/
structure Sound (g : Grammar) (w : Walk) : Prop where
  sub : w.rest.Sublist g.rules.entries
  work : ∀ name ∈ w.work, g.Reachable name
  met : ∀ name ∈ g.rules.names, name ∉ w.unmet → g.Reachable name
  entries : ∀ name, g.IsEntry name → name ∈ w.work ∨ name ∉ w.unmet
  links : ∀ a b, g.Links a b → a ∉ w.unmet → b ∈ w.work ∨ b ∉ w.unmet

theorem Sound.nodup_unmet (h : Sound g w) : w.unmet.Nodup :=
  g.rules.nodup_names.sublist (h.sub.map _)

theorem not_mem_unmet_append {name b : String} {body : Rule} {front back : List (String × Rule)}
    {work : List String} (hn : u.unmet.Nodup) (hr : u.rest = front ++ (name, body) :: back) :
    b ∉ unmet ⟨front ++ back, work⟩ ↔ b = name ∨ b ∉ u.unmet := by
  rw [unmet, hr, List.map_append, List.map_cons] at hn
  have hfront : name ∉ front.map (·.1) ++ back.map (·.1) := by
    exact (List.nodup_cons.mp (List.perm_middle.nodup_iff.mp hn)).1
  rw [unmet, unmet, hr, List.map_append, List.map_append, List.map_cons]
  simp only [List.mem_append, List.mem_cons] at hfront ⊢
  by_cases hb : b = name
  · subst hb
    tauto
  · tauto

theorem sound_start (g : Grammar) : Sound g ⟨g.rules.entries, g.entryNames⟩ where
  sub := .refl _
  work name h := ⟨name, mem_entryNames.mp h, .refl⟩
  met name h hn := absurd h hn
  entries name h := .inl (mem_entryNames.mpr h)
  links a b h hn := by
    obtain ⟨body, hb, -⟩ := links_iff.mp h
    exact absurd (List.mem_map_of_mem hb) hn

/-- Where no rule of a name is left, leaving the name out of the work loses nothing. -/
theorem Sound.drop {name : String} (h : Sound g u) (hw : u.work = name :: v.work)
    (hn : name ∉ u.unmet) (hr : v.rest = u.rest) : Sound g v := by
  have hu : v.unmet = u.unmet := by rw [unmet, hr, unmet]
  have keep : ∀ b, b ∈ u.work ∨ b ∉ u.unmet → b ∈ v.work ∨ b ∉ v.unmet := by
    rw [hw, hu]
    rintro b (hb | hb)
    · rcases List.mem_cons.mp hb with rfl | hb
      · exact .inr hn
      · exact .inl hb
    · exact .inr hb
  refine ⟨hr ▸ h.sub, fun b hb => ?_, hu ▸ h.met, fun b hb => keep b (h.entries b hb), ?_⟩
  · exact h.work b (hw ▸ List.mem_cons_of_mem name hb)
  · intro a b hl ha
    exact keep b (h.links a b hl (hu ▸ ha))

/-- Where a rule is met, what it is linked to takes the place of its name. -/
theorem Sound.meet {name : String} {body : Rule} {work : List String}
    {front back : List (String × Rule)} (h : Sound g u) (hw : u.work = name :: work)
    (hr : u.rest = front ++ (name, body) :: back) :
    Sound g ⟨front ++ back, body.symbols ++ work⟩ := by
  have hmem : (name, body) ∈ g.rules.entries :=
    h.sub.subset (hr ▸ List.mem_append_right front List.mem_cons_self)
  have hname : g.Reachable name := h.work name (hw ▸ List.mem_cons_self)
  have hunmet : ∀ b, b ∉ unmet ⟨front ++ back, body.symbols ++ work⟩ ↔ b = name ∨ b ∉ u.unmet :=
    fun b => not_mem_unmet_append h.nodup_unmet hr
  have keep : ∀ b, b ∈ u.work ∨ b ∉ u.unmet → b ∈ body.symbols ++ work ∨
      b ∉ unmet ⟨front ++ back, body.symbols ++ work⟩ := by
    intro b hb
    rw [hunmet, List.mem_append]
    rw [hw, List.mem_cons] at hb
    tauto
  have hsub : (front ++ back).Sublist u.rest :=
    hr ▸ (List.sublist_cons_self (name, body) back).append_left front
  refine ⟨hsub.trans h.sub, ?_, ?_, fun b hb => keep b (h.entries b hb), ?_⟩
  · intro b hb
    rcases List.mem_append.mp hb with hb | hb
    · exact hname.tail ((links_of_mem hmem).mpr hb)
    · exact h.work b (hw ▸ List.mem_cons_of_mem name hb)
  · intro b hb hn
    rcases (hunmet b).mp hn with rfl | hn
    · exact hname
    · exact h.met b hb hn
  · intro a b hl ha
    rcases (hunmet a).mp ha with rfl | ha
    · exact .inl (List.mem_append_left work ((links_of_mem hmem).mp hl))
    · exact keep b (h.links a b hl ha)

theorem Sound.step (h : Sound g u) (hs : u.step = some v) : Sound g v := by
  rcases step_cases hs with ⟨name, hw, hn, hr⟩ | ⟨name, body, work, front, back, hw, hr, rfl⟩
  · exact h.drop hw hn hr
  · exact h.meet hw hr

theorem Sound.run {n : Nat} (h : Sound g u) (hr : Runs n u v) : Sound g v := by
  induction hr with
  | refl => exact h
  | step hs _ ih => exact ih (h.step hs)

/-- What a walk that has ended has not met is just what is not reachable. -/
theorem Sound.mem_unmet_iff (h : Sound g w) (hw : w.work = []) (name : String) :
    name ∈ w.unmet ↔ name ∈ g.rules.names ∧ ¬ g.Reachable name := by
  have left : ∀ b, b ∈ w.work ∨ b ∉ w.unmet → b ∉ w.unmet := fun b hb =>
    hb.resolve_left (hw ▸ List.not_mem_nil)
  have chain : ∀ a b, a ∉ w.unmet → Relation.ReflTransGen g.Links a b → b ∉ w.unmet := by
    intro a b ha hab
    induction hab with
    | refl => exact ha
    | tail _ hl ih => exact left _ (h.links _ _ hl ih)
  constructor
  · intro hu
    refine ⟨(h.sub.map _).subset hu, ?_⟩
    rintro ⟨entry, he, hchain⟩
    exact chain entry name (left entry (h.entries entry he)) hchain hu
  · rintro ⟨hn, hr⟩
    by_contra hu
    exact hr (h.met name hn hu)

end Walk

/-! ## What is reported -/

theorem mem_unreachableRules {g : Grammar} {name : String} :
    name ∈ g.unreachableRules ↔
      name ∈ g.rules.names ∧ name ∉ g.inline.getD [] ∧ ¬ g.Reachable name := by
  obtain ⟨n, -, hr⟩ := Walk.ends ⟨g.rules.entries, g.entryNames⟩
  have hu := ((Walk.sound_start g).run hr).mem_unmet_iff rfl name
  rw [Walk.unmet] at hu
  rw [unreachableRules, List.mem_filter, hu, isInlined, Bool.not_eq_true', ← Bool.not_eq_true,
    List.contains_iff_mem]
  tauto

theorem nodup_unreachableRules (g : Grammar) : g.unreachableRules.Nodup := by
  obtain ⟨n, -, hr⟩ := Walk.ends ⟨g.rules.entries, g.entryNames⟩
  exact ((Walk.sound_start g).run hr).nodup_unmet.filter _

theorem ascending_startRules (g : Grammar) :
    g.startRules.Pairwise fun a b => Text.utf8 a < Text.utf8 b :=
  (g.rules.ascends_names.imp Text.utf8_lt).filter _

/-- The findings that are warnings. -/
theorem findings_warnings (g : Grammar) :
    g.findings.filter (·.level = .warn) = g.reachabilityFindings := by
  have hwarn : ∀ e ∈ g.reachabilityFindings, decide (e.level = .warn) = true := fun e he =>
    decide_eq_true (level_of_mem_reachabilityFindings he)
  rw [findings, List.append_assoc, List.filter_append, List.filter_eq_self.mpr hwarn,
    List.filter_eq_nil_iff.mpr, List.append_nil]
  simp only [List.forall_mem_append, List.forall_mem_map]
  exact ⟨fun _ _ => by simp [Event.level], fun _ _ => by simp [Event.level]⟩

/-- The walk ends, and the warnings of a check say just what is not reachable. -/
theorem check_warnings (g : Grammar) :
    (∃ n ≤ (Walk.mk g.rules.entries g.entryNames).size,
      Walk.Runs n ⟨g.rules.entries, g.entryNames⟩ ⟨unreached g.rules.entries g.entryNames, []⟩) ∧
    (g.check.value = none →
      (g.startRules.Pairwise fun a b => Text.utf8 a < Text.utf8 b) ∧
      ∃ lost : List String, lost.Nodup ∧
        (∀ name, name ∈ lost ↔
          name ∈ g.rules.names ∧ name ∉ g.inline.getD [] ∧ ¬ g.Reachable name) ∧
        g.check.events.filter (·.level = .warn) =
          if g.startRules = [] then [.noEntryPoint g.name]
          else
            (if 2 ≤ g.startRules.length then [.ambiguousEntryPoint g.name g.startRules] else []) ++
              lost.map (.unreachableRule g.name)) := by
  refine ⟨Walk.ends _, fun h => ⟨g.ascending_startRules, g.unreachableRules,
    g.nodup_unreachableRules, fun _ => mem_unreachableRules, ?_⟩⟩
  rw [← reachabilityFindings_eq, ← findings_warnings, events_of_sound h]

/-- A grammar with a hidden rule that nothing refers to. -/
def withGap : Grammar where
  name := "words"
  rules := ⟨[("_gap", { kind := .blank }), ("text", { kind := .symbol, name := some "word" }),
    ("word", { kind := .blank })], by decide⟩

theorem check_warnings_withGap :
    withGap.check.value = none ∧ ∃ lost : List String,
      (∀ name, name ∈ lost ↔ name ∈ ["_gap", "text", "word"] ∧ ¬ withGap.Reachable name) ∧
      withGap.check.events.filter (·.level = .warn) = lost.map (.unreachableRule "words") := by
  obtain ⟨-, lost, -, hlost, he⟩ := (check_warnings withGap).2 (by decide)
  have hroots : withGap.startRules = ["text"] := by decide
  rw [hroots] at he
  refine ⟨by decide, lost, fun name => (hlost name).trans ?_, he⟩
  show name ∈ ["_gap", "text", "word"] ∧ name ∉ [] ∧ ¬ withGap.Reachable name ↔ _
  simp

end GrammarTables.Grammar
