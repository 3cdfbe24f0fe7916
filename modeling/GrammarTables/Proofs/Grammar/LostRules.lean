import GrammarTables.Proofs.Grammar.StartRules
import Mathlib.Data.List.Chain

/-!
# Why rules are lost

A rule is lost if no chain of references leads to it. Whatever refers to a lost rule is lost as well,
and a visible rule that nothing else refers to is a start rule. So whoever follows the references to
a lost rule backwards meets lost rules only, and comes to a hidden rule that nothing else refers to
or, as there are finitely many rules, back to a rule that has been met before.
-/

namespace GrammarTables.Grammar

/-- A rule that cannot be reached. -/
structure IsLost (g : Grammar) (name : String) : Prop where
  isRule : ∃ body, g.rule? name = some body
  unreachable : ¬ g.Reachable name

/-- A hidden rule that no other rule refers to. -/
structure IsStray (g : Grammar) (name : String) : Prop where
  isRule : ∃ body, g.rule? name = some body
  hidden : ∃ rest, name = "_" ++ rest
  unreferenced : ∀ other, g.Links other name → other = name

/-- Different rules that cannot be reached, at least two, each of which refers to the next one and
the last one to the first. -/
structure IsLostCycle (g : Grammar) (names : List String) : Prop where
  distinct : names.Nodup
  several : 2 ≤ names.length
  linked : names.IsChain g.Links
  closed : ∀ first ∈ names.head?, ∀ last ∈ names.getLast?, g.Links last first
  lost : ∀ name ∈ names, g.IsLost name

/-- A chain of references that ends with `name`, through different rules that cannot be reached. -/
structure Trail (g : Grammar) (names : List String) (name : String) : Prop where
  distinct : names.Nodup
  linked : names.IsChain g.Links
  ends : names.getLast? = some name
  lost : ∀ name ∈ names, g.IsLost name

/-- What going backwards comes to in the end: a hidden rule that no other rule refers to, or a rule on
a cycle of lost rules. -/
def IsCause (g : Grammar) (name : String) : Prop :=
  g.IsStray name ∨ ∃ cycle, name ∈ cycle ∧ g.IsLostCycle cycle

variable {g : Grammar} {name first other : String} {back : List String}

theorem IsRoot.reachable (h : g.IsRoot name) : g.Reachable name :=
  ⟨name, .start (mem_startRules.mpr h), .refl⟩

theorem IsLost.of_links (h : g.IsLost name) (hl : g.Links other name) : g.IsLost other where
  isRule := by
    obtain ⟨body, hbody, -⟩ := hl
    exact ⟨body, hbody⟩
  unreachable hr := h.unreachable (hr.tail hl)

/-- A lost rule that no other rule refers to is hidden, as it would be a start rule else. -/
theorem IsLost.isStray_or_exists_links (h : g.IsLost name) :
    g.IsStray name ∨ ∃ other, other ≠ name ∧ g.Links other name := by
  by_cases honly : ∀ other, g.Links other name → other = name
  · refine .inl ⟨h.isRule, ?_, honly⟩
    by_contra hvisible
    have hroot : g.IsRoot name := isRoot_iff.mpr
      ⟨NameMap.mem_names_iff.mpr h.isRule,
        isVisible_iff.mpr fun rest heq => hvisible ⟨rest, heq⟩, honly⟩
    exact h.unreachable hroot.reachable
  · push Not at honly
    obtain ⟨other, hl, hne⟩ := honly
    exact .inr ⟨other, hne, hl⟩

/-! ## Going backwards -/

theorem IsLost.trail (h : g.IsLost name) : g.Trail [name] name where
  distinct := List.pairwise_singleton _ _
  linked := .singleton name
  ends := rfl
  lost := List.forall_mem_singleton.mpr h

theorem Trail.extend (h : g.Trail (first :: back) name) (hl : g.Links other first)
    (hnew : other ∉ first :: back) : g.Trail (other :: first :: back) name where
  distinct := List.nodup_cons.mpr ⟨hnew, h.distinct⟩
  linked := List.isChain_cons_cons.mpr ⟨hl, h.linked⟩
  ends := h.ends
  lost := List.forall_mem_cons.mpr ⟨(h.lost first List.mem_cons_self).of_links hl, h.lost⟩

/-- A trail that comes back to a rule has gone around a cycle. -/
theorem Trail.exists_cycle (h : g.Trail (first :: back) name) (hl : g.Links other first)
    (hne : other ≠ first) (hmem : other ∈ first :: back) :
    ∃ cycle, first ∈ cycle ∧ g.IsLostCycle cycle := by
  obtain ⟨before, after, rfl⟩ := List.append_of_mem ((List.mem_cons.mp hmem).resolve_left hne)
  -- The cycle is the trail up to `other`, which refers to `first` again.
  have hsplit : first :: (before ++ other :: after) = (first :: before ++ [other]) ++ after := by simp
  have hdistinct := h.distinct
  have hlinked := h.linked
  have hlost := h.lost
  rw [hsplit] at hdistinct hlinked hlost
  refine ⟨first :: before ++ [other], List.mem_cons_self, ?_⟩
  refine ⟨(List.nodup_append.mp hdistinct).1, by simp, hlinked.left_of_append, ?_,
    fun n hn => hlost n (List.mem_append_left _ hn)⟩
  rintro _ ⟨⟩ last hlast
  rw [List.getLast?_concat, Option.mem_some_iff] at hlast
  exact hlast ▸ hl

theorem Trail.length_le (h : g.Trail (first :: back) name) :
    (first :: back).length ≤ g.rules.names.length :=
  (List.subperm_of_subset h.distinct fun n hn =>
    NameMap.mem_names_iff.mpr (h.lost n hn).isRule).length_le

/-- Each step back takes a rule that the trail has not met, so that the trail comes to a cause. -/
theorem Trail.exists_cause {first : String} {back : List String}
    (h : g.Trail (first :: back) name) :
    ∃ cause rest, g.Trail (cause :: rest) name ∧ g.IsCause cause := by
  rcases (h.lost first List.mem_cons_self).isStray_or_exists_links with hstray | ⟨other, hne, hl⟩
  · exact ⟨first, back, h, .inl hstray⟩
  · by_cases hmem : other ∈ first :: back
    · exact ⟨first, back, h, .inr (h.exists_cycle hl hne hmem)⟩
    · exact (h.extend hl hmem).exists_cause
-- All rules of a trail are different, so it cannot get longer than the grammar.
termination_by g.rules.names.length - back.length
decreasing_by
  have hlength := h.length_le
  simp only [List.length_cons] at hlength ⊢
  omega

/-! ## What is reported -/

theorem isLost_of_reported {grammar : String}
    (h : .unreachableRule grammar name ∈ g.check.events) : g.IsLost name := by
  obtain ⟨-, -, -, hmem⟩ := unreachableRule_mem_events.mp h
  obtain ⟨hrule, -, hreach⟩ := mem_unreachableRules.mp hmem
  exact ⟨NameMap.mem_names_iff.mp hrule, hreach⟩

/-- Every rule that is reported as unreachable has a cause: a trail leads to it, through rules that
cannot be reached, from a hidden rule that no other rule refers to or from a cycle of such rules. So
no visible rule is reported that no other rule refers to. -/
theorem unreachable_has_cause (g : Grammar) :
    (∀ grammar name, .unreachableRule grammar name ∈ g.check.events →
      ∃ cause back, g.Trail (cause :: back) name ∧ g.IsCause cause) ∧
    ∀ name, g.IsRoot name → ∀ grammar, .unreachableRule grammar name ∉ g.check.events := by
  refine ⟨fun grammar name h => (isLost_of_reported h).trail.exists_cause, ?_⟩
  intro name hroot grammar h
  exact (isLost_of_reported h).unreachable hroot.reachable

/-- A hamlet that only a hidden path leads to, and a village on a road that goes around in a circle. -/
def towns : Grammar where
  name := "towns"
  rules := ⟨[
    ("_path", reference (some "hamlet")),
    ("hamlet", blank),
    ("left", { kind := .choice, members := [reference (some "right"), reference (some "village")] }),
    ("market", blank),
    ("right", reference (some "left")),
    ("village", blank)], by decide⟩

theorem unreachable_has_cause_towns :
    (∃ cause back, towns.Trail (cause :: back) "hamlet" ∧ towns.IsCause cause) ∧
    (∃ cause back, towns.Trail (cause :: back) "village" ∧ towns.IsCause cause) ∧
    .unreachableRule "towns" "market" ∉ towns.check.events := by
  obtain ⟨hcause, hroot⟩ := unreachable_has_cause towns
  have hsound : towns.check.value = none := by decide +kernel
  have reported {name : String} (hrule : name ∈ towns.rules.names) (hne : name ≠ "market") :
      .unreachableRule "towns" name ∈ towns.check.events := by
    have hreach : ¬ towns.Reachable name := fun h => by
      have hmem : name ∈ ["market"] := h.mem_of_closed (by decide) (by decide)
      exact hne (List.mem_singleton.mp hmem)
    exact unreachableRule_mem_events.mpr
      ⟨hsound, by decide, rfl, mem_unreachableRules.mpr ⟨hrule, List.not_mem_nil, hreach⟩⟩
  have hmarket : towns.IsRoot "market" := mem_startRules.mp (by decide)
  exact ⟨hcause _ _ (reported (by decide) (by decide)), hcause _ _ (reported (by decide) (by decide)),
    hroot _ hmarket _⟩

end GrammarTables.Grammar
