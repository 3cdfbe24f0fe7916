import GrammarTables.Proofs.Grammar.Closed
import GrammarTables.Proofs.Grammar.Findings
import GrammarTables.Proofs.Rule.Beginning

/-!
# Left recursion

A rule is left-recursive if it can begin with a reference to itself. A check of a sound grammar
reports just those rules in which the walk finds such a reference. So whatever is reported is
left-recursive, and a left-recursive rule is missed only where the walk overlooks the reference:
behind members of a sequence that may be empty, or in a reserved-word context.
-/

namespace GrammarTables.Grammar

variable {g : Grammar}

/-- The findings about left recursion. -/
theorem findings_leftRecursion (g : Grammar) :
    g.findings.filter (·.message = "rule is left-recursive") =
      g.leftRecursiveRules.map (.leftRecursiveRule g.name) := by
  simpa using g.filter_message_findings (· = "rule is left-recursive")

theorem mem_leftRecursiveRules {name : String} :
    name ∈ g.leftRecursiveRules ↔ ∃ body, g.rule? name = some body ∧ body.startsWith name := by
  simp only [leftRecursiveRules, List.mem_map, List.mem_filter, rule?, NameMap.get?_eq_some_iff]
  constructor
  · rintro ⟨⟨name, body⟩, ⟨hmem, hstarts⟩, rfl⟩
    exact ⟨body, hmem, hstarts⟩
  · rintro ⟨body, hmem, hstarts⟩
    exact ⟨(name, body), ⟨hmem, hstarts⟩, rfl⟩

theorem nodup_leftRecursiveRules (g : Grammar) : g.leftRecursiveRules.Nodup :=
  g.rules.nodup_names.sublist (List.filter_sublist.map _)

/-- A sequence that can leave out its first member and go on with a reference. -/
def optionalFirst : Rule where
  kind := .seq
  members := [{ kind := .choice, members := [{ kind := .string, value := some (.text "x") }, blank] },
    reference (some "a")]

/-- A reference in a reserved-word context. -/
def inContext : Rule where
  kind := .reserved
  contextName := some "k"
  content := some (reference (some "a"))

/-- Both kinds of references are overlooked, and the rules are not reported. -/
theorem leftRecursion_overlooked :
    (optionalFirst.BeginsWith "a" ∧ ¬ optionalFirst.startsWith "a" ∧
      (lone optionalFirst).check.value = none ∧
      (lone optionalFirst).check.events.filter (·.message = "rule is left-recursive") = []) ∧
    (inContext.BeginsWith "a" ∧ ¬ inContext.startsWith "a" ∧
      (lone inContext).check.value = none ∧
      (lone inContext).check.events.filter (·.message = "rule is left-recursive") = []) := by
  have reference_begins : (reference (some "a")).BeginsWith "a" := .symbol rfl rfl
  have unreported {body : Rule} (h : (lone body).check.value = none)
      (hs : (lone body).leftRecursiveRules = []) :
      (lone body).check.events.filter (·.message = "rule is left-recursive") = [] := by
    rw [events_of_sound h, findings_leftRecursion, hs]
    rfl
  have hfirst : (lone optionalFirst).check.value = none := by decide +kernel
  have hcontext : (lone inContext).check.value = none := by decide +kernel
  refine ⟨⟨?_, by decide, hfirst, unreported hfirst (by decide)⟩,
    ⟨.content rfl rfl reference_begins, by decide, hcontext, unreported hcontext (by decide)⟩⟩
  have hmembers : optionalFirst.members = [_] ++ reference (some "a") :: [] := rfl
  refine .seq rfl hmembers (List.forall_mem_singleton.mpr ?_) reference_begins
  exact .choice rfl (List.mem_cons_of_mem _ List.mem_cons_self) (.blank rfl)

/-- The walk finds only what a rule can begin with, and finds it unless it comes to a node that
overlooks it. A check of a sound grammar reports, each once, just the rules in which the walk finds
the rule itself: among the rules that overlook no reference to themselves, just those that can begin
with one. -/
theorem check_leftRecursion (g : Grammar) (h : g.check.value = none) :
    (∀ (body : Rule) (target : String), body.BeginsWith target ↔
      body.startsWith target ∨ ∃ node : Rule, node.Leading body ∧ node.Overlooks target) ∧
    ∃ found : List String, found.Nodup ∧
      g.check.events.filter (·.message = "rule is left-recursive") =
        found.map (.leftRecursiveRule g.name) ∧
      (∀ name, name ∈ found ↔ ∃ body, g.rule? name = some body ∧ body.startsWith name) ∧
      ∀ name body, g.rule? name = some body →
        (¬ ∃ node : Rule, node.Leading body ∧ node.Overlooks name) →
        (name ∈ found ↔ body.BeginsWith name) := by
  have hevents : g.check.events.filter (·.message = "rule is left-recursive") =
      g.leftRecursiveRules.map (.leftRecursiveRule g.name) := by
    rw [events_of_sound h, findings_leftRecursion]
  refine ⟨fun body target => Rule.beginsWith_iff, g.leftRecursiveRules, g.nodup_leftRecursiveRules,
    hevents, fun _ => mem_leftRecursiveRules, fun name body hbody hnone => ?_⟩
  have hstarts : name ∈ g.leftRecursiveRules ↔ body.startsWith name := by
    rw [mem_leftRecursiveRules, hbody]
    simp
  rw [hstarts, Rule.beginsWith_iff, or_iff_left hnone]

/-- A sum begins with a sum, or is a name. -/
def sum : Rule where
  kind := .choice
  members := [{ kind := .seq, members := [reference (some "sum"), reference (some "name")] },
    reference (some "name")]

/-- Sums of names, and names, in which the reference behind the optional part is overlooked. -/
def sums : Grammar where
  name := "sums"
  rules := ⟨[("name", optionalFirst), ("sum", sum)], by decide⟩
  externals := some [reference (some "a")]

theorem sum_overlooks_nothing : ¬ ∃ node : Rule, node.Leading sum ∧ node.Overlooks "sum" := by
  rintro ⟨node, hleading, hover⟩
  have of_reference {name : String} (hl : node.Leading (reference (some name))) : False := by
    rw [hl.eq_of_symbol rfl] at hover
    exact Rule.not_overlooks_of_kind (by simp [reference]) (by simp [reference]) hover
  cases hleading with
  | here => exact Rule.not_overlooks_of_kind (by decide) (by decide) hover
  | first hk | content hk => cases hk
  | choice _ hm hl =>
    rcases List.mem_pair.mp hm with rfl | rfl
    · cases hl with
      | here => exact Rule.not_overlooks_of_head? rfl rfl (Rule.not_nullable_of_symbol rfl) hover
      | first _ hm hl =>
        cases hm
        exact of_reference hl
      | choice hk | content hk => cases hk
    · exact of_reference hl

theorem check_leftRecursion_sums :
    sums.check.value = none ∧
      sums.check.events.filter (·.message = "rule is left-recursive") =
        [.leftRecursiveRule "sums" "sum"] ∧
      sum.BeginsWith "sum" := by
  have hsound : sums.check.value = none := by decide +kernel
  obtain ⟨-, found, hnodup, hevents, hfound, hexact⟩ := check_leftRecursion sums hsound
  have hmem : ∀ name, name ∈ found ↔ name = "sum" := by
    intro name
    rw [hfound, ← mem_leftRecursiveRules, show sums.leftRecursiveRules = ["sum"] by decide,
      List.mem_singleton]
  have hlist : found = ["sum"] := by
    have hperm : found.Perm ["sum"] :=
      (List.perm_ext_iff_of_nodup hnodup (List.pairwise_singleton _ _)).mpr (by simpa using hmem)
    exact List.perm_singleton.mp hperm
  have hbegins : sum.BeginsWith "sum" :=
    (hexact "sum" sum (by decide) sum_overlooks_nothing).mp ((hmem "sum").mpr rfl)
  rw [hevents, hlist]
  exact ⟨hsound, rfl, hbegins⟩

end GrammarTables.Grammar
