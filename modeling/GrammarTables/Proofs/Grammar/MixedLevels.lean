import GrammarTables.Proofs.Ascending
import GrammarTables.Proofs.Grammar.Closed
import GrammarTables.Proofs.Grammar.Findings
import GrammarTables.Proofs.Grammar.Listing

/-!
# Mixed levels of precedence

A rule mixes levels if precedences of different levels occur in its body. A check reports just these
rules, each once and with all of its levels in ascending order. To find them it makes no difference
whether each rule is looked at for itself, or whether the levels of all rules are gathered in one map
first and put in order afterwards.
-/

namespace GrammarTables

/-- A precedence of that level occurs in the body. A level given as a text does not count, nor does
a number anywhere else. -/
def Rule.HasLevel (body : Rule) (n : Int32) : Prop :=
  ∃ node : Rule, node.Occurs body ∧
    node.kind ∈ [Kind.prec, .precLeft, .precRight, .precDynamic] ∧ node.value = some (.level n)

/-- Precedences of different levels occur in the body. -/
def Rule.Mixes (body : Rule) : Prop := ∃ m n, m ≠ n ∧ body.HasLevel m ∧ body.HasLevel n

/-- The levels that the body has, in ascending order. -/
structure Rule.LevelsAre (body : Rule) (levels : List Int32) : Prop where
  ascend : levels.Pairwise fun m n => m.toInt < n.toInt
  mem_iff : ∀ n, n ∈ levels ↔ body.HasLevel n

theorem Rule.mem_levels {body : Rule} {n : Int32} : n ∈ body.levels ↔ body.HasLevel n := by
  have hlevel (node : Rule) : node.precedence? = some n ↔
      node.kind ∈ [Kind.prec, .precLeft, .precRight, .precDynamic] ∧
        node.value = some (.level n) := by
    obtain ⟨kind, value, -⟩ := node
    unfold precedence?
    cases kind <;> simp [Kind.isPrecedence] <;> grind
  simp only [levels, List.mem_filterMap, mem_nodes_iff, hlevel, HasLevel]

theorem Rule.levelsAre_ofList (body : Rule) : body.LevelsAre (Ascending.ofList body.levels) where
  ascend := (Ascending.pairwise_ofList body.levels).imp Int32.lt_iff_toInt_lt.mp
  mem_iff _ := Ascending.mem_ofList.trans mem_levels

theorem Rule.one_lt_length_iff_mixes {body : Rule} :
    1 < (Ascending.ofList body.levels).length ↔ body.Mixes := by
  simp only [Ascending.one_lt_length_iff (Ascending.pairwise_ofList body.levels),
    Ascending.mem_ofList, mem_levels, Mixes]

namespace Grammar

variable {g : Grammar} {name : String} {levels : List Int32}

theorem mem_mixedRules : (name, levels) ∈ g.mixedRules ↔
    ∃ body, g.rule? name = some body ∧ body.Mixes ∧ levels = Ascending.ofList body.levels := by
  simp only [mixedRules, List.mem_filter, List.mem_map, rule?, NameMap.get?_eq_some_iff,
    decide_eq_true_eq]
  constructor
  · rintro ⟨⟨⟨name, body⟩, hmem, heq⟩, hlength⟩
    cases heq
    exact ⟨body, hmem, Rule.one_lt_length_iff_mixes.mp hlength, rfl⟩
  · rintro ⟨body, hmem, hmixes, rfl⟩
    exact ⟨⟨(name, body), hmem, rfl⟩, Rule.one_lt_length_iff_mixes.mpr hmixes⟩

theorem ascends_mixedRules (g : Grammar) : Ascends g.mixedRules :=
  List.Pairwise.filter _ (List.pairwise_map.mpr g.rules.ascends)

/-- The findings about levels. -/
theorem findings_mixedLevels (g : Grammar) :
    g.findings.filter (·.message = "rule mixes precedence levels") =
      g.mixedRules.map fun (name, levels) => .mixedLevels g.name name levels := by
  simpa using g.filter_message_findings (· = "rule mixes precedence levels")

end Grammar

/-! ## Gathering the levels of all rules -/

/-- Puts a level behind those that the map has for the name. -/
def pushLevel (name : String) (levels : NameMap (List Int32)) (n : Int32) : NameMap (List Int32) :=
  levels.insert name ((levels.get? name).getD [] ++ [n])

namespace Listing

/-- The levels by rule, each as often as it occurs, gathered in one walk over all rules. -/
def gatheredLevels (l : Listing) : NameMap (List Int32) :=
  l.defs.foldl (fun levels (name, body) => body.levels.foldl (pushLevel name) levels) .empty

/-- The rules with several levels, once the levels have been sorted and repetitions left out. -/
def gatheredRules (l : Listing) : List (String × List Int32) :=
  (l.gatheredLevels.entries.map fun (name, levels) =>
    (name, (levels.mergeSort (· ≤ ·)).destutter (· ≠ ·))).filter fun (_, levels) =>
      1 < levels.length

variable {name other : String} {m : NameMap (List Int32)} {levels : List Int32}
  {defs : List (String × Rule)}

/-- A rule's levels are put under its own name only. -/
theorem get?_pushLevels :
    (levels.foldl (pushLevel name) m).get? other =
      if other = name ∧ levels ≠ [] then some ((m.get? name).getD [] ++ levels)
      else m.get? other := by
  induction levels generalizing m with
  | nil => simp
  | cons n levels ih =>
    rw [List.foldl_cons, ih, pushLevel, NameMap.get?_insert, NameMap.get?_insert]
    grind

/-- If the map has nothing yet for the names of the definitions, gathering puts just their own levels
there, and nothing where a body has no levels. -/
theorem get?_gather (hd : (defs.map (·.1)).Nodup) (hm : ∀ d ∈ defs, m.get? d.1 = none) :
    (defs.foldl (fun m (name, body) => body.levels.foldl (pushLevel name) m) m).get? name =
        some levels ↔
      m.get? name = some levels ∨
        levels ≠ [] ∧ ∃ body, (name, body) ∈ defs ∧ body.levels = levels := by
  induction defs generalizing m with
  | nil => simp
  | cons d defs ih =>
    obtain ⟨first, body⟩ := d
    obtain ⟨hfresh, hdefs⟩ := List.nodup_cons.mp hd
    obtain ⟨hfirst, hrest⟩ := List.forall_mem_cons.mp hm
    -- Names are distinct, so what comes behind has nothing yet after the first definition either.
    have hstep (e) (he : e ∈ defs) : (body.levels.foldl (pushLevel first) m).get? e.1 = none := by
      have hne : e.1 ≠ first := fun heq => hfresh (List.mem_map.mpr ⟨e, he, heq⟩)
      rw [get?_pushLevels, if_neg fun h => hne h.1, hrest e he]
    rw [List.foldl_cons, ih hdefs hstep, get?_pushLevels]
    by_cases hname : name = first
    · subst hname
      have hnot (b : Rule) : (name, b) ∉ defs := fun hb => hfresh (List.mem_map.mpr ⟨_, hb, rfl⟩)
      have hiff : body.levels = levels → (body.levels ≠ [] ↔ levels ≠ []) := fun heq => heq ▸ Iff.rfl
      simpa [hfirst, hnot] using hiff
    · simp [hname]

theorem mem_gatheredLevels (l : Listing) : (name, levels) ∈ l.gatheredLevels.entries ↔
    levels ≠ [] ∧ ∃ body, (name, body) ∈ l.defs ∧ body.levels = levels := by
  rw [← NameMap.get?_eq_some_iff, gatheredLevels, get?_gather l.distinct fun _ _ => rfl]
  exact or_iff_right nofun

theorem mem_gatheredRules (l : Listing) : (name, levels) ∈ l.gatheredRules ↔
    ∃ body, (name, body) ∈ l.defs ∧ body.Mixes ∧ levels = Ascending.ofList body.levels := by
  simp only [gatheredRules, List.mem_filter, List.mem_map, decide_eq_true_eq,
    ← Ascending.ofList_eq_destutter_mergeSort]
  constructor
  · rintro ⟨⟨⟨name, gathered⟩, hmem, heq⟩, hlength⟩
    cases heq
    obtain ⟨-, body, hbody, rfl⟩ := l.mem_gatheredLevels.mp hmem
    exact ⟨body, hbody, Rule.one_lt_length_iff_mixes.mp hlength, rfl⟩
  · rintro ⟨body, hbody, hmixes, rfl⟩
    have hne : body.levels ≠ [] := by
      obtain ⟨n, -, -, hn, -⟩ := hmixes
      exact List.ne_nil_of_mem (Rule.mem_levels.mpr hn)
    exact ⟨⟨(name, body.levels), l.mem_gatheredLevels.mpr ⟨hne, body, hbody, rfl⟩, rfl⟩,
      Rule.one_lt_length_iff_mixes.mpr hmixes⟩

theorem gatheredRules_eq (l : Listing) : l.gatheredRules = l.grammar.mixedRules := by
  have hascends : Ascends l.gatheredRules :=
    List.Pairwise.filter _ (List.pairwise_map.mpr l.gatheredLevels.ascends)
  refine NameMap.eq_of_mem hascends l.grammar.ascends_mixedRules ?_
  rintro ⟨name, levels⟩
  simp only [mem_gatheredRules, Grammar.mem_mixedRules, Grammar.rule?, NameMap.get?_eq_some_iff,
    l.entries_perm.mem_iff]

end Listing

namespace Grammar

/-- A check of a sound grammar reports just the rules that mix levels, each once and with all of its
levels in ascending order. Gathering the levels of all rules, in whatever order, finds the same. -/
theorem check_mixedLevels (g : Grammar) (h : g.check.value = none) :
    ∃ found : List (String × List Int32),
      g.check.events.filter (·.message = "rule mixes precedence levels") =
        found.map (fun (name, levels) => .mixedLevels g.name name levels) ∧
      (found.map (·.1)).Nodup ∧
      (∀ name, name ∈ found.map (·.1) ↔ ∃ body, g.rule? name = some body ∧ body.Mixes) ∧
      (∀ name levels, (name, levels) ∈ found →
        ∃ body, g.rule? name = some body ∧ body.LevelsAre levels) ∧
      ∀ l : Listing, l.grammar = g → l.gatheredRules = found := by
  refine ⟨g.mixedRules, ?_, ?_, fun name => ?_, fun name levels hmem => ?_, ?_⟩
  · rw [events_of_sound h, findings_mixedLevels]
  · exact (List.pairwise_map.mpr g.ascends_mixedRules).imp String.ne_of_lt
  · simp only [List.mem_map, Prod.exists, mem_mixedRules]
    grind
  · obtain ⟨body, hbody, -, rfl⟩ := mem_mixedRules.mp hmem
    exact ⟨body, hbody, body.levelsAre_ofList⟩
  · rintro l rfl
    exact l.gatheredRules_eq

/-- A precedence of a level around some content. -/
def ranked (kind : Rule.Kind) (n : Int32) (content : Rule) : Rule :=
  { kind, value := some (.level n), content := some content }

/-- A rule with the levels -1 and 3, the latter twice, one with the level 2 only and a number that is
none, and one whose level is a text. -/
def ranks : Grammar where
  name := "ranks"
  rules := ⟨[
    ("mixed", ranked .precLeft 3
      { kind := .seq, members := [ranked .precDynamic (-1) blank, ranked .prec 3 blank] }),
    ("single", ranked .precRight 2 { blank with value := some (.level 7) }),
    ("worded", { kind := .prec, value := some (.text "high"), content := some (ranked .prec 1 blank) })],
    by decide⟩

def ranksReversed : Listing where
  rest := ranks
  defs := ranks.rules.entries.reverse
  distinct := by decide

theorem check_mixedLevels_ranks :
    ranks.check.value = none ∧
      ranks.check.events.filter (·.message = "rule mixes precedence levels") =
        [.mixedLevels "ranks" "mixed" [-1, 3]] ∧
      (∃ body, ranks.rule? "mixed" = some body ∧ body.LevelsAre [-1, 3]) ∧
      ¬ ∃ body, ranks.rule? "worded" = some body ∧ body.Mixes := by
  have hsound : ranks.check.value = none := by decide +kernel
  obtain ⟨found, hevents, -, hnames, hlevels, hgathered⟩ := check_mixedLevels ranks hsound
  have hfound : found = [("mixed", [-1, 3])] := by
    rw [← hgathered ranksReversed (by decide), ranksReversed.gatheredRules_eq]
    decide
  subst hfound
  exact ⟨hsound, hevents, hlevels "mixed" _ List.mem_cons_self, mt (hnames "worded").mpr (by decide)⟩

end Grammar

end GrammarTables
