import GrammarTables.Grammar.Findings

/-!
# Findings by kind

A check of a sound grammar reports its findings, and a check of any other grammar reports nothing.
The findings come in three parts, and each event of a part is of that part's kinds. So what is
reported of one kind can be read off that kind's part.
-/

namespace GrammarTables.Grammar

variable {g : Grammar} {e : Event}

theorem events_of_sound (h : g.check.value = none) : g.check.events = g.findings := by
  unfold check at h ⊢
  cases hd : g.defect? with
  | none => rfl
  | some d => rw [hd] at h; cases h

theorem events_of_unsound (h : g.check.value ≠ none) : g.check.events = [] := by
  unfold check at h ⊢
  cases hd : g.defect? with
  | none => rw [hd] at h; exact absurd rfl h
  | some d => rfl

theorem mem_events : e ∈ g.check.events ↔ g.check.value = none ∧ e ∈ g.findings := by
  by_cases h : g.check.value = none
  · rw [events_of_sound h, and_iff_right h]
  · rw [events_of_unsound h]
    exact ⟨nofun, fun he => absurd he.1 h⟩

/-! ## Parts -/

theorem reachabilityFindings_eq (g : Grammar) :
    g.reachabilityFindings =
      if g.startRules = [] then [.noEntryPoint g.name]
      else (if 2 ≤ g.startRules.length then [.ambiguousEntryPoint g.name g.startRules] else []) ++
        g.unreachableRules.map (.unreachableRule g.name) := by
  unfold reachabilityFindings reachabilityFindings.unreachable
  rcases hr : g.startRules with _ | ⟨a, _ | ⟨b, roots⟩⟩ <;> rfl

/-- What is reported about reachability are warnings, and nothing else is. -/
theorem level_of_mem_reachabilityFindings (he : e ∈ g.reachabilityFindings) : e.level = .warn := by
  unfold reachabilityFindings reachabilityFindings.unreachable at he
  split at he
  · rw [List.mem_singleton.mp he]
    rfl
  · obtain ⟨name, -, rfl⟩ := List.mem_map.mp he
    rfl
  · rcases List.mem_cons.mp he with rfl | he
    · rfl
    · obtain ⟨name, -, rfl⟩ := List.mem_map.mp he
      rfl

theorem mem_findings : e ∈ g.findings ↔ e ∈ g.reachabilityFindings ∨
    (∃ name ∈ g.leftRecursiveRules, .leftRecursiveRule g.name name = e) ∨
    ∃ mixed ∈ g.mixedRules, .mixedLevels g.name mixed.1 mixed.2 = e := by
  rw [findings, List.mem_append, List.mem_append, List.mem_map, List.mem_map, or_assoc]

/-- A rule is reported as unreachable only where parsing can begin somewhere. -/
theorem unreachableRule_mem_events {grammar name : String} :
    .unreachableRule grammar name ∈ g.check.events ↔
      g.check.value = none ∧ g.startRules ≠ [] ∧ grammar = g.name ∧ name ∈ g.unreachableRules := by
  have hother (roots : List String) : .unreachableRule grammar name ∉
      (if 2 ≤ roots.length then [Event.ambiguousEntryPoint g.name roots] else []) := by
    split <;> simp
  rw [mem_events, mem_findings, reachabilityFindings_eq]
  by_cases hr : g.startRules = []
  · simp [hr]
  · have hiff : name ∈ g.unreachableRules ∧ g.name = grammar ↔
        grammar = g.name ∧ name ∈ g.unreachableRules := by rw [and_comm, eq_comm]
    simpa [hr, hother] using fun _ => hiff

/-! ## Filters -/

/-- Events with one message are kept all together or not at all. -/
theorem filter_message_of_forall (q : String → Bool) {events : List Event} {text : String}
    (h : ∀ e ∈ events, e.message = text) :
    events.filter (fun e => q e.message) = if q text then events else [] := by
  split
  · next hq => exact List.filter_eq_self.mpr fun e he => by rw [h e he, hq]
  · next hq => exact List.filter_eq_nil_iff.mpr fun e he => by rwa [h e he]

/-- What is left of the findings if they are picked by their messages. -/
theorem filter_message_findings (g : Grammar) (q : String → Bool) :
    g.findings.filter (fun e => q e.message) =
      (if g.startRules = [] then
        if q "no entry point: every visible rule is referenced" then [.noEntryPoint g.name] else []
      else
        (if 2 ≤ g.startRules.length then
          if q "ambiguous entry point" then [.ambiguousEntryPoint g.name g.startRules] else []
        else []) ++
        if q "unreachable rule" then g.unreachableRules.map (.unreachableRule g.name) else []) ++
      (if q "rule is left-recursive" then g.leftRecursiveRules.map (.leftRecursiveRule g.name)
        else []) ++
      if q "rule mixes precedence levels" then
        g.mixedRules.map fun (name, levels) => .mixedLevels g.name name levels
      else [] := by
  have lost := filter_message_of_forall q (List.forall_mem_map (l := g.unreachableRules)
    (f := Event.unreachableRule g.name).mpr fun _ _ => rfl)
  have recursive := filter_message_of_forall q (List.forall_mem_map (l := g.leftRecursiveRules)
    (f := Event.leftRecursiveRule g.name).mpr fun _ _ => rfl)
  have mixed := filter_message_of_forall q (List.forall_mem_map (l := g.mixedRules)
    (f := fun (name, levels) => Event.mixedLevels g.name name levels).mpr fun _ _ => rfl)
  rw [findings, List.filter_append, List.filter_append, reachabilityFindings_eq, recursive, mixed]
  congr 2
  split
  · exact filter_message_of_forall q (List.forall_mem_singleton.mpr rfl)
  · rw [List.filter_append, lost]
    congr 1
    split
    · exact filter_message_of_forall q (List.forall_mem_singleton.mpr rfl)
    · rfl

end GrammarTables.Grammar
