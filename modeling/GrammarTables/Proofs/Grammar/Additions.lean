import GrammarTables.Proofs.Grammar.StartRules
import GrammarTables.Proofs.Grammar.Violations

/-!
# Additions to a grammar

External tokens, extras and inlined rules only add to what is defined, to where parsing may begin
and to what is exempt from reports. So a sound grammar stays sound when such declarations are added
to it, as long as they name what is there, no more rules become unreachable, and all other findings
stay the same: they look at nothing but the rules.
-/

namespace GrammarTables.Grammar

/-- `more` is `g` with external tokens, extras and inlined rules added, in whatever places. The symbols
in added extras name rules or external tokens, and what is added to be inlined are rules. -/
structure AddsTo (more g : Grammar) : Prop where
  rest : more =
    { g with externals := more.externals, extras := more.extras, inline := more.inline }
  externals : g.externals.getD [] ⊆ more.externals.getD []
  extras : g.extras.getD [] ⊆ more.extras.getD []
  inline : g.inline.getD [] ⊆ more.inline.getD []
  addedExtras : ∀ body ∈ more.extras.getD [], body ∉ g.extras.getD [] →
    ∀ node : Rule, node.Occurs body → ∀ name, node.symbolName? = some name → more.Defined name
  addedInline : ∀ name ∈ more.inline.getD [], name ∉ g.inline.getD [] → name ∈ g.rules.names

variable {g more : Grammar} {name : String}

namespace AddsTo

variable (h : more.AddsTo g)
include h

theorem name_eq : more.name = g.name := by rw [h.rest]

theorem rules_eq : more.rules = g.rules := by rw [h.rest]

theorem word_eq : more.word = g.word := by rw [h.rest]

theorem supertypes_eq : more.supertypes = g.supertypes := by rw [h.rest]

theorem conflicts_eq : more.conflicts = g.conflicts := by rw [h.rest]

/-! ## What only grows -/

theorem externalNames_subset : g.externalNames ⊆ more.externalNames := by
  intro name hname
  obtain ⟨token, htoken, heq⟩ := List.mem_filterMap.mp hname
  exact List.mem_filterMap.mpr ⟨token, h.externals htoken, heq⟩

theorem defined (hd : g.Defined name) : more.Defined name := by
  rw [Defined, h.rules_eq]
  exact hd.imp_right fun hname => h.externalNames_subset hname

theorem undefinedNames_eq_nil {body : Rule} (hbody : g.undefinedNames body = []) :
    more.undefinedNames body = [] := by
  rw [undefinedNames_eq_nil_iff] at hbody ⊢
  exact fun node hnode name hname => h.defined (hbody node hnode name hname)

theorem mem_declarations {declaration : Section × String} (hd : declaration ∈ more.declarations) :
    declaration ∈ g.declarations ∨ declaration.2 ∈ g.rules.names := by
  simp only [declarations, h.word_eq, h.supertypes_eq, h.conflicts_eq, List.mem_append] at hd ⊢
  rcases hd with ((hword | hinline) | hsupertypes) | hconflicts
  · exact .inl (.inl (.inl (.inl hword)))
  · obtain ⟨name, hname, rfl⟩ := List.mem_map.mp hinline
    by_cases hold : name ∈ g.inline.getD []
    · exact .inl (.inl (.inl (.inr (List.mem_map_of_mem hold))))
    · exact .inr (h.addedInline name hname hold)
  · exact .inl (.inl (.inr hsupertypes))
  · exact .inl (.inr hconflicts)

theorem isSound (hg : g.IsSound) : more.IsSound where
  named := h.name_eq ▸ hg.named
  rules := h.rules_eq ▸ hg.rules
  bodies entry hentry := h.undefinedNames_eq_nil (hg.bodies entry (h.rules_eq ▸ hentry))
  extras body hbody := by
    by_cases hold : body ∈ g.extras.getD []
    · exact h.undefinedNames_eq_nil (hg.extras body hold)
    · exact undefinedNames_eq_nil_iff.mpr (h.addedExtras body hbody hold)
  declared declaration hd := by
    rw [h.rules_eq]
    exact (h.mem_declarations hd).elim (hg.declared declaration) id

/-! ## What stays the same -/

theorem links_eq : more.Links = g.Links := by
  funext a b
  rw [Links, Links, rule?, rule?, h.rules_eq]

theorem startRules_eq : more.startRules = g.startRules := by
  simp only [startRules, isReferenced, h.rules_eq]

theorem leftRecursiveRules_eq : more.leftRecursiveRules = g.leftRecursiveRules := by
  rw [leftRecursiveRules, leftRecursiveRules, h.rules_eq]

theorem mixedRules_eq : more.mixedRules = g.mixedRules := by rw [mixedRules, mixedRules, h.rules_eq]

theorem filter_findings_eq : more.findings.filter (·.message ≠ "unreachable rule") =
    g.findings.filter (·.message ≠ "unreachable rule") := by
  rw [filter_message_findings more (· ≠ "unreachable rule"),
    filter_message_findings g (· ≠ "unreachable rule"), h.name_eq, h.startRules_eq,
    h.leftRecursiveRules_eq, h.mixedRules_eq]
  simp

/-! ## Reachability -/

theorem isEntry (he : g.IsEntry name) : more.IsEntry name := by
  cases he with
  | start hstart => exact .start (h.startRules_eq ▸ hstart)
  | extra hbody hnode hname => exact .extra (h.extras hbody) hnode hname
  | word hword => exact .word (h.word_eq.trans hword)

theorem reachable (hr : g.Reachable name) : more.Reachable name := by
  obtain ⟨entry, he, hchain⟩ := hr
  exact ⟨entry, h.isEntry he, h.links_eq ▸ hchain⟩

theorem unreachableRules_subset : more.unreachableRules ⊆ g.unreachableRules := by
  intro name hname
  rw [mem_unreachableRules, h.rules_eq] at hname
  obtain ⟨hrule, hinline, hreach⟩ := hname
  exact mem_unreachableRules.mpr ⟨hrule, mt (h.inline ·) hinline, mt h.reachable hreach⟩

end AddsTo

/-- Additions to a sound grammar leave it sound, make no more rules unreachable, and change nothing
else that is reported. -/
theorem check_of_addsTo (h : more.AddsTo g) (hg : g.check.value = none) :
    more.check.value = none ∧
    (∀ grammar name, .unreachableRule grammar name ∈ more.check.events →
      .unreachableRule grammar name ∈ g.check.events) ∧
    more.check.events.filter (·.message ≠ "unreachable rule") =
      g.check.events.filter (·.message ≠ "unreachable rule") := by
  have hmore : more.check.value = none := isSound_iff.mpr (h.isSound (isSound_iff.mp hg))
  refine ⟨hmore, fun grammar name hname => ?_, ?_⟩
  · obtain ⟨-, hstart, hgrammar, hmem⟩ := unreachableRule_mem_events.mp hname
    rw [h.startRules_eq] at hstart
    rw [h.name_eq] at hgrammar
    exact unreachableRule_mem_events.mpr ⟨hg, hstart, hgrammar, h.unreachableRules_subset hmem⟩
  · rw [events_of_sound hmore, events_of_sound hg, h.filter_findings_eq]

/-- A text of words, with two hidden rules that it does not lead to. -/
def notes : Grammar where
  name := "notes"
  rules := ⟨[
    ("_remark", reference (some "word")),
    ("_spare", blank),
    ("text", { kind := .seq, members := [reference (some "text"), reference (some "word")] }),
    ("word", blank)], by decide⟩

/-- Remarks and line ends may appear anywhere, and words are expanded. -/
def notesWithRemarks : Grammar :=
  { notes with
    externals := some [reference (some "newline")]
    extras := some [reference (some "_remark"), reference (some "newline")]
    inline := some ["word"] }

theorem addsTo_notes : notesWithRemarks.AddsTo notes where
  rest := rfl
  externals := List.nil_subset _
  extras := List.nil_subset _
  inline := List.nil_subset _
  addedExtras body hbody _ := by
    refine undefinedNames_eq_nil_iff.mp ?_
    rcases List.mem_pair.mp hbody with rfl | rfl <;> decide
  addedInline name hname _ := by
    rw [List.mem_singleton.mp hname]
    decide

theorem check_of_addsTo_notes :
    notes.check.value = none ∧ notesWithRemarks.check.value = none ∧
      .unreachableRule "notes" "_remark" ∉ notesWithRemarks.check.events ∧
      .unreachableRule "notes" "_spare" ∈ notes.check.events ∧
      notesWithRemarks.check.events.filter (·.message ≠ "unreachable rule") =
        notes.check.events.filter (·.message ≠ "unreachable rule") := by
  have hsound : notes.check.value = none := by decide +kernel
  obtain ⟨hmore, hlost, hrest⟩ := check_of_addsTo addsTo_notes hsound
  have hremark : notesWithRemarks.Reachable "_remark" :=
    ⟨"_remark", mem_entryNames.mp (by decide), .refl⟩
  have hspare : ¬ notesWithRemarks.Reachable "_spare" := fun h => by
    have hmem : "_spare" ∈ ["_remark", "newline", "text", "word"] :=
      h.mem_of_closed (by decide) (by decide)
    exact absurd hmem (by decide)
  refine ⟨hsound, hmore, fun h => ?_, hlost _ _ ?_, hrest⟩
  · obtain ⟨-, -, -, hmem⟩ := unreachableRule_mem_events.mp h
    exact (mem_unreachableRules.mp hmem).2.2 hremark
  · exact unreachableRule_mem_events.mpr
      ⟨hmore, by decide, rfl, mem_unreachableRules.mpr ⟨by decide, by decide, hspare⟩⟩

end GrammarTables.Grammar
