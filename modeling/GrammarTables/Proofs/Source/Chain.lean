import GrammarTables.Source

/-!
# Chains of sources

Sources are chained by falling back from one chain on another, and the links may nest in any way.
How they nest does not show. The first source that finds something, or fails for another reason
than that there is nothing, answers for the whole chain, and no source behind it is asked. If no
source finds anything, the last one's error stands, with all the places that were searched.
-/

namespace GrammarTables

namespace Source

variable {s t : Source} {name : String}

/-- Whether a source has nothing for a name, and no other excuse. -/
def misses (s : Source) (name : String) : Bool :=
  match (s.resolve name).value with
  | .ok _ => false
  | .error e => e.isNotFound

/-- The places that a source has searched for a name in vain. -/
def searched (s : Source) (name : String) : List String :=
  match (s.resolve name).value with
  | .ok _ => []
  | .error e => e.searched

/-- What a source reports when it is asked for a name. -/
def reports (s : Source) (name : String) : List Event := (s.resolve name).events

/-- A source that misses says where it has searched. -/
theorem value_of_misses (h : s.misses name) :
    ∃ grammar, (s.resolve name).value = .error ⟨grammar, .notFound (s.searched name)⟩ := by
  unfold misses at h
  unfold searched
  split at h
  · cases h
  · next e he =>
    obtain ⟨grammar, cause⟩ := e
    unfold LoadError.isNotFound at h
    split at h
    · next hc =>
      cases hc
      exact ⟨grammar, by rw [he]; rfl⟩
    · cases h

theorem misses_of_value {grammar : String} {places : List String}
    (h : (s.resolve name).value = .error ⟨grammar, .notFound places⟩) :
    s.misses name ∧ s.searched name = places := by
  unfold misses searched
  rw [h]
  exact ⟨rfl, rfl⟩

/-- Places that were searched earlier show in no answer but that of a source that misses. -/
theorem mapError_searchedAfter (h : ¬ s.misses name) (earlier : List String) :
    (s.resolve name).value.mapError (·.searchedAfter earlier) = (s.resolve name).value := by
  unfold misses at h
  split at h
  · next hs => rw [hs]; rfl
  · next e hs =>
    rw [hs]
    show Except.error (e.searchedAfter earlier) = Except.error e
    unfold LoadError.searchedAfter
    unfold LoadError.isNotFound at h
    split at h
    · exact absurd rfl h
    · rfl

theorem resolve_orElse_of_not_misses (h : ¬ s.misses name) :
    (s.orElse t).resolve name = s.resolve name := by
  unfold misses at h
  obtain ⟨resolve⟩ := s
  show (resolve name >>= _) = resolve name
  cases hr : resolve name with
  | mk value events =>
    cases value with
    | ok tables => simp [bind, pure]
    | error e =>
      have he : e.isNotFound = false := by simpa [hr] using h
      simp [bind, pure, he]

theorem resolve_orElse_of_misses (h : s.misses name) :
    (s.orElse t).resolve name =
      ⟨(t.resolve name).value.mapError (·.searchedAfter (s.searched name)),
        s.reports name ++ t.reports name⟩ := by
  obtain ⟨grammar, hs⟩ := value_of_misses h
  unfold reports
  generalize s.searched name = places at hs ⊢
  obtain ⟨resolve⟩ := s
  show (resolve name >>= _) = ⟨_, (resolve name).events ++ _⟩
  change (resolve name).value = _ at hs
  simp [bind, pure, hs, LoadError.isNotFound, LoadError.searched]

end Source

/-- Sources put together by falling back from one chain on another. -/
inductive Chain where
  | single (source : Source)
  | orElse (first second : Chain)

namespace Chain

open Source (resolve_orElse_of_misses resolve_orElse_of_not_misses)

/-- A chain as a source. -/
def source : Chain → Source
  | single s => s
  | orElse c d => c.source.orElse d.source

/-- The sources in a chain, from left to right. -/
def leaves : Chain → List Source
  | single s => [s]
  | orElse c d => c.leaves ++ d.leaves

variable {c d : Chain} {s : Source} {front back : List Source} {name : String}

/-- If all leaves miss, the error is that of the last one, with the places of all. -/
theorem resolve_of_all_miss (h : ∀ p ∈ c.leaves, p.misses name) :
    ∃ last grammar, c.leaves.getLast? = some last ∧
      (last.resolve name).value = .error ⟨grammar, .notFound (last.searched name)⟩ ∧
      c.source.resolve name =
        ⟨.error ⟨grammar, .notFound (c.leaves.flatMap (·.searched name))⟩,
          c.leaves.flatMap (·.reports name)⟩ := by
  induction c with
  | single s =>
    obtain ⟨grammar, hs⟩ := Source.value_of_misses (h s List.mem_cons_self)
    refine ⟨s, grammar, rfl, hs, ?_⟩
    simp only [source, leaves, List.flatMap_singleton, ← hs]
    rfl
  | orElse c d ihc ihd =>
    obtain ⟨_, grammar₁, -, -, hc⟩ := ihc fun p hp => h p (List.mem_append_left _ hp)
    obtain ⟨last, grammar, hlast, hvalue, hd⟩ := ihd fun p hp => h p (List.mem_append_right _ hp)
    obtain ⟨hmiss, hsearched⟩ := Source.misses_of_value (congrArg Logged.value hc)
    refine ⟨last, grammar, ?_, hvalue, ?_⟩
    · rw [leaves, List.getLast?_append, hlast]
      rfl
    · rw [source, resolve_orElse_of_misses hmiss, hsearched, Source.reports, Source.reports, hc, hd,
        leaves, List.flatMap_append, List.flatMap_append]
      rfl

/-- What the first leaf that does not miss answers, the chain answers, and no leaf behind it is
asked. -/
theorem resolve_of_first (h : c.leaves = front ++ s :: back) (hfront : ∀ p ∈ front, p.misses name)
    (hs : ¬ s.misses name) :
    c.source.resolve name =
      ⟨(s.resolve name).value, (front ++ [s]).flatMap (·.reports name)⟩ := by
  induction c generalizing front back with
  | single p =>
    obtain ⟨rfl, hp⟩ | ⟨-, hp⟩ := List.append_eq_singleton_iff.mp h.symm
    · cases hp
      simp [source, Source.reports]
    · cases hp
  | orElse c d ihc ihd =>
    have second : ∀ mid, front = c.leaves ++ mid → d.leaves = mid ++ s :: back →
        (orElse c d).source.resolve name =
          ⟨(s.resolve name).value, (front ++ [s]).flatMap (·.reports name)⟩ := by
      rintro mid rfl hd
      obtain ⟨_, _, -, -, hc⟩ :=
        resolve_of_all_miss (c := c) fun p hp => hfront p (List.mem_append_left mid hp)
      obtain ⟨hmiss, hsearched⟩ := Source.misses_of_value (congrArg Logged.value hc)
      have hd := ihd hd fun p hp => hfront p (List.mem_append_right _ hp)
      rw [source, resolve_orElse_of_misses hmiss, hsearched, Source.reports, Source.reports, hc, hd,
        Source.mapError_searchedAfter hs]
      simp only [List.append_assoc, List.flatMap_append]
    rcases List.append_eq_append_iff.mp h with ⟨mid, hf, hd⟩ | ⟨mid, hc, hmid⟩
    · exact second mid hf hd
    · cases mid with
      | nil => exact second [] (by simpa using hc.symm) hmid.symm
      | cons p mid =>
        cases hmid
        have hc := ihc hc hfront
        have hmiss : ¬ c.source.misses name := by
          unfold Source.misses
          rw [hc]
          exact hs
        rw [source, resolve_orElse_of_not_misses hmiss, hc]

/-- Either all leaves miss, or there is a first one that does not. -/
theorem first_or_all_miss (leaves : List Source) (name : String) :
    (∀ p ∈ leaves, p.misses name) ∨
      ∃ front s back, leaves = front ++ s :: back ∧ (∀ p ∈ front, p.misses name) ∧
        ¬ s.misses name := by
  induction leaves with
  | nil => exact .inl (List.forall_mem_nil _)
  | cons s leaves ih =>
    by_cases hs : s.misses name
    · rcases ih with hall | ⟨front, t, back, rfl, hfront, ht⟩
      · exact .inl (List.forall_mem_cons.mpr ⟨hs, hall⟩)
      · exact .inr ⟨s :: front, t, back, rfl, List.forall_mem_cons.mpr ⟨hs, hfront⟩, ht⟩
    · exact .inr ⟨[], s, leaves, rfl, List.forall_mem_nil _, hs⟩

/-- How the links of a chain nest does not matter. -/
theorem resolve_congr (h : c.leaves = d.leaves) (name : String) :
    c.source.resolve name = d.source.resolve name := by
  rcases first_or_all_miss c.leaves name with hall | ⟨front, s, back, hc, hfront, hs⟩
  · obtain ⟨last, grammar, hlast, hvalue, hc⟩ := resolve_of_all_miss hall
    obtain ⟨last', grammar', hlast', hvalue', hd⟩ := resolve_of_all_miss (h ▸ hall)
    rw [← h, hlast] at hlast'
    cases hlast'
    rw [hvalue] at hvalue'
    cases hvalue'
    rw [hc, hd, h]
  · rw [resolve_of_first hc hfront hs, resolve_of_first (h ▸ hc) hfront hs]

/-- The first leaf that does not miss answers for the chain, as it answers alone, and what is
reported is what the leaves up to it report. If all leaves miss, the error is that of the last one,
but with the places that any of them has searched. Chains of the same leaves answer alike. -/
theorem resolve_source (c : Chain) (name : String) :
    (∀ front s back, c.leaves = front ++ s :: back → (∀ p ∈ front, p.misses name) →
      ¬ s.misses name →
      (c.source.resolve name).value = (s.resolve name).value ∧
        (c.source.resolve name).events = (front ++ [s]).flatMap (·.reports name)) ∧
    ((∀ p ∈ c.leaves, p.misses name) →
      ∃ last grammar, c.leaves.getLast? = some last ∧
        (last.resolve name).value = .error ⟨grammar, .notFound (last.searched name)⟩ ∧
        (c.source.resolve name).value =
          .error ⟨grammar, .notFound (c.leaves.flatMap (·.searched name))⟩ ∧
        (c.source.resolve name).events = c.leaves.flatMap (·.reports name)) ∧
    ∀ d : Chain, d.leaves = c.leaves → d.source.resolve name = c.source.resolve name := by
  refine ⟨?_, ?_, fun d h => resolve_congr h name⟩
  · intro front s back h hfront hs
    rw [resolve_of_first h hfront hs]
    exact ⟨rfl, rfl⟩
  · intro h
    obtain ⟨last, grammar, hlast, hvalue, hc⟩ := resolve_of_all_miss h
    rw [hc]
    exact ⟨last, grammar, hlast, hvalue, rfl, rfl⟩

/-- Nothing in memory, then a source that misses in two places, then the grammars at hand. -/
def threeSources : Chain :=
  .orElse (.orElse (.single (.memory .empty))
    (.single (.failing (some "other") (.notFound ["here", "there"])))) (.single .embedded)

theorem resolve_source_threeSources :
    (threeSources.source.resolve "verse").value = (Source.embedded.resolve "verse").value ∧
    (threeSources.source.resolve "words").value =
      .error ⟨"words", .notFound ["in-memory tables", "here", "there", "embedded grammars"]⟩ ∧
    (Chain.orElse (.single (.memory .empty))
      (.orElse (.single (.failing (some "other") (.notFound ["here", "there"])))
        (.single .embedded))).source.resolve "words" = threeSources.source.resolve "words" := by
  obtain ⟨hfirst, -, -⟩ := resolve_source threeSources "verse"
  obtain ⟨-, hmiss, hnest⟩ := resolve_source threeSources "words"
  have misses (name : String) : ∀ p ∈ [Source.memory .empty,
      .failing (some "other") (.notFound ["here", "there"])], p.misses name := by
    intro p hp
    rcases List.mem_cons.mp hp with rfl | hp
    · rfl
    · rw [List.mem_singleton.mp hp]
      rfl
  obtain ⟨last, grammar, hlast, hvalue, hall, -⟩ := hmiss <|
    List.forall_mem_append.mpr ⟨misses "words", List.forall_mem_singleton.mpr (by decide)⟩
  cases hlast
  cases hvalue
  exact ⟨(hfirst _ .embedded [] rfl (misses "verse") (by decide)).1, hall, hnest _ rfl⟩

end Chain

end GrammarTables
