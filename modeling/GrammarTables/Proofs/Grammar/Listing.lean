import GrammarTables.Proofs.Ascending
import GrammarTables.Proofs.Load.Acceptance
import GrammarTables.Proofs.NameMap
import Mathlib.Data.List.Nodup
import Mathlib.Data.List.Perm.Basic

/-!
# Rules in any order

A grammar may be given by its rules in no particular order, and then each pass walks them in the
order in which they happen to be stored. Each pass hides that order in its own way: it sorts what it
collects, looks names up, or gathers a set. Reports alone may come in another order.
-/

namespace GrammarTables

/-! ## Maps and walks over entries in any order -/

section Entries

variable {α : Type} {es fs : List (String × α)}

theorem NameMap.entries_ofList_perm (hd : (es.map (·.1)).Nodup) : (ofList es).entries.Perm es := by
  have hentries : (ofList es).entries.Nodup := List.Nodup.of_map _ (ofList es).nodup_names
  exact (List.perm_ext_iff_of_nodup hentries (List.Nodup.of_map _ hd)).mpr fun _ => mem_ofList hd

theorem find?_eq_some_iff {name : String} {e : String × α} (hd : (es.map (·.1)).Nodup) :
    es.find? (·.1 == name) = some e ↔ e ∈ es ∧ e.1 = name := by
  constructor
  · intro h
    exact ⟨List.mem_of_find?_eq_some h, by simpa using List.find?_some h⟩
  · rintro ⟨he, rfl⟩
    induction es with
    | nil => cases he
    | cons d ds ih =>
      obtain ⟨hfresh, hds⟩ := List.nodup_cons.mp hd
      rcases List.mem_cons.mp he with rfl | he
      · exact List.find?_cons_of_pos BEq.rfl
      · have hne : d.1 ≠ e.1 := fun h => hfresh (List.mem_map.mpr ⟨e, he, h.symm⟩)
        rw [List.find?_cons_of_neg (by simpa using hne), ih hds he]

theorem find?_perm (hd : (es.map (·.1)).Nodup) (h : es.Perm fs) (name : String) :
    es.find? (·.1 == name) = fs.find? (·.1 == name) := by
  have hf : (fs.map (·.1)).Nodup := (h.map _).nodup_iff.mp hd
  refine Option.ext fun e => ?_
  rw [find?_eq_some_iff hd, find?_eq_some_iff hf, h.mem_iff]

/-- What a walk leaves over does not depend on the order in which it looks for rules. -/
theorem Grammar.unreached_perm {rest rest' : List (String × Rule)} (work : List String)
    (hd : (rest.map (·.1)).Nodup) (h : rest.Perm rest') :
    (unreached rest work).Perm (unreached rest' work) := by
  fun_induction unreached rest work generalizing rest' with
  | case1 rest => simpa [unreached] using h
  | case2 rest name work hfind ih =>
    have hfind' := (find?_perm hd h name).symm.trans hfind
    rw [unreached]
    split
    · exact ih hd h
    · next hsome => rw [hfind'] at hsome; cases hsome
  | case3 rest name work n body hfind ih =>
    have hfind' := (find?_perm hd h name).symm.trans hfind
    rw [unreached]
    split
    · next hnone => rw [hfind'] at hnone; cases hnone
    · next hsome =>
      rw [hfind'] at hsome
      cases hsome
      have honce : rest.Pairwise fun a b => (a.1 == name) = true → (b.1 == name) = true → False := by
        refine (List.pairwise_map.mp hd).imp fun hne ha hb => ?_
        exact hne ((beq_iff_eq.mp ha).trans (beq_iff_eq.mp hb).symm)
      exact ih (hd.sublist (List.eraseP_sublist.map _)) (h.eraseP _ honce)

end Entries

/-! ## Listings -/

/-- A grammar with its rules in some order. -/
structure Listing where
  /-- The other sections. The rules here do not count. -/
  rest : Grammar
  defs : List (String × Rule)
  distinct : (defs.map (·.1)).Nodup

namespace Listing

open Grammar (Defect)

/-- The grammar that is listed. -/
def grammar (l : Listing) : Grammar := { l.rest with rules := .ofList l.defs }

def names (l : Listing) : List String := l.defs.map (·.1)

def body? (l : Listing) (name : String) : Option Rule :=
  (l.defs.find? (·.1 == name)).map (·.2)

def isDefined (l : Listing) (name : String) : Bool :=
  l.names.contains name || l.rest.externalNames.contains name

/-- What rules other than the one of that name refer to. -/
def referenced (l : Listing) : List String :=
  l.defs.flatMap fun (name, body) => body.symbols.filter (· != name)

def startRules (l : Listing) : List String :=
  Ascending.ofList
    (l.names.filter fun name => Grammar.isVisible name && !l.referenced.contains name)

def startRule? (l : Listing) : Option String :=
  match l.startRules with
  | [name] => some name
  | _ => none

def ruleNames (l : Listing) : List String := Ascending.ofList l.names

def fieldNames (l : Listing) : List String :=
  Ascending.ofList (l.defs.flatMap fun e => e.2.fieldNames)

def undefinedReference? (l : Listing) : Option Defect :=
  (l.ruleNames.findSome? fun name => (l.body? name).bind fun body =>
      (body.undefinedSymbol? l.isDefined).map (.undefinedSymbol · name)).or
    ((l.rest.extras.getD []).findSome? fun body =>
      (body.undefinedSymbol? l.isDefined).map (.undefinedSymbol · Grammar.extrasLabel))

def undefinedDeclaration? (l : Listing) : Option Defect :=
  (l.rest.declarations.find? fun (_, name) => !l.names.contains name).map fun (place, name) =>
    .undefinedDeclaration name place

def defect? (l : Listing) : Option Defect :=
  if Text.isWhite l.rest.name then some .noName
  else if l.defs.isEmpty then some .noRules
  else l.undefinedReference?.or l.undefinedDeclaration?

def entryNames (l : Listing) : List String :=
  l.startRules ++ (l.rest.extras.getD []).flatMap Rule.symbols ++ l.rest.word.toList

def unreachableRules (l : Listing) : List String :=
  ((Grammar.unreached l.defs l.entryNames).map (·.1)).filter fun name => !l.rest.isInlined name

def reachabilityFindings (l : Listing) : List Event :=
  match l.startRules with
  | [] => [.noEntryPoint l.rest.name]
  | [_] => l.unreachableRules.map (.unreachableRule l.rest.name)
  | roots => .ambiguousEntryPoint l.rest.name roots ::
      l.unreachableRules.map (.unreachableRule l.rest.name)

def leftRecursiveRules (l : Listing) : List String :=
  (l.defs.filter fun (name, body) => body.startsWith name).map (·.1)

def mixedRules (l : Listing) : List (String × List Int32) :=
  (l.defs.map fun (name, body) => (name, Ascending.ofList body.levels)).filter
    fun (_, levels) => 1 < levels.length

def findings (l : Listing) : List Event :=
  l.reachabilityFindings ++ l.leftRecursiveRules.map (.leftRecursiveRule l.rest.name) ++
    l.mixedRules.map fun (name, levels) => .mixedLevels l.rest.name name levels

def check (l : Listing) : Logged (Option Defect) :=
  match l.defect? with
  | some d => ⟨some d, []⟩
  | none => ⟨none, l.findings⟩

/-! ## Each pass hides the order -/

variable (l : Listing)

theorem entries_perm : l.grammar.rules.entries.Perm l.defs := NameMap.entries_ofList_perm l.distinct

theorem names_perm : l.grammar.rules.names.Perm l.names := l.entries_perm.map _

theorem contains_names (name : String) : l.names.contains name = l.grammar.hasRule name := by
  rw [Bool.eq_iff_iff, List.contains_iff_mem, Grammar.hasRule, NameMap.contains_iff,
    l.names_perm.mem_iff]

theorem isDefined_eq : l.isDefined = l.grammar.isDefined :=
  funext fun name => congrArg (· || l.rest.externalNames.contains name) (l.contains_names name)

theorem body?_eq (name : String) : l.body? name = l.grammar.rule? name := by
  have hd : (l.grammar.rules.entries.map (·.1)).Nodup := l.grammar.rules.nodup_names
  refine Option.ext fun body => ?_
  rw [body?, ← find?_perm hd l.entries_perm, Grammar.rule?, NameMap.get?_eq_some_iff,
    Option.map_eq_some_iff]
  constructor
  · rintro ⟨e, he, rfl⟩
    obtain ⟨hmem, rfl⟩ := (find?_eq_some_iff hd).mp he
    exact hmem
  · intro h
    exact ⟨(name, body), (find?_eq_some_iff hd).mpr ⟨h, rfl⟩, rfl⟩

theorem ruleNames_eq : l.ruleNames = l.grammar.rules.names :=
  Ascending.ofList_eq l.grammar.rules.ascends_names fun _ => l.names_perm.mem_iff.symm

theorem contains_referenced (name : String) :
    l.referenced.contains name = l.grammar.isReferenced name := by
  rw [Bool.eq_iff_iff, List.contains_iff_mem, referenced, Grammar.isReferenced, List.mem_flatMap,
    List.any_eq_true]
  refine exists_congr fun e => ?_
  rw [l.entries_perm.mem_iff, List.mem_filter, Bool.and_eq_true, List.contains_iff_mem,
    bne_iff_ne, bne_iff_ne, ne_comm, and_comm (a := name ∈ e.2.symbols)]

theorem startRules_eq : l.startRules = l.grammar.startRules := by
  refine Ascending.ofList_eq (l.grammar.rules.ascends_names.filter _) fun name => ?_
  rw [Grammar.startRules, List.mem_filter, List.mem_filter, l.names_perm.mem_iff,
    contains_referenced]

theorem startRule?_eq : l.startRule? = l.grammar.startRule? := by
  rw [startRule?, startRules_eq]
  rfl

theorem fieldNames_eq :
    l.fieldNames = Ascending.ofList (l.grammar.rules.entries.flatMap fun e => e.2.fieldNames) := by
  refine Ascending.ofList_eq (Ascending.pairwise_ofList _) fun name => ?_
  rw [Ascending.mem_ofList, (l.entries_perm.flatMap_right _).mem_iff]

theorem undefinedReference?_eq : l.undefinedReference? = l.grammar.undefinedReference? := by
  -- a name is looked up again just to find the entry that it was taken from
  have hlookup : ∀ e ∈ l.grammar.rules.entries, l.body? e.1 = some e.2 := fun e he =>
    (l.body?_eq e.1).trans (NameMap.get?_eq_some_iff.mpr he)
  rw [undefinedReference?, Grammar.undefinedReference?, Grammar.bodies, List.findSome?_append,
    List.findSome?_map, isDefined_eq, ruleNames_eq, NameMap.names, List.findSome?_map]
  refine congrArg (Option.or · _) ?_
  rw [← List.head?_filterMap, ← List.head?_filterMap]
  refine congrArg List.head? (List.filterMap_congr fun e he => ?_)
  rw [Function.comp_apply, hlookup e he]
  rfl

theorem undefinedDeclaration?_eq : l.undefinedDeclaration? = l.grammar.undefinedDeclaration? := by
  simp only [undefinedDeclaration?, contains_names]
  rfl

theorem defect?_eq : l.defect? = l.grammar.defect? := by
  have hempty : l.defs.isEmpty = l.grammar.rules.isEmpty := by
    rw [Bool.eq_iff_iff, NameMap.isEmpty, List.isEmpty_iff, List.isEmpty_iff]
    exact ⟨fun h => (h ▸ l.entries_perm).eq_nil, fun h => (h ▸ l.entries_perm.symm).eq_nil⟩
  rw [defect?, hempty, undefinedReference?_eq, undefinedDeclaration?_eq]
  rfl

theorem unreachableRules_perm : l.unreachableRules.Perm l.grammar.unreachableRules := by
  have hentry : l.entryNames = l.grammar.entryNames := by
    rw [entryNames, startRules_eq]
    rfl
  rw [unreachableRules, hentry]
  exact ((Grammar.unreached_perm _ l.distinct l.entries_perm.symm).map _).filter _

theorem reachabilityFindings_perm :
    l.reachabilityFindings.Perm l.grammar.reachabilityFindings := by
  have hlost : (l.unreachableRules.map (Event.unreachableRule l.rest.name)).Perm
      (l.grammar.unreachableRules.map (.unreachableRule l.rest.name)) := l.unreachableRules_perm.map _
  unfold reachabilityFindings Grammar.reachabilityFindings Grammar.reachabilityFindings.unreachable
  rw [startRules_eq]
  rcases l.grammar.startRules with _ | ⟨root, _ | ⟨other, roots⟩⟩
  · exact .refl _
  · exact hlost
  · exact hlost.cons _

theorem findings_perm : l.findings.Perm l.grammar.findings := by
  have hdefs := l.entries_perm.symm
  refine (l.reachabilityFindings_perm.append ?_).append ?_
  · exact ((hdefs.filter _).map _).map _
  · exact ((hdefs.map _).filter _).map _

theorem check_value_eq : l.check.value = l.grammar.check.value := by
  rw [Grammar.value_check, check, ← defect?_eq]
  cases l.defect? <;> rfl

theorem check_events_perm : l.check.events.Perm l.grammar.check.events := by
  rw [check, Grammar.check, defect?_eq]
  cases l.grammar.defect? with
  | some d => exact .refl _
  | none => exact l.findings_perm

/-! ## Loading -/

/-- Accepts a listed grammar from `origin` as the one called `name`. -/
def accept (l : Listing) (load : Nat) (origin name : String) :
    Logged (Except LoadError.Cause Language) :=
  match l.rest.mismatch? name with
  | some reason => ⟨.error (.incompatible reason), []⟩
  | none =>
    match h : l.defect? with
    | some d => ⟨.error (.invalid d), []⟩
    | none =>
      ⟨.ok ⟨load, l.grammar, origin, l.defect?_eq ▸ h⟩,
        l.findings ++ [.loaded name origin l.defs.length]⟩

theorem accept_eq (load : Nat) (origin name : String) :
    (l.accept load origin name).value = (l.grammar.accept load origin name).value ∧
      (l.accept load origin name).events.Perm (l.grammar.accept load origin name).events := by
  cases hm : l.grammar.mismatch? name with
  | some reason =>
    have hm' : l.rest.mismatch? name = some reason := hm
    rw [accept, hm', Grammar.accept_of_mismatch hm]
    exact ⟨rfl, .refl _⟩
  | none =>
    have hm' : l.rest.mismatch? name = none := hm
    rw [accept, hm', Grammar.accept, hm]
    dsimp only
    split
    · next d hd =>
      rw [Grammar.language_of_defect (l.defect?_eq.symm.trans hd)]
      exact ⟨rfl, .refl _⟩
    · next hd =>
      have hsize : l.grammar.rules.size = l.defs.length := l.entries_perm.length_eq
      rw [Grammar.language_of_sound (l.defect?_eq.symm.trans hd), hsize]
      exact ⟨rfl, l.findings_perm.append_right _⟩

/-! ## What can be seen of a listing -/

/-- What is seen of a listing is what the listed grammar shows, but for the order of the reports. -/
structure Faithful (l : Listing) : Prop where
  value : l.check.value = l.grammar.check.value
  events : l.check.events.Perm l.grammar.check.events
  startRules : l.startRules = l.grammar.startRules
  startRule : l.startRule? = l.grammar.startRule?
  ruleNames : ∀ handle : Language, handle.grammar = l.grammar → l.ruleNames = handle.ruleNames
  fieldNames : ∀ handle : Language, handle.grammar = l.grammar → l.fieldNames = handle.fieldNames
  load : ∀ (source : Source) (load : Nat) (origin name : String),
    (source.resolve name).value = .ok (.built origin l.grammar) →
    (source.load load name).value =
        (l.accept load origin name).value.mapError (fun cause => ⟨name, cause⟩) ∧
      (source.load load name).events.Perm
        ((source.resolve name).events ++ (l.accept load origin name).events)

/-- Listings that nothing tells apart but the order of the reports. -/
structure Alike (l m : Listing) : Prop where
  grammar : l.grammar = m.grammar
  value : l.check.value = m.check.value
  events : l.check.events.Perm m.check.events
  startRules : l.startRules = m.startRules
  startRule : l.startRule? = m.startRule?
  ruleNames : l.ruleNames = m.ruleNames
  fieldNames : l.fieldNames = m.fieldNames
  load : ∀ (load : Nat) (origin name : String),
    (l.accept load origin name).value = (m.accept load origin name).value ∧
      (l.accept load origin name).events.Perm (m.accept load origin name).events

theorem faithful : l.Faithful where
  value := l.check_value_eq
  events := l.check_events_perm
  startRules := l.startRules_eq
  startRule := l.startRule?_eq
  ruleNames handle h := by rw [ruleNames_eq, Language.ruleNames, h]
  fieldNames handle h := by rw [fieldNames_eq, Language.fieldNames, h]
  load source load origin name h := by
    obtain ⟨hvalue, hevents⟩ := l.accept_eq load origin name
    rw [Source.load_of_grammar h rfl, hvalue]
    exact ⟨rfl, hevents.symm.append_left _⟩

variable {l} {m : Listing}

theorem Alike.of_grammar (h : l.grammar = m.grammar) : l.Alike m where
  grammar := h
  value := by rw [check_value_eq, check_value_eq, h]
  events := l.check_events_perm.trans (h ▸ m.check_events_perm.symm)
  startRules := by rw [startRules_eq, startRules_eq, h]
  startRule := by rw [startRule?_eq, startRule?_eq, h]
  ruleNames := by rw [ruleNames_eq, ruleNames_eq, h]
  fieldNames := by rw [fieldNames_eq, fieldNames_eq, h]
  load n origin name := by
    obtain ⟨hvalue, hevents⟩ := l.accept_eq n origin name
    obtain ⟨hvalue', hevents'⟩ := m.accept_eq n origin name
    rw [← h] at hvalue' hevents'
    exact ⟨hvalue.trans hvalue'.symm, hevents.trans hevents'.symm⟩

/-- Listings of the same rules in different orders, with the same other sections, are listings of
one grammar and cannot be told apart. All that is seen of them is what that grammar shows. -/
theorem alike_of_perm (hrest : l.rest = m.rest) (h : l.defs.Perm m.defs) :
    l.Alike m ∧ l.Faithful ∧ m.Faithful := by
  have hrules : NameMap.ofList l.defs = NameMap.ofList m.defs := NameMap.ofList_perm l.distinct h
  have hgrammar : l.grammar = m.grammar := by rw [grammar, grammar, hrest, hrules]
  exact ⟨.of_grammar hgrammar, l.faithful, m.faithful⟩

/-- Two rules, in either order. -/
def words : Listing where
  rest := { name := "words", rules := .empty }
  defs := [("text", { kind := .symbol, name := some "word" }), ("word", { kind := .blank })]
  distinct := by decide

def wordsReversed : Listing where
  rest := words.rest
  defs := words.defs.reverse
  distinct := by decide

theorem alike_of_perm_words :
    words.Alike wordsReversed ∧ words.startRules = ["text"] ∧ wordsReversed.startRules = ["text"] := by
  have hperm : words.defs.Perm wordsReversed.defs := words.defs.reverse_perm.symm
  have hrest : words.rest = wordsReversed.rest := rfl
  have halike : words.Alike wordsReversed := (alike_of_perm hrest hperm).1
  have hroots : words.startRules = ["text"] := by decide
  exact ⟨halike, hroots, halike.startRules ▸ hroots⟩

end Listing

end GrammarTables
