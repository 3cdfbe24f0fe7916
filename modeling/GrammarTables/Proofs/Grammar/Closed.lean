import GrammarTables.Proofs.Grammar.Violations

/-!
# Closed grammars

What a check makes sure of is less than that a grammar is closed. Every name that a symbol in a rule
or in an extra has, however deep, is the name of a rule or what an external token goes by. A literal
goes by its text, so a symbol may name one as well.
-/

namespace GrammarTables

/-- `Occurs node body`: the node is the body itself or somewhere below it. -/
inductive Rule.Occurs (node : Rule) : Rule → Prop where
  | here : Occurs node node
  | content {parent child : Rule} :
      parent.content = some child → Occurs node child → Occurs node parent
  | member {parent child : Rule} :
      child ∈ parent.members → Occurs node child → Occurs node parent

theorem Rule.Occurs.child {node parent child : Rule} (hc : child ∈ parent.children)
    (h : node.Occurs child) : node.Occurs parent := by
  rcases mem_children.mp hc with hcontent | hmember
  · exact .content hcontent h
  · exact .member hmember h

/-- What occurs in a rule are its nodes. -/
theorem Rule.mem_nodes_iff {node body : Rule} : node ∈ body.nodes ↔ node.Occurs body := by
  constructor
  · induction body using ind with
    | node parent ih =>
      intro h
      rw [nodes_eq_cons, List.mem_cons, List.mem_flatMap] at h
      obtain rfl | ⟨child, hc, hnode⟩ := h
      · exact .here
      · exact (ih child hc hnode).child hc
  · intro h
    induction h with
    | here => rw [nodes_eq_cons]; exact List.mem_cons_self
    | @content parent child hc _ ih =>
      rw [nodes_eq_cons]
      exact List.mem_cons_of_mem _ (List.mem_flatMap.mpr ⟨child, mem_children.mpr (.inl hc), ih⟩)
    | @member parent child hm _ ih =>
      rw [nodes_eq_cons]
      exact List.mem_cons_of_mem _ (List.mem_flatMap.mpr ⟨child, mem_children.mpr (.inr hm), ih⟩)

namespace Grammar

/-- The sections that hold rules which are not external tokens. -/
inductive RuleSection where
  | rules
  | extras
  | precedences
  | reserved

/-- The rules in a section. -/
def bodiesIn (g : Grammar) : RuleSection → List Rule
  | .rules => g.rules.entries.map (·.2)
  | .extras => g.extras.getD []
  | .precedences => (g.precedences.getD []).flatten
  | .reserved => (g.reserved.getD .empty).entries.flatMap (·.2)

/-- A rule, or an external token that is a symbol, has the name. -/
def Declares (g : Grammar) (name : String) : Prop :=
  name ∈ g.rules.names ∨ ∃ token ∈ g.externals.getD [], token.symbolName? = some name

instance (g : Grammar) : DecidablePred g.Declares :=
  fun _ => inferInstanceAs (Decidable (_ ∈ _ ∨ _))

/-- Every symbol in the section has a name that is declared. -/
def ClosedIn (g : Grammar) (place : RuleSection) : Prop :=
  ∀ body ∈ g.bodiesIn place, ∀ node : Rule, node.Occurs body → node.kind = .symbol →
    ∃ name, node.name = some name ∧ g.Declares name

/-- An external token that is a literal has the text. -/
def HasLiteral (g : Grammar) (text : String) : Prop :=
  ∃ token ∈ g.externals.getD [], token.literal? = some text

variable {g : Grammar} {name : String}

theorem mem_externalNames_iff :
    name ∈ g.externalNames ↔
      (∃ token ∈ g.externals.getD [], token.symbolName? = some name) ∨ g.HasLiteral name := by
  -- no token is a symbol and a literal at once
  have hname (token : Rule) : token.symbolName?.or token.literal? = some name ↔
      token.symbolName? = some name ∨ token.literal? = some name := by
    by_cases hk : token.kind = .symbol
    · simp [Rule.literal?, hk]
    · simp [Rule.symbolName?, hk]
  simp only [externalNames, List.mem_filterMap, hname, HasLiteral, and_or_left, exists_or]

theorem defined_iff : g.Defined name ↔ g.Declares name ∨ g.HasLiteral name := by
  rw [Defined, mem_externalNames_iff, Declares, or_assoc]

theorem undefinedNames_eq_nil_iff {body : Rule} : g.undefinedNames body = [] ↔
    ∀ node : Rule, node.Occurs body → ∀ name, node.symbolName? = some name → g.Defined name := by
  simp only [undefinedNames, List.filter_eq_nil_iff, List.mem_filterMap, Rule.mem_nodes_iff,
    decide_eq_true_eq, not_not]
  constructor
  · intro h node hnode name hname
    exact h name ⟨node, hnode, hname⟩
  · rintro h name ⟨node, hnode, hname⟩
    exact h node hnode name hname

/-- A sound grammar has no undefined names, neither in rules nor in extras. -/
theorem undefinedNames_of_sound (h : g.check.value = none) {body : Rule}
    (hbody : body ∈ g.bodiesIn .rules ∨ body ∈ g.bodiesIn .extras) :
    g.undefinedNames body = [] := by
  have hsound := isSound_iff.mp h
  rcases hbody with hrule | hextra
  · obtain ⟨entry, hentry, rfl⟩ := List.mem_map.mp hrule
    exact hsound.bodies entry hentry
  · exact hsound.extras body hextra

/-! ## Sound grammars that are not closed -/

/-- A grammar with a single rule. -/
def lone (body : Rule) : Grammar := { name := "g", rules := ⟨[("a", body)], List.pairwise_singleton _ _⟩ }

def blank : Rule := { kind := .blank }

def reference (name : Option String) : Rule := { kind := .symbol, name }

theorem ClosedIn.declares {place : RuleSection} (h : g.ClosedIn place)
    (hbody : reference (some name) ∈ g.bodiesIn place) : g.Declares name := by
  obtain ⟨declared, hname, hdeclared⟩ := h _ hbody _ .here rfl
  rw [Option.some.inj hname]
  exact hdeclared

/-- The check passes a symbol without a name, a symbol with the text of an external literal, and
every symbol in the precedences and the reserved words. -/
theorem sound_not_closed :
    let nameless := lone (reference none)
    let literal : Grammar :=
      { lone (reference (some "x")) with
        externals := some [{ kind := .string, value := some (.text "x") }] }
    let precedence : Grammar := { lone blank with precedences := some [[reference (some "x")]] }
    let reserved : Grammar :=
      { lone blank with
        reserved := some ⟨[("k", [reference (some "x")])], List.pairwise_singleton _ _⟩ }
    (nameless.check.value = none ∧ ¬ nameless.ClosedIn .rules) ∧
    (literal.check.value = none ∧ ¬ literal.ClosedIn .rules) ∧
    (precedence.check.value = none ∧ ¬ precedence.ClosedIn .precedences) ∧
    (reserved.check.value = none ∧ ¬ reserved.ClosedIn .reserved) := by
  intro nameless literal precedence reserved
  refine ⟨⟨by decide +kernel, fun h => ?_⟩, ⟨by decide +kernel, fun h => ?_⟩,
    ⟨by decide +kernel, fun h => ?_⟩, ⟨by decide +kernel, fun h => ?_⟩⟩
  · obtain ⟨name, hname, -⟩ := h _ (List.mem_singleton.mpr rfl) _ .here rfl
    cases hname
  all_goals exact absurd (h.declares (List.mem_singleton.mpr rfl)) (by decide +kernel)

/-- In a sound grammar every name that a symbol has, at any depth of a rule or an extra, is declared
or is the text of an external literal. -/
theorem declares_of_sound (h : g.check.value = none) {place : RuleSection}
    (hplace : place = .rules ∨ place = .extras) {body node : Rule} (hbody : body ∈ g.bodiesIn place)
    (hnode : node.Occurs body) (hkind : node.kind = .symbol) (hname : node.name = some name) :
    g.Declares name ∨ g.HasLiteral name := by
  have hbody : body ∈ g.bodiesIn .rules ∨ body ∈ g.bodiesIn .extras := by
    rcases hplace with rfl | rfl
    · exact .inl hbody
    · exact .inr hbody
  have hsymbol : node.symbolName? = some name := by rw [Rule.symbolName?, if_pos hkind, hname]
  have hdefined := undefinedNames_eq_nil_iff.mp (undefinedNames_of_sound h hbody)
  exact defined_iff.mp (hdefined node hnode name hsymbol)

/-- A symbol below a field in a sequence, with the text of an external literal. -/
def literalBelow : Grammar :=
  { lone { kind := .seq,
           members := [blank, { kind := .field, name := some "f", content := reference (some "x") }] } with
    externals := some [{ kind := .string, value := some (.text "x") }] }

theorem declares_of_sound_literalBelow :
    literalBelow.check.value = none ∧ (literalBelow.Declares "x" ∨ literalBelow.HasLiteral "x") :=
  have hsound : literalBelow.check.value = none := by decide +kernel
  ⟨hsound, declares_of_sound hsound (.inl rfl) (List.mem_singleton.mpr rfl)
    (.member (List.mem_cons_of_mem _ (List.mem_singleton.mpr rfl)) (.content rfl .here)) rfl rfl⟩

end Grammar

end GrammarTables
