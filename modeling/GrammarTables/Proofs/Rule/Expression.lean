import GrammarTables.Proofs.Grammar.Closed
import GrammarTables.Rule.Expression

/-!
# What expressions stand for

A rule that an expression stands for has, at each of its nodes, just the parts that the kind of the
node takes; and every such rule is what some expression stands for. Reading an expression off the
rule gives the one that was written, up to `optional`, which is a choice between its content and
nothing. So no two expressions without `optional` stand for the same rule.
-/

namespace GrammarTables.Rule

/-- A node that has the parts that its kind takes, and no others. -/
inductive FitsKind : Rule → Prop where
  | blank : FitsKind { kind := .blank }
  | text {kind : Kind} (hk : kind = .string ∨ kind = .pattern) (s : String) :
      FitsKind { kind, value := some (.text s) }
  | symbol (name : String) : FitsKind { kind := .symbol, name := some name }
  | group {kind : Kind} (hk : kind = .seq ∨ kind = .choice) (members : List Rule) :
      FitsKind { kind, members }
  | around {kind : Kind}
      (hk : kind = .repeat0 ∨ kind = .repeat1 ∨ kind = .token ∨ kind = .immediateToken)
      (content : Rule) : FitsKind { kind, content := some content }
  | leveled {kind : Kind} (hk : kind.isPrecedence) (level : Int32) (content : Rule) :
      FitsKind { kind, value := some (.level level), content := some content }
  | field (name : String) (content : Rule) :
      FitsKind { kind := .field, name := some name, content := some content }
  | rename (text : String) (named : Bool) (content : Rule) :
      FitsKind { kind := .rename, value := some (.text text), named := some named,
                 content := some content }

/-- All nodes of the rule fit their kinds. -/
def WellFormed (r : Rule) : Prop := ∀ node : Rule, node.Occurs r → node.FitsKind

theorem wellFormed_iff {r : Rule} :
    r.WellFormed ↔ r.FitsKind ∧ ∀ s ∈ r.children, s.WellFormed := by
  constructor
  · intro h
    exact ⟨h r .here, fun s hs node hnode => h node (hnode.child hs)⟩
  · rintro ⟨hr, hs⟩ node hnode
    cases hnode with
    | here => exact hr
    | content hc hnode => exact hs _ (mem_children.mpr (.inl hc)) node hnode
    | member hm hnode => exact hs _ (mem_children.mpr (.inr hm)) node hnode

theorem WellFormed.of_leaf {r : Rule} (h : r.FitsKind) (hr : r.children = []) : r.WellFormed := by
  refine wellFormed_iff.mpr ⟨h, ?_⟩
  rw [hr]
  exact List.forall_mem_nil _

theorem WellFormed.of_content {r content : Rule} (h : r.FitsKind) (hr : r.children = [content])
    (hc : content.WellFormed) : r.WellFormed := by
  refine wellFormed_iff.mpr ⟨h, ?_⟩
  rw [hr]
  exact List.forall_mem_singleton.mpr hc

theorem wellFormed_blank : blank.WellFormed := .of_leaf .blank rfl

namespace Expression

theorem rules_eq_map (es : List Expression) : rules es = es.map rule := by
  induction es with
  | nil => rfl
  | cons e es ih => rw [rules, ih, List.map_cons]

theorem forall_mem_rules {P : Rule → Prop} {es : List Expression} (h : ∀ e ∈ es, P e.rule) :
    ∀ r ∈ rules es, P r := by
  rw [rules_eq_map]
  intro r hr
  obtain ⟨e, he, rfl⟩ := List.mem_map.mp hr
  exact h e he

theorem wellFormed_rule (e : Expression) : e.rule.WellFormed := by
  cases e with
  | blank => exact wellFormed_blank
  | string text => exact .of_leaf (.text (.inl rfl) text) rfl
  | pattern source => exact .of_leaf (.text (.inr rfl) source) rfl
  | symbol name => exact .of_leaf (.symbol name) rfl
  | seq members =>
    exact wellFormed_iff.mpr ⟨.group (.inl rfl) _, forall_mem_rules fun e _ => e.wellFormed_rule⟩
  | choice members =>
    exact wellFormed_iff.mpr ⟨.group (.inr rfl) _, forall_mem_rules fun e _ => e.wellFormed_rule⟩
  | optional content =>
    refine wellFormed_iff.mpr ⟨.group (.inr rfl) _, ?_⟩
    refine List.forall_mem_cons.mpr ⟨content.wellFormed_rule, ?_⟩
    exact List.forall_mem_singleton.mpr wellFormed_blank
  | repeat0 content => exact .of_content (.around (by decide) _) rfl content.wellFormed_rule
  | repeat1 content => exact .of_content (.around (by decide) _) rfl content.wellFormed_rule
  | prec level content => exact .of_content (.leveled rfl ..) rfl content.wellFormed_rule
  | precLeft level content => exact .of_content (.leveled rfl ..) rfl content.wellFormed_rule
  | precRight level content => exact .of_content (.leveled rfl ..) rfl content.wellFormed_rule
  | precDynamic level content => exact .of_content (.leveled rfl ..) rfl content.wellFormed_rule
  | field name content => exact .of_content (.field name _) rfl content.wellFormed_rule
  | rename content text named =>
    exact .of_content (.rename text named _) rfl content.wellFormed_rule
  | token content => exact .of_content (.around (by decide) _) rfl content.wellFormed_rule
  | immediateToken content => exact .of_content (.around (by decide) _) rfl content.wellFormed_rule

/-! ## Expressions without `optional` -/

mutual

/-- The expression with each `optional` written as a choice between its content and nothing. -/
def spelledOut : Expression → Expression
  | blank => blank
  | string text => string text
  | pattern source => pattern source
  | symbol name => symbol name
  | seq members => seq (allSpelledOut members)
  | choice members => choice (allSpelledOut members)
  | optional content => choice [content.spelledOut, blank]
  | repeat0 content => repeat0 content.spelledOut
  | repeat1 content => repeat1 content.spelledOut
  | prec level content => prec level content.spelledOut
  | precLeft level content => precLeft level content.spelledOut
  | precRight level content => precRight level content.spelledOut
  | precDynamic level content => precDynamic level content.spelledOut
  | field name content => field name content.spelledOut
  | rename content text named => rename content.spelledOut text named
  | token content => token content.spelledOut
  | immediateToken content => immediateToken content.spelledOut

def allSpelledOut : List Expression → List Expression
  | [] => []
  | e :: es => e.spelledOut :: allSpelledOut es

end

mutual

/-- Spelling out does not change the rule. -/
theorem rule_spelledOut (e : Expression) : e.spelledOut.rule = e.rule := by
  cases e with
  | blank | string | pattern | symbol => rfl
  | seq members => exact congrArg Rule.seq (rules_allSpelledOut members)
  | choice members => exact congrArg Rule.choice (rules_allSpelledOut members)
  | optional content => exact congrArg Rule.optional content.rule_spelledOut
  | repeat0 content => exact congrArg Rule.repeat0 content.rule_spelledOut
  | repeat1 content => exact congrArg Rule.repeat1 content.rule_spelledOut
  | prec level content => exact congrArg (Rule.prec level) content.rule_spelledOut
  | precLeft level content => exact congrArg (Rule.precLeft level) content.rule_spelledOut
  | precRight level content => exact congrArg (Rule.precRight level) content.rule_spelledOut
  | precDynamic level content => exact congrArg (Rule.precDynamic level) content.rule_spelledOut
  | field name content => exact congrArg (Rule.field name) content.rule_spelledOut
  | rename content text named =>
    exact congrArg (Rule.rename · text named) content.rule_spelledOut
  | token content => exact congrArg Rule.token content.rule_spelledOut
  | immediateToken content => exact congrArg Rule.immediateToken content.rule_spelledOut

theorem rules_allSpelledOut (es : List Expression) : rules (allSpelledOut es) = rules es := by
  cases es with
  | nil => rfl
  | cons e es => rw [allSpelledOut, rules, rules, e.rule_spelledOut, rules_allSpelledOut es]

end

/-! ## Reading expressions off rules -/

/-- The text of a value, empty if there is none. -/
def textOf : Option Value → String
  | some (.text s) => s
  | _ => ""

/-- The level of a value, zero if there is none. -/
def levelOf : Option Value → Int32
  | some (.level n) => n
  | _ => 0

mutual

/-- An expression for the rule, from the parts that its kinds take. -/
def ofRule : Rule → Expression
  | ⟨kind, value, name, content, members, named, _, _⟩ =>
    match kind with
    | .blank | .reserved => blank
    | .string => string (textOf value)
    | .pattern => pattern (textOf value)
    | .symbol => symbol (name.getD "")
    | .seq => seq (ofRules members)
    | .choice => choice (ofRules members)
    | .repeat0 => repeat0 (ofContent content)
    | .repeat1 => repeat1 (ofContent content)
    | .prec => prec (levelOf value) (ofContent content)
    | .precLeft => precLeft (levelOf value) (ofContent content)
    | .precRight => precRight (levelOf value) (ofContent content)
    | .precDynamic => precDynamic (levelOf value) (ofContent content)
    | .field => field (name.getD "") (ofContent content)
    | .rename => rename (ofContent content) (textOf value) (named.getD false)
    | .token => token (ofContent content)
    | .immediateToken => immediateToken (ofContent content)

def ofContent : Option Rule → Expression
  | none => blank
  | some r => ofRule r

def ofRules : List Rule → List Expression
  | [] => []
  | r :: rs => ofRule r :: ofRules rs

end

mutual

/-- What is read off the rule of an expression is that expression, spelled out. -/
theorem ofRule_rule (e : Expression) : ofRule e.rule = e.spelledOut := by
  cases e with
  | blank | string | pattern | symbol => rfl
  | seq members => exact congrArg seq (ofRules_rules members)
  | choice members => exact congrArg choice (ofRules_rules members)
  | optional content => exact congrArg (choice [·, blank]) content.ofRule_rule
  | repeat0 content => exact congrArg repeat0 content.ofRule_rule
  | repeat1 content => exact congrArg repeat1 content.ofRule_rule
  | prec level content => exact congrArg (prec level) content.ofRule_rule
  | precLeft level content => exact congrArg (precLeft level) content.ofRule_rule
  | precRight level content => exact congrArg (precRight level) content.ofRule_rule
  | precDynamic level content => exact congrArg (precDynamic level) content.ofRule_rule
  | field name content => exact congrArg (field name) content.ofRule_rule
  | rename content text named => exact congrArg (rename · text named) content.ofRule_rule
  | token content => exact congrArg token content.ofRule_rule
  | immediateToken content => exact congrArg immediateToken content.ofRule_rule

theorem ofRules_rules (es : List Expression) : ofRules (rules es) = allSpelledOut es := by
  cases es with
  | nil => rfl
  | cons e es => rw [rules, ofRules, allSpelledOut, e.ofRule_rule, ofRules_rules es]

end

theorem rules_ofRules {ms : List Rule} (h : ∀ m ∈ ms, (ofRule m).rule = m) :
    rules (ofRules ms) = ms := by
  induction ms with
  | nil => rfl
  | cons m ms ih =>
    obtain ⟨hm, hms⟩ := List.forall_mem_cons.mp h
    rw [ofRules, rules, hm, ih hms]

/-- A well-formed rule is what the expression read off it stands for. -/
theorem rule_ofRule {r : Rule} (h : r.WellFormed) : (ofRule r).rule = r := by
  induction r using ind with
  | node r ih =>
    obtain ⟨hr, hparts⟩ := wellFormed_iff.mp h
    have hparts : ∀ s ∈ r.children, (ofRule s).rule = s := fun s hs => ih s hs (hparts s hs)
    cases hr with
    | blank | symbol => rfl
    | text hk s => rcases hk with rfl | rfl <;> rfl
    | group hk members =>
      have hms : rules (ofRules members) = members := rules_ofRules hparts
      rcases hk with rfl | rfl
      · exact congrArg Rule.seq hms
      · exact congrArg Rule.choice hms
    | around hk content =>
      have hc : (ofRule content).rule = content := hparts content List.mem_cons_self
      rcases hk with rfl | rfl | rfl | rfl <;> exact congrArg (wrap _) hc
    | @leveled kind hk level content =>
      have hc : (ofRule content).rule = content := hparts content List.mem_cons_self
      match kind, hk with
      | .prec, _ | .precLeft, _ | .precRight, _ | .precDynamic, _ =>
        exact congrArg (Rule.leveled _ level) hc
    | field name content =>
      exact congrArg (Rule.field name) (hparts content List.mem_cons_self)
    | rename text named content =>
      exact congrArg (Rule.rename · text named) (hparts content List.mem_cons_self)

/-- What expressions stand for are the well-formed rules, and two of them stand for the same rule
just if they are equal when spelled out. -/
theorem rule_image_and_kernel :
    (∀ r : Rule, (∃ e : Expression, e.rule = r) ↔ ∀ node : Rule, node.Occurs r → node.FitsKind) ∧
      ∀ e e' : Expression, e.rule = e'.rule ↔ e.spelledOut = e'.spelledOut := by
  refine ⟨fun r => ⟨?_, fun h => ⟨ofRule r, rule_ofRule h⟩⟩, fun e e' => ⟨fun h => ?_, fun h => ?_⟩⟩
  · rintro ⟨e, rfl⟩
    exact e.wellFormed_rule
  · rw [← ofRule_rule, ← ofRule_rule, h]
  · rw [← rule_spelledOut, h, rule_spelledOut]

end Expression

end GrammarTables.Rule
