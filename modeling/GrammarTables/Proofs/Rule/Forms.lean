import GrammarTables.Proofs.Json.Forms
import GrammarTables.Proofs.Rule.Taken

/-!
# Forms of rules

A rule may be written by key or by position, and so may each of the rules in it, whatever the form of
the others. All documents that write a rule in this way are read as that rule, and a list of the wrong
length is read as none.
-/

namespace GrammarTables

open Json (Clause Doc RendersFields inside)

/-! ## Ways to write a rule -/

/-- The clauses of a written rule, given what has to hold of its content and its members. -/
def Rule.slotsOfNode (r : Rule) (content members : Doc → Prop) : List Clause := [
  .required "type" (fun v (k : Kind) => v.DenotesText k.name) r.kind,
  .optional "value" (fun v (a : Value) => v.DenotesJson a.toJson) r.value,
  .optional "name" Doc.DenotesText r.name,
  ⟨"content", content, r.content = none⟩,
  ⟨"members", members, r.members = []⟩,
  .optional "named" Doc.DenotesBool r.named,
  .optional "flags" Doc.DenotesText r.flags,
  .optional "context_name" Doc.DenotesText r.contextName]

namespace Json.Doc

mutual

/-- The document writes the rule, at each node by key or by position. -/
def WritesRule : Doc → Rule → Prop
  | v, ⟨k, a, n, c, ms, d, f, x⟩ =>
    v.WritesRecord <| Rule.slotsOfNode ⟨k, a, n, c, ms, d, f, x⟩ (WritesContent · c)
      fun v => ∃ vs, v = .list vs ∧ WriteRules vs ms

def WritesContent : Doc → Option Rule → Prop
  | v, none => v = .null
  | v, some r => v.WritesRule r

def WriteRules : List Doc → List Rule → Prop
  | [], [] => True
  | v :: vs, r :: rs => v.WritesRule r ∧ WriteRules vs rs
  | _, _ => False

end

theorem writesContent_iff {v : Doc} {c : Option Rule} :
    v.WritesContent c ↔ v.DenotesOptional WritesRule c := by
  cases c with
  | none =>
    constructor
    · rintro rfl
      exact .null
    · rintro ⟨⟩
      rfl
  | some r =>
    show v.WritesRule r ↔ v.DenotesOptional WritesRule (some r)
    constructor
    · exact .some
    · rintro ⟨⟩
      assumption

theorem writeRules_iff {vs : List Doc} {rs : List Rule} :
    WriteRules vs rs ↔ List.Forall₂ WritesRule vs rs := by
  induction rs generalizing vs with
  | nil => cases vs <;> simp [WriteRules]
  | cons r rs ih => cases vs <;> simp [WriteRules, ih]

end Json.Doc

/-- The clauses of a written rule. -/
def Rule.slots (r : Rule) : List Clause :=
  r.slotsOfNode (Doc.DenotesOptional Doc.WritesRule · r.content)
    (Doc.DenotesList Doc.WritesRule · r.members)

theorem Json.Doc.writesRule_eq (v : Doc) (r : Rule) : v.WritesRule r = v.WritesRecord r.slots := by
  obtain ⟨k, a, n, c, ms, d, f, x⟩ := r
  have content : (WritesContent · c) = (DenotesOptional WritesRule · c) :=
    funext fun _ => propext writesContent_iff
  have members : (fun v : Doc => ∃ vs, v = .list vs ∧ WriteRules vs ms) =
      (DenotesList WritesRule · ms) := by
    refine funext fun v => propext ⟨?_, ?_⟩
    · rintro ⟨vs, rfl, h⟩
      exact .mk (writeRules_iff.mp h)
    · rintro ⟨h⟩
      exact ⟨_, rfl, writeRules_iff.mpr h⟩
  rw [WritesRule, content, members]
  rfl

/-! ## What is written is read -/

namespace Rule

open Json.Doc (Renders WritesRule DenotesRule DenotesKind DenotesValue RuleWithin IsValue)

theorem renders_kind (k : Kind) :
    Renders (fun v (k : Kind) => v.DenotesText k.name) DenotesKind
      (Doc.VariantOf Kind.byName) (fun k => .string k.name) k where
  denotes h := .inl h
  taken h _ := ⟨k.name, k, lookup_byName k, .inl h⟩
  height_le _ := Nat.zero_le _

theorem renders_value (a : Value) :
    Renders (fun v (a : Value) => v.DenotesJson a.toJson) DenotesValue (fun _ => IsValue)
      Value.toJson a where
  denotes h := denotes_of_ofJson? h (ofJson?_toJson a)
  taken h _ := ⟨a.toJson, a, h, ofJson?_toJson a⟩
  height_le _ := by cases a <;> exact Nat.zero_le _

theorem rendersFields {r : Rule}
    (content : ∀ c ∈ r.content, Renders WritesRule DenotesRule RuleWithin toJson c)
    (members : ∀ m ∈ r.members, Renders WritesRule DenotesRule RuleWithin toJson m) (room : Nat) :
    RendersFields room r.slots r.clauses (takenWithin room) r.pieces := by
  have written : ∀ ms ∈ (if r.members.isEmpty then none else some r.members),
      ms = r.members ∧ r.members ≠ [] := by
    intro ms hms
    split at hms
    · cases hms
    · next hne =>
      cases hms
      exact ⟨rfl, fun h => hne (by rw [h]; rfl)⟩
  exact
    .required (renders_kind r.kind) <|
    .optional (fun a _ => renders_value a) <|
    .optional (fun s _ => Doc.renders_text s) <|
    .optional content <|
    .default (Renders.list members) written <|
    .optional (fun b _ => Doc.renders_bool b) <|
    .optional (fun s _ => Doc.renders_text s) <|
    .optional (fun s _ => Doc.renders_text s) .nil

theorem renders_rule (r : Rule) : Renders WritesRule DenotesRule RuleWithin toJson r := by
  induction r using Rule.ind with
  | node r ih =>
    have fields := rendersFields (r := r) (fun c hc => ih c (mem_children.mpr (.inl hc)))
      fun m hm => ih m (mem_children.mpr (.inr hm))
    exact {
      denotes := fun {v} h => by
        rw [Doc.writesRule_eq] at h
        rw [Doc.denotesRule_eq]
        exact (fields v.height).denotes nodup_keys h
      taken := fun {v room} h hv => by
        rw [Doc.writesRule_eq] at h
        have := h.height_pos
        obtain ⟨inner, rfl⟩ : ∃ inner, room = inner + 1 := ⟨room - 1, by omega⟩
        rw [ruleWithin_eq]
        exact (fields inner).taken nodup_keys h hv
      height_le := fun {v} h => by
        rw [Doc.writesRule_eq] at h
        rw [toJson_eq]
        exact (fields v.height).height_le h }

/-- All texts that write a rule are read as it, the text of its object among them. -/
theorem decode_of_writesRule {r : Rule} {v : Doc} {text : String} (h : v.WritesRule r)
    (hv : v.IsText text) (hn : Json.nesting text ≤ Json.nestingLimit) :
    (decoder Json.nestingLimit).decode text = .ok r ∧
      (decoder Json.nestingLimit).decode r.toJson.text = .ok r := by
  constructor
  · exact r.renders_rule.decode (sound_decoder _) (takes_decoder _) (Doc.determines_rule r) hv h hn
  · refine (r.reads_toJson.decode Json.nestingLimit).read (Nat.le_trans ?_ hn)
    rw [Json.nesting_text, hv.nesting_eq]
    exact r.renders_rule.height_le h

end Rule

/-! ## Lists of the wrong length -/

/-- In the document `w` of a rule, `v` stands where a rule has to be. -/
inductive Json.Doc.RuleIn (v : Doc) : Doc → Prop where
  | self : RuleIn v v
  | content {c w : Doc} : HasField Rule.keys "content" c w → c ≠ .null → RuleIn v c → RuleIn v w
  | member {c w : Doc} {vs : List Doc} : HasField Rule.keys "members" (.list vs) w → c ∈ vs →
      RuleIn v c → RuleIn v w

namespace Rule

/-- Where a rule has to be, a rule is taken. -/
theorem ruleWithin_of_ruleIn {v w : Doc} (h : v.RuleIn w) {room : Nat} (hw : w.RuleWithin room) :
    ∃ inner, v.RuleWithin inner := by
  induction h generalizing room with
  | self => exact ⟨room, hw⟩
  | @content c w hfield hnull _ ih =>
    obtain ⟨inner, rfl, hrecord⟩ := ruleWithin_iff.mp hw
    have hc : Doc.OptionalOf (Doc.RuleWithin inner) c :=
      hrecord.present nodup_keys (c := ⟨"content", _, True⟩) (List.mem_of_getElem? (i := 3) rfl) hfield
    exact ih (hc.resolve_left hnull)
  | @member c w vs hfield hmem _ ih =>
    obtain ⟨inner, rfl, hrecord⟩ := ruleWithin_iff.mp hw
    have hvs : Doc.ListOf (inside Doc.RuleWithin inner) (.list vs) :=
      hrecord.present nodup_keys (c := ⟨"members", _, True⟩) (List.mem_of_getElem? (i := 4) rfl) hfield
    obtain ⟨hB, hvs⟩ := hvs
    obtain ⟨room, -, rfl⟩ := Json.exists_of_inside hB
    exact ih (hvs c hmem)

theorem length_of_ruleWithin {vs : List Doc} {room : Nat} (h : (Doc.list vs).RuleWithin room) :
    1 ≤ vs.length ∧ vs.length ≤ 8 := by
  obtain ⟨inner, rfl, hrecord⟩ := ruleWithin_iff.mp h
  have hmet := hrecord.metInOrder
  exact ⟨hmet.lt_length (i := 0) rfl id, hmet.length_le⟩

theorem decode_error_of_length {v : Doc} {vs : List Doc} {text : String} (hv : v.IsText text)
    (hin : (Doc.list vs).RuleIn v) (hl : vs.length < 1 ∨ 8 < vs.length) :
    ∃ f, (decoder Json.nestingLimit).decode text = .error f := by
  refine (takes_decoder _).decode_error hv fun hw => ?_
  obtain ⟨inner, h⟩ := ruleWithin_of_ruleIn hin hw
  have := length_of_ruleWithin h
  omega

end Rule

end GrammarTables
