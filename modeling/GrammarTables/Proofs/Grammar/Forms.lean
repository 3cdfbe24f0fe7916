import GrammarTables.Proofs.Grammar.Edits
import GrammarTables.Proofs.Grammar.RoundTrip
import GrammarTables.Proofs.Rule.Forms
import GrammarTables.Rule.Combinators

/-!
# Forms of grammar tables

A grammar may be written by key or by position, like the rules in it, and each of them in a form of
its own. The forms of one grammar are all read as that grammar. A list of the wrong length is refused
wherever a grammar or a rule has to be.
-/

namespace GrammarTables

open Json (Clause Doc RendersFields inside)

namespace Grammar

/-! ## Ways to write a grammar -/

/-- The clauses of a written grammar. -/
def slots (g : Grammar) : List Clause := [
  .optional "$schema" Doc.DenotesText g.schema,
  .required "name" Doc.DenotesText g.name,
  .optional "inherits" Doc.DenotesText g.inherits,
  .required "rules" (Doc.WritesMap Doc.WritesRule) g.rules,
  .optional "extras" (Doc.DenotesList Doc.WritesRule) g.extras,
  .optional "externals" (Doc.DenotesList Doc.WritesRule) g.externals,
  .optional "inline" (Doc.DenotesList Doc.DenotesText) g.inline,
  .optional "precedences" (Doc.DenotesList (Doc.DenotesList Doc.WritesRule)) g.precedences,
  .optional "conflicts" (Doc.DenotesList (Doc.DenotesList Doc.DenotesText)) g.conflicts,
  .optional "reserved" (Doc.WritesMap (Doc.DenotesList Doc.WritesRule)) g.reserved,
  .optional "word" Doc.DenotesText g.word,
  .optional "supertypes" (Doc.DenotesList Doc.DenotesText) g.supertypes]

end Grammar

/-- The document writes the grammar, at each node by key or by position. -/
def Json.Doc.WritesGrammar (v : Doc) (g : Grammar) : Prop := v.WritesRecord g.slots

namespace Grammar

open Json.Doc (Renders WritesGrammar DenotesGrammar GrammarWithin)

/-! ## What is written is read -/

theorem renders_names (ns : List String) :
    Renders (Doc.DenotesList Doc.DenotesText) (Doc.DenotesList Doc.DenotesText)
      (fun room => Doc.ListOf (inside (fun _ => Doc.IsString) room)) (listJson .string) ns :=
  .list fun n _ => Doc.renders_text n

theorem renders_rules (rs : List Rule) :
    Renders (Doc.DenotesList Doc.WritesRule) (Doc.DenotesList Doc.DenotesRule)
      (fun room => Doc.ListOf (inside Doc.RuleWithin room)) (listJson Rule.toJson) rs :=
  .list fun r _ => r.renders_rule

theorem renders_ruleMap (m : NameMap Rule) :
    Renders (Doc.WritesMap Doc.WritesRule) (Doc.DenotesMap Doc.DenotesRule)
      (fun room => Doc.MapOf (inside Doc.RuleWithin room)) (mapJson Rule.toJson) m :=
  .map fun e _ => e.2.renders_rule

theorem rendersFields (g : Grammar) (room : Nat) :
    RendersFields room g.slots g.clauses (takenFields room) g.pieces :=
  .optional (fun s _ => Doc.renders_text s) <|
  .required (Doc.renders_text g.name) <|
  .optional (fun s _ => Doc.renders_text s) <|
  .required (renders_ruleMap g.rules) <|
  .optional (fun rs _ => renders_rules rs) <|
  .optional (fun rs _ => renders_rules rs) <|
  .optional (fun ns _ => renders_names ns) <|
  .optional (fun _ _ => .list fun rs _ => renders_rules rs) <|
  .optional (fun _ _ => .list fun ns _ => renders_names ns) <|
  .optional (fun _ _ => .map fun e _ => renders_rules e.2) <|
  .optional (fun s _ => Doc.renders_text s) <|
  .optional (fun ns _ => renders_names ns) .nil

theorem renders_grammar (g : Grammar) :
    Renders WritesGrammar DenotesGrammar GrammarWithin toJson g where
  denotes {v} h := (g.rendersFields v.height).denotes nodup_keys h
  taken {v room} h hv := by
    have := h.height_pos
    obtain ⟨inner, rfl⟩ : ∃ inner, room = inner + 1 := ⟨room - 1, by omega⟩
    exact (g.rendersFields inner).taken nodup_keys h hv
  height_le {v} h := by
    rw [toJson_eq]
    exact (g.rendersFields v.height).height_le h

theorem ofTables_of_writesGrammar {g : Grammar} {v : Doc} {text : String} (h : v.WritesGrammar g)
    (hv : v.IsText text) (hn : Json.nesting text ≤ Json.nestingLimit) :
    ofTables text = .ok g ∧ ofTables g.tables = .ok g := by
  constructor
  · exact g.renders_grammar.decode (sound_decoder _) (takes_decoder _) (Doc.determines_grammar g) hv
      h hn
  · refine (g.reads_toJson.decode Json.nestingLimit).read (Nat.le_trans ?_ hn)
    rw [Json.nesting_text, hv.nesting_eq]
    exact g.renders_grammar.height_le h

end Grammar

/-! ## Lists of the wrong length -/

/-- In the document `w` of a grammar, `v` stands where a rule has to be. -/
inductive Json.Doc.RuleInGrammar (v w : Doc) : Prop where
  | rules {m : List Nat × Doc} {ms : List (List Nat × Doc)} :
      HasField Grammar.keys "rules" (.object ms) w → m ∈ ms → RuleIn v m.2 → RuleInGrammar v w
  | extras {c : Doc} {vs : List Doc} :
      HasField Grammar.keys "extras" (.list vs) w → c ∈ vs → RuleIn v c → RuleInGrammar v w
  | externals {c : Doc} {vs : List Doc} :
      HasField Grammar.keys "externals" (.list vs) w → c ∈ vs → RuleIn v c → RuleInGrammar v w
  | precedences {c : Doc} {vs : List Doc} {vss : List Doc} :
      HasField Grammar.keys "precedences" (.list vss) w → .list vs ∈ vss → c ∈ vs → RuleIn v c →
      RuleInGrammar v w
  | reserved {c : Doc} {key : List Nat} {vs : List Doc} {ms : List (List Nat × Doc)} :
      HasField Grammar.keys "reserved" (.object ms) w → (key, .list vs) ∈ ms → c ∈ vs →
      RuleIn v c → RuleInGrammar v w

namespace Grammar

open Json.Doc (GrammarWithin RuleWithin ListOf MapOf OptionalOf)

theorem ruleWithin_of_mem_list {room : Nat} {c : Doc} {vs : List Doc}
    (h : ListOf (inside RuleWithin room) (.list vs)) (hc : c ∈ vs) : ∃ r, c.RuleWithin r := by
  obtain ⟨hB, hvs⟩ := h
  obtain ⟨r, -, rfl⟩ := Json.exists_of_inside hB
  exact ⟨r, hvs c hc⟩

theorem ruleWithin_of_ruleInGrammar {room : Nat} {v w : Doc} (h : v.RuleInGrammar w)
    (hw : w.GrammarWithin room) : ∃ r, v.RuleWithin r := by
  obtain ⟨inner, rfl⟩ : ∃ inner, room = inner + 1 := by
    cases room with
    | zero =>
      obtain ⟨hnone, -⟩ := hw
      cases hnone
    | succ inner => exact ⟨inner, rfl⟩
  have hrecord : Doc.RecordOf (some (takenFields inner)) w := hw
  have field {i : Nat} {c : Clause} {key : String} {u : Doc} (hc : (takenFields inner)[i]? = some c)
      (hkey : c.key = key) (hu : Doc.HasField keys key u w) : c.Present u :=
    hrecord.present nodup_keys (List.mem_of_getElem? hc) (hkey ▸ hu)
  suffices ∃ c, v.RuleIn c ∧ ∃ r, c.RuleWithin r by
    obtain ⟨c, hin, r, hc⟩ := this
    exact Rule.ruleWithin_of_ruleIn hin hc
  cases h with
  | rules hf hm hin =>
    obtain ⟨hB, hms⟩ := field (i := 3) rfl rfl hf
    obtain ⟨r, -, rfl⟩ := Json.exists_of_inside hB
    exact ⟨_, hin, r, (hms _ hm).2⟩
  | extras hf hc hin =>
    have hvs := (field (i := 4) rfl rfl hf).resolve_left nofun
    exact ⟨_, hin, ruleWithin_of_mem_list hvs hc⟩
  | externals hf hc hin =>
    have hvs := (field (i := 5) rfl rfl hf).resolve_left nofun
    exact ⟨_, hin, ruleWithin_of_mem_list hvs hc⟩
  | precedences hf hvs hc hin =>
    obtain ⟨hB, hvss⟩ := (field (i := 7) rfl rfl hf).resolve_left nofun
    obtain ⟨r, -, rfl⟩ := Json.exists_of_inside hB
    exact ⟨_, hin, ruleWithin_of_mem_list (hvss _ hvs) hc⟩
  | reserved hf hvs hc hin =>
    obtain ⟨hB, hms⟩ := (field (i := 9) rfl rfl hf).resolve_left nofun
    obtain ⟨r, -, rfl⟩ := Json.exists_of_inside hB
    exact ⟨_, hin, ruleWithin_of_mem_list (hms _ hvs).2 hc⟩

theorem length_of_grammarWithin {room : Nat} {vs : List Doc}
    (h : (Doc.list vs).GrammarWithin room) : 4 ≤ vs.length ∧ vs.length ≤ 12 := by
  cases room with
  | zero =>
    obtain ⟨hnone, -⟩ := h
    cases hnone
  | succ inner =>
    have hmet : Clause.MetInOrder (takenFields inner) vs := Json.Doc.RecordOf.metInOrder h
    exact ⟨hmet.lt_length (i := 3) rfl id, hmet.length_le⟩

theorem ofTables_error_of_rule {v : Doc} {vs : List Doc} {text : String} (hv : v.IsText text)
    (hin : (Doc.list vs).RuleInGrammar v) (hl : vs.length < 1 ∨ 8 < vs.length) :
    ∃ f, ofTables text = .error f := by
  refine (takes_decoder _).decode_error hv fun hw => ?_
  obtain ⟨r, h⟩ := ruleWithin_of_ruleInGrammar hin hw
  have := Rule.length_of_ruleWithin h
  omega

theorem ofTables_error_of_length {vs : List Doc} {text : String} (hv : (Doc.list vs).IsText text)
    (hl : vs.length < 4 ∨ 12 < vs.length) : ∃ f, ofTables text = .error f := by
  refine (takes_decoder _).decode_error hv fun hw => ?_
  have := length_of_grammarWithin hw
  omega

/-! ## Forms of one value -/

/-- Every text that writes a rule or a grammar, at each node by key or by position, is read as the
text of its object is, if no more than 127 brackets are open at any point of it. A list in the place of
a rule or of a grammar that ends before the fields that have to be there, or has items behind the last
field, is always refused. -/
theorem forms_read_alike :
    (∀ (r : Rule) (v : Doc) (text : String), v.WritesRule r → v.IsText text →
      Json.nesting text ≤ 127 →
      (Rule.decoder Json.nestingLimit).decode text = .ok r ∧
        (Rule.decoder Json.nestingLimit).decode r.toJson.text = .ok r) ∧
    (∀ (g : Grammar) (v : Doc) (text : String), v.WritesGrammar g → v.IsText text →
      Json.nesting text ≤ 127 → ofTables text = .ok g ∧ ofTables g.tables = .ok g) ∧
    (∀ (v : Doc) (vs : List Doc) (text : String), v.IsText text → (Doc.list vs).RuleIn v →
      vs.length < 1 ∨ 8 < vs.length →
      ∃ f, (Rule.decoder Json.nestingLimit).decode text = .error f) ∧
    (∀ (v : Doc) (vs : List Doc) (text : String), v.IsText text → (Doc.list vs).RuleInGrammar v →
      vs.length < 1 ∨ 8 < vs.length → ∃ f, ofTables text = .error f) ∧
    (∀ (vs : List Doc) (text : String), (Doc.list vs).IsText text →
      vs.length < 4 ∨ 12 < vs.length → ∃ f, ofTables text = .error f) :=
  ⟨fun _ _ _ h hv hn => Rule.decode_of_writesRule h hv hn,
    fun _ _ _ h hv hn => ofTables_of_writesGrammar h hv hn,
    fun _ _ _ hv hin hl => Rule.decode_error_of_length hv hin hl,
    fun _ _ _ hv hin hl => ofTables_error_of_rule hv hin hl,
    fun _ _ hv hl => ofTables_error_of_length hv hl⟩

def repeatedBlank : Rule := .repeat0 .blank

def repeatedBlanks : Grammar where
  name := "m"
  rules := .ofList [("a", repeatedBlank)]

/-- A grammar by position, with one rule. -/
def oneRuleByPosition (rule : Doc) : Doc :=
  .list [.null, .string (Json.codeUnits "m"), .null, .object [(Json.codeUnits "a", rule)]]

theorem isText_oneRuleByPosition {s : List Char} {rule : Doc} (h : Json.Spells s rule ['}', ']']) :
    (oneRuleByPosition rule).IsText (String.ofList (r#"[null,"m",null,{"a":"#.toList ++ s)) := by
  refine ⟨[], .mk (.refl _) ?_, nofun⟩
  rw [String.toList_ofList]
  refine .list (.item (.first (.refl _)) .null ?_)
  refine .item (.next (.refl _) (.refl _)) (.string (spellsUnits_plain "m" (by decide) _)) ?_
  refine .item (.next (.refl _) (.refl _)) .null ?_
  refine .item (.next (.refl _) (.refl _)) (.object ?_) (.close (.refl _))
  exact .member (.first (.refl _)) (.mk (spellsUnits_plain "a" (by decide) _) (.refl _)
    (.mk (.refl _) h)) (.close (.refl _))

def blankByPosition : Doc := .list [.string (Json.codeUnits "BLANK"), .null]

/-- The outer rule by key and the inner one by position. -/
def repeatedByKey : Doc :=
  .object [(Json.codeUnits "type", .string (Json.codeUnits "REPEAT")),
    (Json.codeUnits "content", blankByPosition)]

theorem writesRule_blankByPosition : blankByPosition.WritesRule .blank := by
  rw [Doc.writesRule_eq]
  refine .byPosition (.item rfl (.item .null (.rest ?_)))
  iterate 6 refine List.forall_mem_cons.mpr ⟨rfl, ?_⟩
  exact List.forall_mem_nil _

theorem writesRule_repeatedByKey : repeatedByKey.WritesRule repeatedBlank := by
  rw [Doc.writesRule_eq]
  refine .byKey (.set id rfl (.unset rfl (.unset rfl ?_)))
  refine .set nofun (.some writesRule_blankByPosition) ?_
  exact .unset rfl (.unset rfl (.unset rfl (.unset rfl .nil)))

theorem writesGrammar_repeatedByKey :
    (oneRuleByPosition repeatedByKey).WritesGrammar repeatedBlanks := by
  refine .byPosition (.item .null (.item rfl (.item .null (.item ?_ (.rest ?_)))))
  · exact .mk .rfl (.cons (.mk writesRule_repeatedByKey) .nil)
  · iterate 8 refine List.forall_mem_cons.mpr ⟨rfl, ?_⟩
    exact List.forall_mem_nil _

theorem spells_blankByPosition (t : List Char) :
    Json.Spells (r#"["BLANK",null]"#.toList ++ t) blankByPosition t :=
  .list (.item (.first (.refl _)) (.string (spellsUnits_plain "BLANK" (by decide) _))
    (.item (.next (.refl _) (.refl _)) .null (.close (.refl _))))

theorem spells_repeatedByKey (t : List Char) :
    Json.Spells (r#"{"type":"REPEAT","content":["BLANK",null]}"#.toList ++ t) repeatedByKey t :=
  .object (.member (.first (.refl _)) (.mk (spellsUnits_plain "type" (by decide) _) (.refl _)
      (.mk (.refl _) (.string (spellsUnits_plain "REPEAT" (by decide) _))))
    (.member (.next (.refl _) (.refl _)) (.mk (spellsUnits_plain "content" (by decide) _) (.refl _)
      (.mk (.refl _) (spells_blankByPosition _))) (.close (.refl _))))

theorem spells_emptyList (t : List Char) : Json.Spells ('[' :: ']' :: t) (.list []) t :=
  .list (.close (.refl _))

def mixedForms : String := r#"[null,"m",null,{"a":{"type":"REPEAT","content":["BLANK",null]}}]"#

theorem forms_read_alike_repeatedBlanks :
    ((Rule.decoder Json.nestingLimit).decode r#"["BLANK",null]"# = .ok .blank ∧
      (Rule.decoder Json.nestingLimit).decode Rule.blank.toJson.text = .ok .blank) ∧
    (ofTables mixedForms = .ok repeatedBlanks ∧
      ofTables repeatedBlanks.tables = .ok repeatedBlanks) ∧
    (∃ f, (Rule.decoder Json.nestingLimit).decode "[]" = .error f) ∧
    (∃ f, ofTables r#"[null,"m",null,{"a":[]}]"# = .error f) ∧ ∃ f, ofTables "[]" = .error f := by
  obtain ⟨hrule, hgrammar, hruleLength, hinner, hlength⟩ := forms_read_alike
  have hblank : blankByPosition.IsText r#"["BLANK",null]"# :=
    ⟨[], .mk (.refl _) (spells_blankByPosition []), nofun⟩
  have hempty : (Doc.list []).IsText "[]" := ⟨[], .mk (.refl _) (spells_emptyList []), nofun⟩
  have hin : (Doc.list []).RuleInGrammar (oneRuleByPosition (.list [])) :=
    .rules (@Doc.HasField.item _ _ _ _ 3 rfl rfl) List.mem_cons_self .self
  have hrepeated : (oneRuleByPosition repeatedByKey).IsText mixedForms :=
    isText_oneRuleByPosition (spells_repeatedByKey _)
  refine ⟨?_, ?_, ?_, ?_, ?_⟩
  · exact hrule _ _ _ writesRule_blankByPosition hblank (by rw [hblank.nesting_eq]; decide)
  · exact hgrammar _ _ _ writesGrammar_repeatedByKey hrepeated
      (by rw [hrepeated.nesting_eq]; decide)
  · exact hruleLength _ _ _ hempty .self (.inl Nat.zero_lt_one)
  · exact hinner _ _ _ (isText_oneRuleByPosition (spells_emptyList _)) hin (.inl Nat.zero_lt_one)
  · exact hlength _ _ hempty (.inl (by decide))

end Grammar

end GrammarTables
