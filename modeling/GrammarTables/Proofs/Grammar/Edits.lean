import GrammarTables.Proofs.Grammar.Taken
import GrammarTables.Proofs.Rule.Edits
import Mathlib.Logic.Relation

/-!
# Edits of tables

Edits of the text of a grammar's tables that leave it the tables of the same grammar: the text may be
written in another way, and its document may be edited at any depth, as long as no field gets another
value.
-/

namespace GrammarTables.Grammar

open Json (Clause Doc Keeps ItemEdit MapEdit RecordEdit Replaced inside nestingLimit)

/-- The keys of the fields that may be null. -/
def optionalKeys : List String :=
  ["$schema", "inherits", "extras", "externals", "inline", "precedences", "conflicts", "reserved",
    "word", "supertypes"]

/-- How deep brackets may nest in a rule of a grammar: inside the grammar and its map of rules. -/
def ruleRoom : Nat := nestingLimit - 2

/-- An edit of the rules. A name may also get an earlier rule, which does not count. -/
inductive RulesEdit : Doc → Doc → Prop where
  | map {v w : Doc} : MapEdit Rule.Edit v w → RulesEdit v w
  | earlier {front back : List (List Nat × Doc)} {key : List Nat} {w : Doc} {text : String}
      {r : Rule} : key ∈ back.map Prod.fst → w.IsText text →
      (Rule.decoder ruleRoom).decode text = .ok r →
      RulesEdit (.object (front ++ back)) (.object (front ++ (key, w) :: back))

/-- An edit of a grammar itself, or of a section of it. -/
inductive Edit : Doc → Doc → Prop where
  | record {v w : Doc} : RecordEdit keys optionalKeys v w → Edit v w
  | rules {v w v' w' : Doc} : RulesEdit v w → Replaced keys "rules" v w v' w' → Edit v' w'
  | extras {v w v' w' : Doc} : ItemEdit Rule.Edit v w → Replaced keys "extras" v w v' w' →
      Edit v' w'
  | externals {v w v' w' : Doc} : ItemEdit Rule.Edit v w → Replaced keys "externals" v w v' w' →
      Edit v' w'
  | precedences {v w v' w' : Doc} : ItemEdit (ItemEdit Rule.Edit) v w →
      Replaced keys "precedences" v w v' w' → Edit v' w'
  | reserved {v w v' w' : Doc} : MapEdit (ItemEdit Rule.Edit) v w →
      Replaced keys "reserved" v w v' w' → Edit v' w'

/-- A text is respelled, with other blanks between its parts and other escapes in its strings, or its
document is edited. -/
inductive TextEdit (text edited : String) : Prop where
  | respelled {v : Doc} : v.IsText text → v.IsText edited → TextEdit text edited
  | edited {v w : Doc} : v.IsText text → w.IsText edited → Edit v w → TextEdit text edited

variable {v w : Doc}

/-! ## Sections -/

section Keeps

variable {E : Doc → Doc → Prop} (hE : ∀ room, Keeps E (Doc.RuleWithin room)) (room : Nat)
include hE

theorem keeps_ruleMap : Keeps (MapEdit E) (Doc.MapOf (inside Doc.RuleWithin room)) :=
  .map (Json.forall_mem_inside fun r _ => hE r)

theorem keeps_ruleList : Keeps (ItemEdit E) (Doc.ListOf (inside Doc.RuleWithin room)) :=
  .list (Json.forall_mem_inside fun r _ => hE r)

theorem keeps_ruleLists : ∀ B ∈ takenFields.rules room, Keeps (ItemEdit E) B :=
  Json.forall_mem_inside fun r _ => keeps_ruleList hE r

end Keeps

theorem keeps_edit (room : Nat) : Keeps Rule.Edit (Doc.RuleWithin room) :=
  fun _ _ h => h.ruleWithin room

theorem keeps_denotesList_rule (rs : List Rule) :
    Keeps (ItemEdit Rule.Edit) (Doc.DenotesList Doc.DenotesRule · rs) :=
  .denotesList (fun r _ _ h => h.denotesRule r) rs

theorem RulesEdit.taken (h : RulesEdit v w)
    (hv : Doc.MapOf (inside Doc.RuleWithin (ruleRoom + 1)) v) :
    Doc.MapOf (inside Doc.RuleWithin (ruleRoom + 1)) w := by
  cases h with
  | map h => exact keeps_ruleMap keeps_edit _ _ _ h hv
  | earlier hkey hw hr =>
    -- the earlier value has to be a rule only because it is read before it is dropped
    have htaken := ((Rule.takes_decoder ruleRoom).decode_iff hw).mp ⟨_, hr⟩
    exact Json.mapOf_insert hkey (fun B hB => Option.mem_some.mp hB ▸ htaken) hv

theorem RulesEdit.denotes (h : RulesEdit v w) {rs : NameMap Rule}
    (hv : v.DenotesMap Doc.DenotesRule rs) : w.DenotesMap Doc.DenotesRule rs := by
  cases h with
  | map h => exact Keeps.denotesMap (fun r _ _ h => h.denotesRule r) rs _ _ h hv
  | earlier hkey => exact Json.denotesMap_insert hkey hv

/-! ## A grammar stays one -/

theorem fit_takenFields (room : Nat) : Clause.Fit keys optionalKeys (takenFields room) where
  keys := rfl
  nodup := nodup_keys
  null := by
    refine List.forall_mem_cons.mpr ⟨fun _ _ => .inl rfl, ?_⟩
    refine List.forall_mem_cons.mpr ⟨fun _ => False.elim, ?_⟩
    refine List.forall_mem_cons.mpr ⟨fun _ _ => .inl rfl, ?_⟩
    refine List.forall_mem_cons.mpr ⟨fun _ => False.elim, ?_⟩
    iterate 7 refine List.forall_mem_cons.mpr ⟨fun _ _ => .inl rfl, ?_⟩
    exact List.forall_mem_singleton.mpr fun _ _ => .inl rfl

theorem Edit.grammarWithin (h : Edit v w) (hv : v.GrammarWithin nestingLimit) :
    w.GrammarWithin nestingLimit := by
  have fit := fit_takenFields (ruleRoom + 1)
  cases h with
  | record h => exact fit.record _ _ h hv
  | rules h hr => exact fit.record_replaced hr (i := 3) rfl h.taken hv
  | extras h hr =>
    exact fit.record_replaced hr (i := 4) rfl
      (Json.optionalOf_imp (keeps_ruleList keeps_edit _ _ _ h) (Json.ne_null_of_itemEdit h)) hv
  | externals h hr =>
    exact fit.record_replaced hr (i := 5) rfl
      (Json.optionalOf_imp (keeps_ruleList keeps_edit _ _ _ h) (Json.ne_null_of_itemEdit h)) hv
  | precedences h hr =>
    have hlists := Keeps.list (keeps_ruleLists keeps_edit (ruleRoom + 1)) _ _ h
    exact fit.record_replaced hr (i := 7) rfl
      (Json.optionalOf_imp hlists (Json.ne_null_of_itemEdit h)) hv
  | reserved h hr =>
    have hmap := Keeps.map (keeps_ruleLists keeps_edit (ruleRoom + 1)) _ _ h
    exact fit.record_replaced hr (i := 9) rfl
      (Json.optionalOf_imp hmap (Json.ne_null_of_mapEdit h)) hv

/-! ## A grammar stays the same -/

theorem fit_clauses (g : Grammar) : Clause.Fit keys optionalKeys g.clauses where
  keys := rfl
  nodup := nodup_keys
  null := by
    refine List.forall_mem_cons.mpr ⟨fun _ => Json.denotesOptional_null, ?_⟩
    refine List.forall_mem_cons.mpr ⟨fun _ => False.elim, ?_⟩
    refine List.forall_mem_cons.mpr ⟨fun _ => Json.denotesOptional_null, ?_⟩
    refine List.forall_mem_cons.mpr ⟨fun _ => False.elim, ?_⟩
    iterate 7 refine List.forall_mem_cons.mpr ⟨fun _ => Json.denotesOptional_null, ?_⟩
    exact List.forall_mem_singleton.mpr fun _ => Json.denotesOptional_null

theorem Edit.denotesGrammar (h : Edit v w) {g : Grammar} (hv : v.DenotesGrammar g) :
    w.DenotesGrammar g := by
  have fit := fit_clauses g
  cases h with
  | record h => exact fit.denotesRecord _ _ h hv
  | rules h hr => exact fit.denotesRecord_replaced hr (i := 3) rfl h.denotes hv
  | extras h hr =>
    exact fit.denotesRecord_replaced hr (i := 4) rfl
      (Json.denotesOptional_imp (keeps_denotesList_rule · _ _ h) (Json.ne_null_of_itemEdit h)) hv
  | externals h hr =>
    exact fit.denotesRecord_replaced hr (i := 5) rfl
      (Json.denotesOptional_imp (keeps_denotesList_rule · _ _ h) (Json.ne_null_of_itemEdit h)) hv
  | precedences h hr =>
    have hlists := fun ps => Keeps.denotesList keeps_denotesList_rule ps _ _ h
    exact fit.denotesRecord_replaced hr (i := 7) rfl
      (Json.denotesOptional_imp hlists (Json.ne_null_of_itemEdit h)) hv
  | reserved h hr =>
    have hmap := fun rs => Keeps.denotesMap keeps_denotesList_rule rs _ _ h
    exact fit.denotesRecord_replaced hr (i := 9) rfl
      (Json.denotesOptional_imp hmap (Json.ne_null_of_mapEdit h)) hv

/-! ## Texts -/

variable {text edited : String} {g : Grammar}

theorem ofTables_of_textEdit (h : ofTables text = .ok g) (he : TextEdit text edited) :
    ofTables edited = .ok g := by
  obtain ⟨u, hu, htaken, hg⟩ := ofTables_eq_ok.mp h
  cases he with
  | respelled hv hw =>
    obtain rfl := hu.unique hv
    exact ofTables_eq_ok.mpr ⟨u, hw, htaken, hg⟩
  | edited hv hw hE =>
    obtain rfl := hu.unique hv
    exact ofTables_eq_ok.mpr ⟨_, hw, hE.grammarWithin htaken, hE.denotesGrammar hg⟩

/-- However often the tables of a grammar are edited, they are tables of this grammar. -/
theorem ofTables_of_edits (h : ofTables text = .ok g)
    (he : Relation.ReflTransGen TextEdit text edited) : ofTables edited = .ok g := by
  induction he with
  | refl => exact h
  | tail _ he ih => exact ofTables_of_textEdit ih he

/-! ## Tables with a member more -/

/-- A text without quotes, backslashes and control characters may stand in quotes as it is. -/
theorem spellsUnits_plain (text : String)
    (h : text.toList.all fun c => c != '"' && c != '\\' && !Json.isControl c) (t : List Char) :
    Json.SpellsUnits (text.toList ++ '"' :: t) (Json.codeUnits text) t := by
  unfold Json.codeUnits
  generalize text.toList = cs at h
  induction cs with
  | nil => exact .close
  | cons c cs ih =>
    simp only [List.all_cons, Bool.and_eq_true, bne_iff_ne] at h
    obtain ⟨⟨⟨hq, hb⟩, hc⟩, hcs⟩ := h
    exact .plain hq hb (by simpa [Json.isControl] using hc) (ih hcs)

/-- A document with one rule, which has the members. -/
def oneRule (ms : List (List Nat × Doc)) : Doc :=
  .object [(Json.codeUnits "name", .string []),
    (Json.codeUnits "rules", .object [(Json.codeUnits "a", .object ms)])]

theorem isText_oneRule {s t : List Char} {ms : List (List Nat × Doc)}
    (h : Json.SpellsMembers true s ms ('}' :: '}' :: t)) (ht : ∀ c ∈ t, c ∈ Json.blanks) :
    (oneRule ms).IsText (String.ofList (r#"{"name":"","rules":{"a":{"#.toList ++ s)) := by
  refine ⟨t, .mk (.refl _) ?_, ht⟩
  rw [String.toList_ofList]
  refine .object (.member (.first (.refl _)) (.mk (spellsUnits_plain "name" (by decide) _) (.refl _)
    (.mk (.refl _) (.string .close))) ?_)
  refine .member (.next (.refl _) (.refl _)) (.mk (spellsUnits_plain "rules" (by decide) _) (.refl _)
    (.mk (.refl _) (.object ?_))) (.close (.refl _))
  exact .member (.first (.refl _)) (.mk (spellsUnits_plain "a" (by decide) _) (.refl _)
    (.mk (.refl _) (.object h))) (.close (.refl _))

def plainTables : String := r#"{"name":"","rules":{"a":{"type":"BLANK"}}}"#

/-- The same tables, with a member more in the rule, an escape and some blanks. -/
def paddedTables : String := r#"{"name":"","rules":{"a":{"x":[[null] ],"\u0074ype" :"BLANK"}}} "#

def kindMember : List Nat × Doc := (Json.codeUnits "type", .string (Json.codeUnits "BLANK"))

theorem isText_plainTables : (oneRule [kindMember]).IsText plainTables := by
  have members : Json.SpellsMembers true _ [kindMember] ['}', '}'] :=
    .member (.first (.refl _)) (.mk (spellsUnits_plain "type" (by decide) _) (.refl _)
      (.mk (.refl _) (.string (spellsUnits_plain "BLANK" (by decide) _)))) (.close (.refl _))
  exact isText_oneRule members nofun

theorem isText_paddedTables :
    (oneRule [(Json.codeUnits "x", .list [.list [.null]]), kindMember]).IsText paddedTables := by
  have hblank : ∀ c ∈ [' '], c ∈ Json.blanks := List.forall_mem_singleton.mpr (by decide)
  have blank (s : List Char) : Json.Gap (' ' :: s) s := ⟨[' '], hblank, rfl⟩
  have digit (n : Nat) (hn : n < 16) : Json.IsHexDigit n.digitChar n := ⟨hn, .inl rfl⟩
  have hex (s : List Char) : Json.SpellsHex ('0' :: '0' :: '7' :: '4' :: s) 0x74 s :=
    .mk (digit 0 (by decide)) (digit 0 (by decide)) (digit 7 (by decide)) (digit 4 (by decide))
  have kind : Json.SpellsMembers false _ [kindMember] ['}', '}', ' '] :=
    .member (.next (.refl _) (.refl _)) (.mk (.unit (hex _) (spellsUnits_plain "ype" (by decide) _))
      (blank _) (.mk (.refl _) (.string (spellsUnits_plain "BLANK" (by decide) _))))
      (.close (.refl _))
  have inner (s : List Char) : Json.Spells _ (.list [.null]) s :=
    .list (.item (.first (.refl _)) .null (.close (.refl _)))
  have members : Json.SpellsMembers true _
      [(Json.codeUnits "x", .list [.list [.null]]), kindMember] ['}', '}', ' '] :=
    .member (.first (.refl _)) (.mk (spellsUnits_plain "x" (by decide) _) (.refl _)
      (.mk (.refl _) (.list (.item (.first (.refl _)) (inner _) (.close (blank _)))))) kind
  exact isText_oneRule members hblank

theorem edit_plainTables :
    Edit (oneRule [kindMember]) (oneRule [(Json.codeUnits "x", .list [.list [.null]]), kindMember]) := by
  have rule : Rule.Edit (.object [kindMember])
      (.object [(Json.codeUnits "x", .list [.list [.null]]), kindMember]) :=
    .record (@RecordEdit.unknown _ _ [] [kindMember] "x" _ (by decide))
  have rules : MapEdit Rule.Edit (.object [(Json.codeUnits "a", .object [kindMember])])
      (.object [(Json.codeUnits "a",
        .object [(Json.codeUnits "x", .list [.list [.null]]), kindMember])]) :=
    @MapEdit.value _ [] [] _ _ _ rule
  exact .rules (.map rules)
    (@Replaced.member _ _ _ _ [(Json.codeUnits "name", .string [])] [])

theorem ofTables_of_edits_paddedTables :
    ofTables plainTables = .ok { name := "", rules := .ofList [("a", { kind := .blank })] } ∧
      Relation.ReflTransGen TextEdit plainTables paddedTables ∧
      ofTables paddedTables = .ok { name := "", rules := .ofList [("a", { kind := .blank })] } := by
  have h : ofTables plainTables =
    .ok { name := "", rules := .ofList [("a", { kind := .blank })] } := by decide +kernel
  have he : Relation.ReflTransGen TextEdit plainTables paddedTables :=
    .single (.edited isText_plainTables isText_paddedTables edit_plainTables)
  exact ⟨h, he, ofTables_of_edits h he⟩

end GrammarTables.Grammar
