import GrammarTables.Proofs.Grammar.Forms
import GrammarTables.Proofs.Rule.Values

/-!
# Values in grammar tables

Wherever in a grammar a rule has a value, a number there is taken as the level that it is, or the
grammar is refused. And every value in a grammar that is read stands in its text: each level as a
number that is this level, and each text as a string.
-/

namespace GrammarTables

open Json (Doc ItemEdit Keeps Numeral Replaced SpellsNumber codeUnits nestingLimit)

/-- Documents of a rule that differ in a value, at some depth. -/
def Rule.Revalued (v w c d : Doc) : Prop := ∃ path, ValueEdit v w path c d

theorem Rule.Revalued.exists_ruleIn {v w c d : Doc} (h : Revalued v w c d) :
    ∃ u : Doc, u.RuleIn d ∧ Doc.HasField keys "value" w u := by
  obtain ⟨_, h⟩ := h
  exact h.exists_ruleIn

namespace Grammar

/-- The document of a grammar, and the same with `w` for the value `v` of some rule in it. -/
inductive ValueEdit (v w : Doc) : Doc → Doc → Prop where
  | rules {front back : List (List Nat × Doc)} {key : List Nat} {c d v' w' : Doc} :
      Rule.Revalued v w c d →
      Replaced keys "rules" (.object (front ++ (key, c) :: back))
        (.object (front ++ (key, d) :: back)) v' w' →
      ValueEdit v w v' w'
  | extras {c d v' w' : Doc} : ItemEdit (Rule.Revalued v w) c d →
      Replaced keys "extras" c d v' w' → ValueEdit v w v' w'
  | externals {c d v' w' : Doc} : ItemEdit (Rule.Revalued v w) c d →
      Replaced keys "externals" c d v' w' → ValueEdit v w v' w'
  | precedences {c d v' w' : Doc} : ItemEdit (ItemEdit (Rule.Revalued v w)) c d →
      Replaced keys "precedences" c d v' w' → ValueEdit v w v' w'
  | reserved {front back : List (List Nat × Doc)} {key : List Nat} {c d v' w' : Doc} :
      ItemEdit (Rule.Revalued v w) c d →
      Replaced keys "reserved" (.object (front ++ (key, c) :: back))
        (.object (front ++ (key, d) :: back)) v' w' →
      ValueEdit v w v' w'

namespace ValueEdit

variable {v w v' w' : Doc}

theorem exists_ruleInGrammar (h : ValueEdit v w v' w') :
    ∃ u : Doc, u.RuleInGrammar w' ∧ Doc.HasField Rule.keys "value" w u := by
  have last {α : Type} {front back : List α} {a : α} : a ∈ front ++ a :: back :=
    List.mem_append_cons_self
  cases h with
  | rules h hr =>
    obtain ⟨u, hin, hvalue⟩ := h.exists_ruleIn
    exact ⟨u, .rules (Doc.hasField_of_replaced hr) last hin, hvalue⟩
  | extras h hr =>
    obtain ⟨h⟩ := h
    obtain ⟨u, hin, hvalue⟩ := h.exists_ruleIn
    exact ⟨u, .extras (Doc.hasField_of_replaced hr) last hin, hvalue⟩
  | externals h hr =>
    obtain ⟨h⟩ := h
    obtain ⟨u, hin, hvalue⟩ := h.exists_ruleIn
    exact ⟨u, .externals (Doc.hasField_of_replaced hr) last hin, hvalue⟩
  | precedences h hr =>
    obtain ⟨⟨h⟩⟩ := h
    obtain ⟨u, hin, hvalue⟩ := h.exists_ruleIn
    exact ⟨u, .precedences (Doc.hasField_of_replaced hr) last last hin, hvalue⟩
  | reserved h hr =>
    obtain ⟨h⟩ := h
    obtain ⟨u, hin, hvalue⟩ := h.exists_ruleIn
    exact ⟨u, .reserved (Doc.hasField_of_replaced hr) last last hin, hvalue⟩

theorem grammarWithin (h : ValueEdit v w v' w') (hw : w.IsValue)
    (hv : v'.GrammarWithin nestingLimit) : w'.GrammarWithin nestingLimit := by
  have fit := fit_takenFields (ruleRoom + 1)
  have hE (room : Nat) : Keeps (Rule.Revalued v w) (Doc.RuleWithin room) :=
    fun _ _ ⟨_, hedit⟩ => hedit.ruleWithin hw room
  cases h with
  | rules h hr =>
    exact fit.record_replaced hr (i := 3) rfl (keeps_ruleMap hE _ _ _ (.value h)) hv
  | extras h hr =>
    exact fit.record_replaced hr (i := 4) rfl
      (Json.optionalOf_imp (keeps_ruleList hE _ _ _ h) (Json.ne_null_of_itemEdit h)) hv
  | externals h hr =>
    exact fit.record_replaced hr (i := 5) rfl
      (Json.optionalOf_imp (keeps_ruleList hE _ _ _ h) (Json.ne_null_of_itemEdit h)) hv
  | precedences h hr =>
    have hlists := Keeps.list (keeps_ruleLists hE (ruleRoom + 1)) _ _ h
    exact fit.record_replaced hr (i := 7) rfl
      (Json.optionalOf_imp hlists (Json.ne_null_of_itemEdit h)) hv
  | reserved h hr =>
    refine fit.record_replaced hr (i := 9) rfl (Json.optionalOf_imp (fun hc => ?_) nofun) hv
    exact Keeps.map (keeps_ruleLists hE (ruleRoom + 1)) _ _ (.value h) hc

end ValueEdit

variable {text edited : String} {g : Grammar} {v w v' w' : Doc}

/-- With another value for a rule in it, a grammar is read just if the value is. -/
theorem ofTables_valueEdit (h : ValueEdit v w v' w') (hnull : w ≠ .null) (hv : v'.IsText text)
    (hw : w'.IsText edited) (hg : ofTables text = .ok g) :
    (∃ g', ofTables edited = .ok g') ↔ ∃ a, w.ReadsValue a := by
  have hread {u : Doc} {s : String} (hu : u.IsText s) :=
    (takes_decoder nestingLimit).decode_iff hu
  constructor
  · intro hg'
    obtain ⟨u, hin, hfield⟩ := h.exists_ruleInGrammar
    obtain ⟨room, hu⟩ := ruleWithin_of_ruleInGrammar hin ((hread hw).mp hg')
    exact ((Rule.optionalOf_isValue hu hfield).resolve_left hnull).exists_reads
  · rintro ⟨a, ha⟩
    exact (hread hw).mpr (h.grammarWithin ha.isValue ((hread hv).mp ⟨g, hg⟩))

/-! ## Where values come from -/

/-- The grammar has the rule in one of its sections. -/
def HasBody (g : Grammar) (body : Rule) : Prop :=
  (∃ place, body ∈ g.bodiesIn place) ∨ body ∈ g.externals.getD []

/-- Every rule of a grammar is what some document denotes that stands where a rule has to be. -/
theorem exists_of_hasBody {body : Rule} (hg : v.DenotesGrammar g) (hbody : g.HasBody body) :
    ∃ c : Doc, c.DenotesRule body ∧ ∀ u : Doc, u.RuleIn c → u.RuleInGrammar v := by
  have list {xs : Option (List Rule)} (h : body ∈ xs.getD []) : ∃ rs, xs = some rs ∧ body ∈ rs := by
    cases xs with
    | none => cases h
    | some rs => exact ⟨rs, rfl, h⟩
  rcases hbody with ⟨place, hbody⟩ | hbody
  · cases place with
    | rules =>
      obtain ⟨e, he, rfl⟩ := List.mem_map.mp hbody
      obtain ⟨c, hfield, ⟨-, last⟩⟩ := hg.exists_field (List.mem_of_getElem? (i := 3) rfl) id
      obtain ⟨d, hlast, hd⟩ := last e he
      exact ⟨d, hd, fun u hin => .rules hfield hlast.mem hin⟩
    | extras =>
      obtain ⟨rs, hrs, hbody⟩ := list hbody
      obtain ⟨c, hfield, ⟨hvs⟩⟩ := Json.Doc.DenotesRecord.exists_field_of_some hg (i := 4) rfl hrs
      obtain ⟨d, hmem, hd⟩ := Json.exists_mem_of_forall₂ hvs hbody
      exact ⟨d, hd, fun u hin => .extras hfield hmem hin⟩
    | precedences =>
      obtain ⟨rs, hrs, hbody⟩ := List.mem_flatten.mp hbody
      cases hx : g.precedences with
      | none => rw [hx] at hrs; cases hrs
      | some rss =>
        rw [hx] at hrs
        obtain ⟨c, hfield, ⟨hvss⟩⟩ := Json.Doc.DenotesRecord.exists_field_of_some hg (i := 7) rfl hx
        obtain ⟨_, hlist, ⟨hvs⟩⟩ := Json.exists_mem_of_forall₂ hvss hrs
        obtain ⟨d, hmem, hd⟩ := Json.exists_mem_of_forall₂ hvs hbody
        exact ⟨d, hd, fun u hin => .precedences hfield hlist hmem hin⟩
    | reserved =>
      obtain ⟨e, he, hbody⟩ := List.mem_flatMap.mp hbody
      cases hx : g.reserved with
      | none => rw [hx] at he; cases he
      | some m =>
        rw [hx] at he
        obtain ⟨c, hfield, ⟨-, last⟩⟩ := Json.Doc.DenotesRecord.exists_field_of_some hg (i := 9) rfl hx
        obtain ⟨_, hlast, ⟨hvs⟩⟩ := last e he
        obtain ⟨d, hmem, hd⟩ := Json.exists_mem_of_forall₂ hvs hbody
        exact ⟨d, hd, fun u hin => .reserved hfield hlast.mem hmem hin⟩
  · obtain ⟨rs, hrs, hbody⟩ := list hbody
    obtain ⟨c, hfield, ⟨hvs⟩⟩ := Json.Doc.DenotesRecord.exists_field_of_some hg (i := 5) rfl hrs
    obtain ⟨d, hmem, hd⟩ := Json.exists_mem_of_forall₂ hvs hbody
    exact ⟨d, hd, fun u hin => .externals hfield hmem hin⟩

/-- Every value in a grammar, at any depth of any rule, is what is read for it in the document. -/
theorem exists_value_of_occurs {body node : Rule} {a : Rule.Value} (hv : v.IsText text)
    (hg : ofTables text = .ok g) (hbody : g.HasBody body) (hnode : node.Occurs body)
    (ha : node.value = some a) : ∃ u x : Doc, u.RuleInGrammar v ∧
      Doc.HasField Rule.keys "value" x u ∧ x.ReadsValue a := by
  obtain ⟨v, hv', htaken, hdenotes⟩ := ofTables_eq_ok.mp hg
  obtain rfl := hv.unique hv'
  obtain ⟨c, hc, hplace⟩ := exists_of_hasBody hdenotes hbody
  obtain ⟨u, hin, hu⟩ := Rule.exists_ruleIn_of_occurs hnode hc
  obtain ⟨room, hroom⟩ := ruleWithin_of_ruleInGrammar (hplace u hin) htaken
  obtain ⟨x, hfield, hx⟩ := Rule.exists_readsValue hu hroom ha
  exact ⟨u, x, hplace u hin, hfield, hx⟩

/-! ## Numbers and strings in the place of values -/

end Grammar

/-- In the place of a value, at any depth of a rule or of a grammar, the document is read just as the
values with the property. If there are none, the text is refused. -/
structure Json.Doc.IsReadAs (x : Doc) (P : Rule.Value → Prop) : Prop where
  rule {v w w' : Doc} {path : List Nat} {text edited : String} {r : Rule} :
    Rule.ValueEdit v x path w w' → w.IsText text → w'.IsText edited →
    (Rule.decoder nestingLimit).decode text = .ok r →
    ∀ r', (Rule.decoder nestingLimit).decode edited = .ok r' ↔
      ∃ a, P a ∧ r' = r.setValueAt (some a) path
  grammar {v w w' : Doc} {text edited : String} {g : Grammar} :
    Grammar.ValueEdit v x w w' → w.IsText text → w'.IsText edited →
    Grammar.ofTables text = .ok g → ((∃ g', Grammar.ofTables edited = .ok g') ↔ ∃ a, P a)

theorem Json.Doc.isReadAs {x : Doc} (hnull : x ≠ .null) {P : Rule.Value → Prop}
    (hP : ∀ a, x.ReadsValue a ↔ P a) : x.IsReadAs P where
  rule h hw hw' hr r' := by simp only [Rule.decode_valueEdit h hnull hw hw' hr, hP]
  grammar h hw hw' hg := by simp only [Grammar.ofTables_valueEdit h hnull hw hw' hg, hP]

namespace Grammar

/-- A number in the place of a value, however long, is read just if it is a level, and as this level;
every other number makes the text no rule and no grammar. A string is read as its text. And where a
grammar is read, each level in it stands in the text as a number that is this level, and each text as
a string. -/
theorem values_read_exactly :
    (∀ (token : String) (n : Numeral), SpellsNumber token.toList n [] →
      (Doc.number n).IsReadAs fun a =>
        ∃ k, n.IsLevel token k ∧ ∃ level : Int32, level.toInt = k ∧ a = .level level) ∧
    (∀ units, (Doc.string units).IsReadAs fun a => ∃ s, codeUnits s = units ∧ a = .text s) ∧
    ∀ (text : String) (g : Grammar) (w : Doc) (body node : Rule), w.IsText text →
      ofTables text = .ok g → g.HasBody body → node.Occurs body →
      (∀ level, node.value = some (.level level) → ∃ (u : Doc) (n : Numeral), u.RuleInGrammar w ∧
        Doc.HasField Rule.keys "value" (.number n) u ∧ n.Denotes level.toInt ∧
          (n.negative → level.toInt ≠ 0)) ∧
      ∀ s, node.value = some (.text s) → ∃ u : Doc, u.RuleInGrammar w ∧
        Doc.HasField Rule.keys "value" (.string (codeUnits s)) u := by
  refine ⟨fun token n hn => ?_, fun units => ?_, fun text g w body node hw hg hbody hnode => ⟨?_, ?_⟩⟩
  · exact Doc.isReadAs (x := .number n) nofun fun _ => Doc.readsValue_number hn
  · exact Doc.isReadAs (x := .string units) nofun fun _ => Doc.readsValue_string
  · intro level hlevel
    obtain ⟨u, x, hin, hfield, hx⟩ := exists_value_of_occurs hw hg hbody hnode hlevel
    obtain ⟨n, rfl, hn⟩ := Doc.readsValue_level.mp hx
    obtain ⟨hdenotes, -, hsign⟩ := Numeral.value_eq_whole_iff.mp hn
    refine ⟨u, n, hin, hfield, hdenotes, fun hnegative => ?_⟩
    have := (hsign hnegative).1
    rw [hdenotes.2.2, if_pos hnegative]
    omega
  · intro s hs
    obtain ⟨u, x, hin, hfield, hx⟩ := exists_value_of_occurs hw hg hbody hnode hs
    obtain rfl := Doc.readsValue_text.mp hx
    exact ⟨u, hin, hfield⟩

/-- The fields of a rule with a value. -/
def valued (x : Doc) : List (List Nat × Doc) := [kindMember, (codeUnits "value", x)]

theorem spellsMembers_valued {s t : List Char} {x : Doc} (h : Json.Spells s x ('}' :: t)) :
    Json.SpellsMembers true (r#""type":"BLANK","value":"#.toList ++ s) (valued x) t :=
  .member (.first (.refl _)) (.mk (spellsUnits_plain "type" (by decide) _) (.refl _)
      (.mk (.refl _) (.string (spellsUnits_plain "BLANK" (by decide) _))))
    (.member (.next (.refl _) (.refl _)) (.mk (spellsUnits_plain "value" (by decide) _) (.refl _)
      (.mk (.refl _) h)) (.close (.refl _)))

theorem isText_valued {s : List Char} {x : Doc} (h : Json.Spells s x ['}']) :
    (Doc.object (valued x)).IsText
      (String.ofList (r#"{"type":"BLANK","value":"#.toList ++ s)) := by
  refine ⟨[], .mk (.refl _) ?_, nofun⟩
  rw [String.toList_ofList]
  exact .object (spellsMembers_valued h)

theorem valueEdit_valued (x y : Doc) :
    Rule.ValueEdit x y [] (.object (valued x)) (.object (valued y)) :=
  .here (@Replaced.member _ _ _ _ [kindMember] [])

/-- The least level, and the number behind the greatest one. -/
def leastLevel : Numeral := ⟨true, [2, 1, 4, 7, 4, 8, 3, 6, 4, 8], [], none⟩

def tooLarge : Numeral := ⟨false, [2, 1, 4, 7, 4, 8, 3, 6, 4, 8], [], none⟩

theorem spells_leastLevel (t : List Char) :
    SpellsNumber ("-2147483648".toList ++ t) leastLevel t :=
  .mk .minus ⟨nofun, by decide, rfl⟩ nofun .absent .absent

theorem spells_tooLarge (t : List Char) : SpellsNumber ("2147483648".toList ++ t) tooLarge t :=
  .mk .absent ⟨nofun, by decide, rfl⟩ nofun .absent .absent

theorem valueEdit_oneRule (x y : Doc) :
    ValueEdit x y (oneRule (valued x)) (oneRule (valued y)) :=
  @ValueEdit.rules _ _ [] [] (codeUnits "a") _ _ _ _ ⟨[], valueEdit_valued x y⟩
    (@Replaced.member _ _ _ _ [(codeUnits "name", .string [])] [])

theorem isText_oneRule_valued {s : List Char} {x : Doc} (h : Json.Spells s x ['}', '}', '}']) :
    (oneRule (valued x)).IsText (String.ofList
      (r#"{"name":"","rules":{"a":{"#.toList ++ (r#""type":"BLANK","value":"#.toList ++ s))) :=
  isText_oneRule (spellsMembers_valued h) nofun

theorem values_read_exactly_bounds :
    (Rule.decoder nestingLimit).decode r#"{"type":"BLANK","value":-2147483648}"# =
      .ok { kind := .blank, value := some (.level (-2147483648)) } ∧
    (∀ r, (Rule.decoder nestingLimit).decode r#"{"type":"BLANK","value":2147483648}"# ≠ .ok r) ∧
    (∀ g, ofTables r#"{"name":"","rules":{"a":{"type":"BLANK","value":2147483648}}}"# ≠ .ok g) ∧
    (Rule.decoder nestingLimit).decode r#"{"type":"BLANK","value":"7"}"# =
      .ok { kind := .blank, value := some (.text "7") } ∧
    ∃ (u : Doc) (n : Numeral), u.RuleInGrammar (oneRule (valued (.number leastLevel))) ∧
      Doc.HasField Rule.keys "value" (.number n) u ∧ n.Denotes (-2147483648) := by
  obtain ⟨hnumber, hstring, horigin⟩ := values_read_exactly
  have hleast := hnumber "-2147483648" leastLevel (spells_leastLevel [])
  have hlarge := hnumber "2147483648" tooLarge (spells_tooLarge [])
  have hbase : (Rule.decoder nestingLimit).decode r#"{"type":"BLANK","value":null}"# =
      .ok { kind := .blank } := by decide +kernel
  have hnull : (Doc.object (valued .null)).IsText r#"{"type":"BLANK","value":null}"# :=
    isText_valued (s := "null".toList ++ ['}']) .null
  have hnone (k : Int) : ¬ tooLarge.IsLevel "2147483648" k := by
    intro hk
    have heq : k = 2147483648 := hk.denotes.2.2
    have := hk.upper
    omega
  refine ⟨?_, fun r hr => ?_, fun g hg => ?_, ?_, ?_⟩
  · have htext : (Doc.object (valued (.number leastLevel))).IsText
        r#"{"type":"BLANK","value":-2147483648}"# := isText_valued (.number (spells_leastLevel _))
    have hlevel : leastLevel.IsLevel "-2147483648" (-2147483648) :=
      ⟨⟨rfl, rfl, by decide⟩, by decide, by decide, by decide⟩
    exact (hleast.rule (valueEdit_valued _ _) hnull htext hbase _).mpr
      ⟨_, ⟨_, hlevel, -2147483648, by decide, rfl⟩, rfl⟩
  · have htext : (Doc.object (valued (.number tooLarge))).IsText
        r#"{"type":"BLANK","value":2147483648}"# := isText_valued (.number (spells_tooLarge _))
    obtain ⟨_, ⟨k, hk, -⟩, -⟩ := (hlarge.rule (valueEdit_valued _ _) hnull htext hbase r).mp hr
    exact hnone k hk
  · have hbase : ofTables r#"{"name":"","rules":{"a":{"type":"BLANK","value":null}}}"# =
        .ok { name := "", rules := .ofList [("a", { kind := .blank })] } := by decide +kernel
    have hnull : (oneRule (valued .null)).IsText
        r#"{"name":"","rules":{"a":{"type":"BLANK","value":null}}}"# :=
      isText_oneRule_valued (s := "null".toList ++ ['}', '}', '}']) .null
    have htext : (oneRule (valued (.number tooLarge))).IsText
        r#"{"name":"","rules":{"a":{"type":"BLANK","value":2147483648}}}"# :=
      isText_oneRule_valued (.number (spells_tooLarge _))
    obtain ⟨_, k, hk, -⟩ := (hlarge.grammar (valueEdit_oneRule _ _) hnull htext hbase).mp ⟨g, hg⟩
    exact hnone k hk
  · have htext : (Doc.object (valued (.string (codeUnits "7")))).IsText
        r#"{"type":"BLANK","value":"7"}"# :=
      isText_valued (.string (spellsUnits_plain "7" (by decide) _))
    exact ((hstring (codeUnits "7")).rule (valueEdit_valued _ _) hnull htext hbase _).mpr
      ⟨_, ⟨"7", rfl, rfl⟩, rfl⟩
  · have htext : (oneRule (valued (.number leastLevel))).IsText
        r#"{"name":"","rules":{"a":{"type":"BLANK","value":-2147483648}}}"# :=
      isText_oneRule_valued (.number (spells_leastLevel _))
    let body : Rule := { kind := .blank, value := some (.level (-2147483648)) }
    have hg : ofTables r#"{"name":"","rules":{"a":{"type":"BLANK","value":-2147483648}}}"# =
        .ok { name := "", rules := .ofList [("a", body)] } := by decide +kernel
    have hbody : HasBody { name := "", rules := .ofList [("a", body)] } body :=
      .inl ⟨.rules, List.mem_singleton.mpr rfl⟩
    obtain ⟨u, n, hin, hfield, hn, -⟩ := (horigin _ _ _ body body htext hg hbody .here).1 _ rfl
    exact ⟨u, n, hin, hfield, hn⟩

end Grammar

end GrammarTables
