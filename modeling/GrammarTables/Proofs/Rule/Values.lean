import GrammarTables.Proofs.Grammar.Closed
import GrammarTables.Proofs.Rule.Edits
import GrammarTables.Proofs.Rule.Forms

/-!
# Values of rules

The value of a rule is a text or a level, and what a text gives for it is taken as it is or not at
all. A number is a level only if it is written as a whole number, is not zero behind a minus sign,
and fits in 32 bits. It may have as many digits as it likes, and it is never rounded or wrapped.
-/

namespace GrammarTables

open Json (Doc Numeral Replaced SpellsNumber codeUnits nestingLimit)

/-- A number, as the token is written, is the level `k`. -/
structure Json.Numeral.IsLevel (n : Numeral) (token : String) (k : Int) : Prop where
  denotes : n.Denotes k
  ne_minusZero : token ≠ "-0"
  lower : -2 ^ 31 ≤ k
  upper : k ≤ 2 ^ 31 - 1

/-- The document is read as the value. -/
def Json.Doc.ReadsValue (v : Doc) (a : Rule.Value) : Prop :=
  ∃ j, v.DenotesJson j ∧ Rule.Value.ofJson? j = some a

namespace Json.Doc

variable {a : Rule.Value} {n : Numeral} {token : String}

theorem ReadsValue.isValue {v : Doc} (h : v.ReadsValue a) : v.IsValue := by
  obtain ⟨j, hj, ha⟩ := h
  exact ⟨j, a, hj, ha⟩

theorem IsValue.exists_reads {v : Doc} (h : v.IsValue) : ∃ a, v.ReadsValue a := by
  obtain ⟨j, a, hj, ha⟩ := h
  exact ⟨a, j, hj, ha⟩

theorem ReadsValue.denotesValue {v : Doc} (h : v.ReadsValue a) : v.DenotesValue a := by
  obtain ⟨j, hj, ha⟩ := h
  exact Rule.denotes_of_ofJson? hj ha

theorem levelRange_iff {k : Int} : Rule.Value.levelRange k ↔ -2 ^ 31 ≤ k ∧ k ≤ 2 ^ 31 - 1 := by
  simp only [Rule.Value.levelRange, Bool.and_eq_true, decide_eq_true_eq]
  exact Iff.rfl

theorem readsValue_text {v : Doc} {s : String} :
    v.ReadsValue (.text s) ↔ v = .string (codeUnits s) := by
  constructor
  · rintro ⟨j, hj, ha⟩
    unfold Rule.Value.ofJson? at ha
    split at ha
    · cases ha
      cases hj
      rfl
    · split at ha <;> cases ha
    · cases ha
  · rintro rfl
    exact ⟨.string s, .string, rfl⟩

theorem readsValue_level {v : Doc} {level : Int32} :
    v.ReadsValue (.level level) ↔ ∃ n, v = .number n ∧ n.value = .ok (.whole level.toInt) := by
  constructor
  · rintro ⟨j, hj, ha⟩
    unfold Rule.Value.ofJson? at ha
    split at ha
    · cases ha
    · split at ha
      · next k hk =>
        cases ha
        rw [Rule.toInt_ofInt_of_levelRange hk]
        cases hj with
        | number hn => exact ⟨_, rfl, hn⟩
      · cases ha
    · cases ha
  · rintro ⟨n, rfl, hn⟩
    have hrange : Rule.Value.levelRange level.toInt :=
      levelRange_iff.mpr ⟨level.le_toInt, Int.le_sub_one_of_lt level.toInt_lt⟩
    exact ⟨.number (.whole level.toInt), .number hn, by
      rw [Rule.Value.ofJson?, if_pos hrange, Int32.ofInt_toInt]⟩

/-- A number is valued as the whole number that it is. Within 32 bits the only one that is valued
otherwise is zero behind a minus sign. -/
theorem isLevel_iff {k : Int} (h : SpellsNumber token.toList n []) : n.IsLevel token k ↔
    n.value = .ok (.whole k) ∧ -2 ^ 31 ≤ k ∧ k ≤ 2 ^ 31 - 1 := by
  rw [Numeral.value_eq_whole_iff]
  constructor
  · rintro ⟨hdenotes, hzero, hlower, hupper⟩
    obtain ⟨hfraction, hexponent, hk⟩ := hdenotes
    have hmagnitude : n.magnitude ≤ 2 ^ 31 := by
      split at hk <;> omega
    have hpositive : n.negative → 1 ≤ n.magnitude := by
      intro hnegative
      by_contra hlt
      exact hzero ((Numeral.eq_minusZero_iff h hfraction hexponent).mpr ⟨hnegative, by omega⟩)
    have hlimit : n.magnitude ≤ Numeral.significandLimit := Nat.le_trans hmagnitude (by decide)
    have hsigned : n.magnitude ≤ UInt64.size / 2 := Nat.le_trans hmagnitude (by decide)
    exact ⟨⟨⟨hfraction, hexponent, hk⟩, hlimit, fun hn => ⟨hpositive hn, hsigned⟩⟩, hlower, hupper⟩
  · rintro ⟨⟨hdenotes, -, hsign⟩, hlower, hupper⟩
    refine ⟨hdenotes, fun heq => ?_, hlower, hupper⟩
    obtain ⟨hnegative, hmagnitude⟩ :=
      (Numeral.eq_minusZero_iff h hdenotes.1 hdenotes.2.1).mp heq
    have := (hsign hnegative).1
    omega

/-- Of all numbers just the levels are read as values. -/
theorem readsValue_number (h : SpellsNumber token.toList n []) :
    (number n).ReadsValue a ↔
      ∃ k, n.IsLevel token k ∧ ∃ level : Int32, level.toInt = k ∧ a = .level level := by
  constructor
  · intro hread
    cases a with
    | text s => nomatch readsValue_text.mp hread
    | level level =>
      obtain ⟨m, hm, hvalue⟩ := readsValue_level.mp hread
      cases hm
      have hlevel := (isLevel_iff h).mpr
        ⟨hvalue, level.le_toInt, Int.le_sub_one_of_lt level.toInt_lt⟩
      exact ⟨level.toInt, hlevel, level, rfl, rfl⟩
  · rintro ⟨_, hlevel, level, rfl, rfl⟩
    exact readsValue_level.mpr ⟨n, rfl, ((isLevel_iff h).mp hlevel).1⟩

theorem readsValue_string {us : List Nat} :
    (string us).ReadsValue a ↔ ∃ s, codeUnits s = us ∧ a = .text s := by
  constructor
  · intro hread
    cases a with
    | text s =>
      cases readsValue_text.mp hread
      exact ⟨s, rfl, rfl⟩
    | level level =>
      obtain ⟨n, hn, -⟩ := readsValue_level.mp hread
      cases hn
  · rintro ⟨s, rfl, rfl⟩
    exact readsValue_text.mpr rfl

end Json.Doc

namespace Rule

/-! ## A value in place of another -/

/-- The rule with another value at the end of the path. Step 0 goes to the content of a rule and step
`i + 1` to its member `i`. -/
def setValueAt (a : Option Value) : List Nat → Rule → Rule
  | [], r => { r with value := a }
  | 0 :: path, r => { r with content := r.content.map (setValueAt a path) }
  | (i + 1) :: path, r => { r with members := r.members.modify i (setValueAt a path) }

/-- The document of a rule, and the same with `w` for the value `v` of the rule at the end of the
path. -/
inductive ValueEdit (v w : Doc) : List Nat → Doc → Doc → Prop where
  | here {v' w' : Doc} : Replaced keys "value" v w v' w' → ValueEdit v w [] v' w'
  | content {path : List Nat} {c d v' w' : Doc} : ValueEdit v w path c d →
      Replaced keys "content" c d v' w' → ValueEdit v w (0 :: path) v' w'
  | member {path : List Nat} {front back : List Doc} {c d v' w' : Doc} : ValueEdit v w path c d →
      Replaced keys "members" (.list (front ++ c :: back)) (.list (front ++ d :: back)) v' w' →
      ValueEdit v w ((front.length + 1) :: path) v' w'

namespace ValueEdit

variable {v w v' w' : Doc} {path : List Nat}

theorem symm (h : ValueEdit v w path v' w') : ValueEdit w v path w' v' := by
  induction h with
  | here hr => exact .here hr.symm
  | content _ hr ih => exact .content ih hr.symm
  | member _ hr ih => exact .member ih hr.symm

theorem ne_null (h : ValueEdit v w path v' w') : v' ≠ .null := by
  cases h with
  | here hr | content _ hr | member _ hr => exact Json.ne_null_of_replaced hr

/-- The new value stands in a rule. -/
theorem exists_ruleIn (h : ValueEdit v w path v' w') :
    ∃ u : Doc, u.RuleIn w' ∧ Doc.HasField keys "value" w u := by
  induction h with
  | here hr => exact ⟨_, .self, Doc.hasField_of_replaced hr⟩
  | content h hr ih =>
    obtain ⟨u, hin, hfield⟩ := ih
    exact ⟨u, .content (Doc.hasField_of_replaced hr) h.symm.ne_null hin, hfield⟩
  | member _ hr ih =>
    obtain ⟨u, hin, hfield⟩ := ih
    exact ⟨u, .member (Doc.hasField_of_replaced hr) List.mem_append_cons_self hin, hfield⟩

theorem ruleWithin (h : ValueEdit v w path v' w') (hw : w.IsValue) (room : Nat)
    (hv : v'.RuleWithin room) : w'.RuleWithin room := by
  induction h generalizing room with
  | here hr =>
    obtain ⟨inner, rfl, hrecord⟩ := ruleWithin_iff.mp hv
    have hvalue : Doc.OptionalOf Doc.IsValue v → Doc.OptionalOf Doc.IsValue w := fun _ => .inr hw
    exact ruleWithin_iff.mpr
      ⟨inner, rfl, (fit_takenFields ..).record_replaced hr (i := 1) rfl hvalue hrecord⟩
  | content h hr ih => exact ruleWithin_of_content hr h.ne_null ih room hv
  | member _ hr ih => exact ruleWithin_of_member hr ih room hv

theorem denotesRule (h : ValueEdit v w path v' w') {a : Value} (hw : w.DenotesValue a) {r : Rule}
    (hv : v'.DenotesRule r) : w'.DenotesRule (r.setValueAt (some a) path) := by
  induction h generalizing r with
  | here hr =>
    rw [Doc.denotesRule_eq] at hv ⊢
    exact (fit_clauses r).denotesRecord_set hr (i := 1) rfl rfl
      (d := .optional "value" Doc.DenotesValue (some a)) rfl (fun _ => .some hw) hv
  | @content path c _ _ _ h hr ih =>
    rw [Doc.denotesRule_eq] at hv ⊢
    refine (fit_clauses r).denotesRecord_set hr (i := 3) rfl rfl
      (d := .optional "content" Doc.DenotesRule (r.content.map (setValueAt (some a) path))) rfl
      (fun hc => ?_) hv
    change Doc.DenotesOptional Doc.DenotesRule c r.content at hc
    generalize r.content = x at hc
    cases hc with
    | null => exact absurd rfl h.ne_null
    | some hc => exact .some (ih hc)
  | @member path front back c d _ _ _ hr ih =>
    rw [Doc.denotesRule_eq] at hv ⊢
    refine (fit_clauses r).denotesRecord_set hr (i := 4) rfl rfl
      (d := .default "members" (Doc.DenotesList Doc.DenotesRule) []
        (r.members.modify front.length (setValueAt (some a) path))) rfl (fun hms => ?_) hv
    obtain ⟨hms⟩ := hms
    exact .mk (Json.forall₂_modify (fun _ => ih) hms)

end ValueEdit

/-! ## Reading values -/

section Reading

variable {text : String} {r : Rule} {v w u x : Doc} {room : Nat}

theorem decode_eq_ok_iff (hv : v.IsText text) : (decoder nestingLimit).decode text = .ok r ↔
    v.RuleWithin nestingLimit ∧ v.DenotesRule r :=
  (takes_decoder _).decode_eq_ok_iff (sound_decoder _) (Doc.determines_rule r) hv

/-- What stands for a value is one, or null. -/
theorem optionalOf_isValue (hu : u.RuleWithin room) (hx : Doc.HasField keys "value" x u) :
    Doc.OptionalOf Doc.IsValue x := by
  obtain ⟨inner, rfl, hrecord⟩ := ruleWithin_iff.mp hu
  exact hrecord.present nodup_keys (c := ⟨"value", Doc.OptionalOf Doc.IsValue, True⟩)
    (List.mem_of_getElem? (i := 1) rfl) hx

/-- With another value, at any depth, a rule is read just if the value is, and as that rule with the
value that is read. -/
theorem decode_valueEdit {edited : String} {r' : Rule} {path : List Nat} {v' w' : Doc}
    (h : ValueEdit v w path v' w') (hnull : w ≠ .null) (hv : v'.IsText text) (hw : w'.IsText edited)
    (hr : (decoder nestingLimit).decode text = .ok r) :
    (decoder nestingLimit).decode edited = .ok r' ↔
      ∃ a, w.ReadsValue a ∧ r' = r.setValueAt (some a) path := by
  obtain ⟨htaken, hdenotes⟩ := (decode_eq_ok_iff hv).mp hr
  have hedited {a : Value} (ha : w.ReadsValue a) :
      (decoder nestingLimit).decode edited = .ok (r.setValueAt (some a) path) :=
    (decode_eq_ok_iff hw).mpr
      ⟨h.ruleWithin ha.isValue _ htaken, h.denotesRule ha.denotesValue hdenotes⟩
  constructor
  · intro hr'
    obtain ⟨u, hin, hfield⟩ := h.exists_ruleIn
    obtain ⟨inner, hu⟩ := ruleWithin_of_ruleIn hin ((decode_eq_ok_iff hw).mp hr').1
    obtain ⟨a, ha⟩ := ((optionalOf_isValue hu hfield).resolve_left hnull).exists_reads
    exact ⟨a, ha, Except.ok.inj (hr'.symm.trans (hedited ha))⟩
  · rintro ⟨a, ha, rfl⟩
    exact hedited ha

/-! ## Where values come from -/

/-- Every node of a rule is what some document of a rule in it denotes. -/
theorem exists_ruleIn_of_occurs {node body : Rule} (h : node.Occurs body) (hv : v.DenotesRule body) :
    ∃ u : Doc, u.RuleIn v ∧ u.DenotesRule node := by
  induction h generalizing v with
  | here => exact ⟨v, .self, hv⟩
  | @content parent child hc _ ih =>
    rw [Doc.denotesRule_eq] at hv
    obtain ⟨c, hfield, hp⟩ := hv.exists_field_of_some (i := 3) rfl hc
    obtain ⟨u, hin, hu⟩ := ih hp
    have hnull : c ≠ .null := by
      rintro rfl
      exact Doc.not_denotesRule_null _ hp
    exact ⟨u, .content hfield hnull hin, hu⟩
  | @member parent child hm _ ih =>
    rw [Doc.denotesRule_eq] at hv
    have hset : ¬ parent.members = [] := List.ne_nil_of_mem hm
    obtain ⟨c, hfield, ⟨hvs⟩⟩ := hv.exists_field (List.mem_of_getElem? (i := 4) rfl) hset
    obtain ⟨c, hc, hp⟩ := Json.exists_mem_of_forall₂ hvs hm
    obtain ⟨u, hin, hu⟩ := ih hp
    exact ⟨u, .member hfield hc hin, hu⟩

/-- A rule has the value that is read for it. -/
theorem exists_readsValue {a : Value} (hu : u.DenotesRule r) (hw : u.RuleWithin room)
    (ha : r.value = some a) : ∃ x : Doc, Doc.HasField keys "value" x u ∧ x.ReadsValue a := by
  rw [Doc.denotesRule_eq] at hu
  obtain ⟨x, hfield, hp⟩ := hu.exists_field_of_some (i := 1) rfl ha
  have hnull : x ≠ .null := by
    rintro rfl
    exact Doc.not_denotesValue_null _ hp
  obtain ⟨b, hb⟩ := ((optionalOf_isValue hw hfield).resolve_left hnull).exists_reads
  obtain rfl : b = a := Doc.determines_value b x a hb.denotesValue hp
  exact ⟨x, hfield, hb⟩

end Reading

end Rule

end GrammarTables
