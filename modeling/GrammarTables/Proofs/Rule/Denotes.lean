import GrammarTables.Proofs.Json.Determined
import GrammarTables.Proofs.Json.Spelled.Record
import GrammarTables.Proofs.Rule.RoundTrip
import GrammarTables.Proofs.Rule.Walk

/-!
# What documents denote as rules

A document denotes a rule as a record whose content and members are rules again. Every rule that is
read from a text is denoted by what the text spells.
-/

namespace GrammarTables

open Json (Clause Decoder Doc Field Layout Numeral inside)

/-! ## Rules as records -/

def Json.Doc.DenotesKind (v : Doc) (k : Rule.Kind) : Prop := v.DenotesVariant k.name

inductive Json.Doc.DenotesValue : Doc → Rule.Value → Prop where
  | text {s : String} {v : Doc} : v.DenotesText s → DenotesValue v (.text s)
  | level {n : Numeral} {k : Int32} : n.Denotes k.toInt → DenotesValue (.number n) (.level k)

/-- The clauses of a rule's fields, given what has to hold of its content and its members. -/
def Rule.clausesOfNode (r : Rule) (content members : Doc → Prop) : List Clause := [
  .required "type" Doc.DenotesKind r.kind,
  .optional "value" Doc.DenotesValue r.value,
  .optional "name" Doc.DenotesText r.name,
  ⟨"content", content, r.content = none⟩,
  ⟨"members", members, r.members = []⟩,
  .optional "named" Doc.DenotesBool r.named,
  .optional "flags" Doc.DenotesText r.flags,
  .optional "context_name" Doc.DenotesText r.contextName]

namespace Json.Doc

mutual

def DenotesRule : Doc → Rule → Prop
  | v, ⟨k, a, n, c, ms, d, f, x⟩ =>
    v.DenotesRecord <| Rule.clausesOfNode ⟨k, a, n, c, ms, d, f, x⟩ (DenotesContent · c)
      fun v => ∃ vs, v = .list vs ∧ DenoteRules vs ms

def DenotesContent : Doc → Option Rule → Prop
  | v, none => v = .null
  | v, some r => v.DenotesRule r

def DenoteRules : List Doc → List Rule → Prop
  | [], [] => True
  | v :: vs, r :: rs => v.DenotesRule r ∧ DenoteRules vs rs
  | _, _ => False

end

theorem denotesContent_iff {v : Doc} {c : Option Rule} :
    v.DenotesContent c ↔ v.DenotesOptional DenotesRule c := by
  cases c with
  | none =>
    constructor
    · rintro rfl
      exact .null
    · rintro ⟨⟩
      rfl
  | some r =>
    show v.DenotesRule r ↔ v.DenotesOptional DenotesRule (some r)
    constructor
    · exact .some
    · rintro ⟨⟩
      assumption

theorem denoteRules_iff {vs : List Doc} {rs : List Rule} :
    DenoteRules vs rs ↔ List.Forall₂ DenotesRule vs rs := by
  induction rs generalizing vs with
  | nil => cases vs <;> simp [DenoteRules]
  | cons r rs ih => cases vs <;> simp [DenoteRules, ih]

end Json.Doc

/-- The clauses of a rule's fields. -/
def Rule.clauses (r : Rule) : List Clause :=
  r.clausesOfNode (Doc.DenotesOptional Doc.DenotesRule · r.content)
    (Doc.DenotesList Doc.DenotesRule · r.members)

theorem Json.Doc.denotesRule_eq (v : Doc) (r : Rule) :
    v.DenotesRule r = v.DenotesRecord r.clauses := by
  obtain ⟨k, a, n, c, ms, d, f, x⟩ := r
  have content : (DenotesContent · c) = (DenotesOptional DenotesRule · c) :=
    funext fun _ => propext denotesContent_iff
  have members : (fun v : Doc => ∃ vs, v = .list vs ∧ DenoteRules vs ms) =
      (DenotesList DenotesRule · ms) := by
    refine funext fun v => propext ⟨?_, ?_⟩
    · rintro ⟨vs, rfl, h⟩
      exact .mk (denoteRules_iff.mp h)
    · rintro ⟨h⟩
      exact ⟨_, rfl, denoteRules_iff.mpr h⟩
  rw [DenotesRule, content, members]
  rfl

/-! ## At most one rule -/

namespace Json.Doc

theorem determines_kind (k : Rule.Kind) : Determines DenotesKind k :=
  fun _ _ h h' => Rule.Kind.name_inj (variant_unique h h')

theorem not_denotesValue_null (a : Rule.Value) : ¬ DenotesValue .null a := by
  intro h
  cases h with
  | text h => nomatch h

theorem determines_value (a : Rule.Value) : Determines DenotesValue a := by
  intro v b h h'
  cases h with
  | text ht =>
    cases h' with
    | text ht' => rw [determines_text _ v _ ht ht']
    | level => nomatch ht
  | level hn =>
    cases h' with
    | text ht' => nomatch ht'
    | level hn' => rw [Int32.toInt_inj.mp (hn.2.2.trans hn'.2.2.symm)]

theorem not_denotesRule_null (r : Rule) : ¬ DenotesRule .null r := by
  rw [denotesRule_eq]
  nofun

theorem determines_rule (r : Rule) : Determines DenotesRule r := by
  induction r using Rule.ind with
  | node r ih =>
    have content : ∀ c ∈ r.content, Determines DenotesRule c :=
      fun c hc => ih c (Rule.mem_children.mpr (.inl hc))
    have members : ∀ m ∈ r.members, Determines DenotesRule m :=
      fun m hm => ih m (Rule.mem_children.mpr (.inr hm))
    intro v s h h'
    rw [denotesRule_eq] at h h'
    have agree : List.Forall₂ Clause.Agree r.clauses s.clauses := Clause.agree_of_denotes h h' rfl
    obtain ⟨k, a, n, c, ms, d, f, x⟩ := r
    obtain ⟨k', a', n', c', ms', d', f', x'⟩ := s
    simp only [Rule.clauses, Rule.clausesOfNode, List.forall₂_cons] at agree
    obtain ⟨hk, ha, hn, hc, hms, hd, hf, hx, -⟩ := agree
    obtain rfl : k = k' := hk.required (determines_kind k)
    obtain rfl : a = a' := ha.optional not_denotesValue_null fun a _ => determines_value a
    obtain rfl : n = n' := hn.optional nofun fun n _ => determines_text n
    obtain rfl : c = c' := Clause.Agree.optional hc not_denotesRule_null content
    obtain rfl : ms = ms' := Clause.Agree.default hms (determines_list members)
    obtain rfl : d = d' := hd.optional nofun fun d _ => determines_bool d
    obtain rfl : f = f' := hf.optional nofun fun f _ => determines_text f
    obtain rfl : x = x' := hx.optional nofun fun x _ => determines_text x
    rfl

end Json.Doc

namespace Rule

/-! ## The keys of a rule -/

def keys : List String :=
  ["type", "value", "name", "content", "members", "named", "flags", "context_name"]

theorem nodup_keys : keys.Nodup := by decide

/-! ## Reading rules -/

theorem eq_name_of_lookup {name : String} {k : Kind} (h : Kind.byName.lookup name = some k) :
    name = k.name := by
  obtain ⟨front, back, heq, -⟩ := List.lookup_eq_some_iff.mp h
  have hmem : (name, k) ∈ Kind.byName := by
    rw [heq]
    exact List.mem_append_right front List.mem_cons_self
  obtain ⟨l, -, hl⟩ := List.mem_map.mp hmem
  cases hl
  rfl

theorem sound_kind (room : Nat) : (Decoder.variant Kind.byName room).Sound Doc.DenotesKind := by
  intro s t k h
  obtain ⟨v, hv, name, hname, hlookup⟩ := Decoder.Sound.variant room s t k h
  rw [eq_name_of_lookup hlookup] at hname
  exact ⟨v, hv, hname⟩

theorem toInt_ofInt_of_levelRange {k : Int} (h : Value.levelRange k) :
    (Int32.ofInt k).toInt = k := by
  simp only [Value.levelRange, Bool.and_eq_true, decide_eq_true_eq] at h
  have hmin : Int32.minValue.toInt = -2147483648 := rfl
  have hmax : Int32.maxValue.toInt = 2147483647 := rfl
  exact Int32.toInt_ofInt_of_le (by omega) (by omega)

theorem denotes_of_ofJson? {v : Doc} {j : Json} {a : Value} (hv : v.DenotesJson j)
    (h : Value.ofJson? j = some a) : v.DenotesValue a := by
  unfold Value.ofJson? at h
  split at h
  · cases h
    cases hv
    exact .text rfl
  · next k =>
    split at h
    · next hk =>
      cases h
      cases hv with
      | number hn =>
        have hn := Numeral.denotes_of_value hn
        rw [← toInt_ofInt_of_levelRange hk] at hn
        exact .level hn
    · cases h
  · cases h

/-- A value is read as one of any kind and then has to be a text or a level. -/
theorem sets_value (room : Nat) :
    Field.Sets ⟨"value", false, (Decoder.any room).optional.map setValue⟩ clauses 1 := by
  unfold Field.Sets
  refine (Decoder.Sound.any room).optional.map fun v j hj r r' hr => ?_
  cases hj with
  | null =>
    cases hr
    exact ⟨.optional "value" Doc.DenotesValue none, .null, rfl⟩
  | some hj =>
    unfold setValue at hr
    dsimp only at hr
    split at hr
    · cases hr
    · next a ha =>
      cases hr
      exact ⟨.optional "value" Doc.DenotesValue (some a), .some (denotes_of_ofJson? hj ha), rfl⟩

theorem describes_layout (room : Nat) {content : Decoder Rule} {member : Option (Decoder Rule)}
    (hc : content.Sound Doc.DenotesRule) (hm : ∀ d ∈ member, d.Sound Doc.DenotesRule) :
    (layout room content member).Describes clauses where
  keys _ := rfl
  nodup := nodup_keys
  blank := by
    refine List.forall_mem_cons.mpr ⟨nofun, ?_⟩
    iterate 6 refine List.forall_mem_cons.mpr ⟨fun _ => rfl, ?_⟩
    exact List.forall_mem_singleton.mpr fun _ => rfl
  sets := by
    refine List.forall_mem_cons.mpr ⟨Field.sets_ofRequired (sound_kind room) fun _ _ => rfl, ?_⟩
    refine List.forall_mem_cons.mpr ⟨sets_value room, ?_⟩
    refine List.forall_mem_cons.mpr ⟨Field.sets_ofOptional .string fun _ _ => rfl, ?_⟩
    refine List.forall_mem_cons.mpr ⟨Field.sets_ofOptional hc fun _ _ => rfl, ?_⟩
    refine List.forall_mem_cons.mpr ⟨Field.sets_ofDefault (.list hm) fun _ _ => rfl, ?_⟩
    refine List.forall_mem_cons.mpr ⟨Field.sets_ofOptional .bool fun _ _ => rfl, ?_⟩
    refine List.forall_mem_cons.mpr ⟨Field.sets_ofOptional .string fun _ _ => rfl, ?_⟩
    exact List.forall_mem_singleton.mpr (Field.sets_ofOptional .string fun _ _ => rfl)

theorem sound_decoder (room : Nat) : (decoder room).Sound Doc.DenotesRule := by
  induction room using Nat.strong_induction_on with
  | _ room ih =>
    have hl : ∀ l ∈ inside layoutWithin room, l.Describes clauses := by
      intro l hl
      cases room with
      | zero => cases hl
      | succ room =>
        have hcontent := ih room (Nat.lt_succ_self room)
        have hmember : ∀ d ∈ inside decoder room, d.Sound Doc.DenotesRule :=
          Json.forall_mem_inside fun r hr => ih r (Nat.lt_succ_of_lt hr)
        exact Option.mem_some.mp hl ▸ describes_layout room hcontent hmember
    have hr : (Decoder.record "Rule" (inside layoutWithin room)).Sound
        fun v r => v.DenotesRecord r.clauses := .record hl
    simpa only [← Doc.denotesRule_eq, ← decoder_eq] using hr

end Rule

end GrammarTables
