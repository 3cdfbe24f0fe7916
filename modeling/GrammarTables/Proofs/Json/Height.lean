import GrammarTables.Proofs.Json.Document
import GrammarTables.Proofs.Json.Nesting

/-!
# Nesting of any text

However a document is spelled, brackets nest in its text as deep as the document is high: blanks and
escapes open none, and brackets in strings do not count.
-/

namespace GrammarTables.Json

namespace Doc

mutual

/-- How many lists and objects lie around the innermost parts of a document, itself included. -/
def height : Doc → Nat
  | null => 0
  | bool _ => 0
  | number _ => 0
  | string _ => 0
  | list vs => itemsHeight vs + 1
  | object ms => membersHeight ms + 1

def itemsHeight : List Doc → Nat
  | [] => 0
  | v :: vs => max v.height (itemsHeight vs)

def membersHeight : List (List Nat × Doc) → Nat
  | [] => 0
  | (_, v) :: ms => max v.height (membersHeight ms)

end

theorem itemsHeight_le {n : Nat} {vs : List Doc} : itemsHeight vs ≤ n ↔ ∀ v ∈ vs, v.height ≤ n := by
  induction vs with
  | nil => simp [itemsHeight]
  | cons v vs ih => rw [itemsHeight, Nat.max_le, ih, List.forall_mem_cons]

theorem membersHeight_le {n : Nat} {ms : List (List Nat × Doc)} :
    membersHeight ms ≤ n ↔ ∀ m ∈ ms, m.2.height ≤ n := by
  induction ms with
  | nil => simp [membersHeight]
  | cons m ms ih => rw [membersHeight, Nat.max_le, ih, List.forall_mem_cons]

theorem height_lt_of_mem_list {v : Doc} {vs : List Doc} (h : v ∈ vs) : v.height < (list vs).height :=
  Nat.lt_succ_of_le (itemsHeight_le.mp (Nat.le_refl _) v h)

theorem height_lt_of_mem_object {m : List Nat × Doc} {ms : List (List Nat × Doc)} (h : m ∈ ms) :
    m.2.height < (object ms).height :=
  Nat.lt_succ_of_le (membersHeight_le.mp (Nat.le_refl _) m h)

end Doc

variable {s t : List Char} {n : Nat}

/-! ## Blanks and numbers -/

theorem deepest_cons_inert {c : Char} (hc : isInert c) (n : Nat) (s : List Char) :
    deepest .outside n (c :: s) = deepest .outside n s :=
  deepest_inert (s := [c]) (by simpa using hc) n s

theorem isInert_of_mem_blanks {c : Char} (hc : c ∈ blanks) : isInert c :=
  List.all_eq_true.mp (show blanks.all isInert from rfl) c hc

theorem deepest_blanks {w : List Char} (hw : ∀ c ∈ w, c ∈ blanks) (n : Nat) (s : List Char) :
    deepest .outside n (w ++ s) = deepest .outside n s :=
  deepest_inert (List.all_eq_true.mpr fun c hc => isInert_of_mem_blanks (hw c hc)) n s

theorem Gap.deepest (h : Gap s t) : deepest .outside n s = deepest .outside n t := by
  obtain ⟨w, hw, rfl⟩ := h
  exact deepest_blanks hw n t

theorem isInert_digitChar {d : Nat} (h : d < 10) : isInert d.digitChar := by
  revert d
  decide

theorem SpellsDigits.deepest {ds : List Nat} (h : SpellsDigits s ds t) :
    deepest .outside n s = deepest .outside n t := by
  obtain ⟨-, hds, rfl⟩ := h
  refine deepest_inert (List.all_eq_true.mpr fun c hc => ?_) n t
  obtain ⟨d, hd, rfl⟩ := List.mem_map.mp hc
  exact isInert_digitChar (hds d hd)

theorem SpellsFraction.deepest {ds : List Nat} (h : SpellsFraction s ds t) :
    deepest .outside n s = deepest .outside n t := by
  cases h with
  | absent => rfl
  | point hd => rw [deepest_cons_inert (by decide), hd.deepest]

theorem SpellsExponent.deepest {e : Option (Bool × List Nat)} (h : SpellsExponent s e t) :
    deepest .outside n s = deepest .outside n t := by
  cases h with
  | absent => rfl
  | power he hs hd =>
    have hinert : ∀ c, c = 'e' ∨ c = 'E' → isInert c := by
      rintro c (rfl | rfl) <;> decide
    rw [deepest_cons_inert (hinert _ he)]
    cases hs with
    | absent => exact hd.deepest
    | plus => rw [deepest_cons_inert (by decide), hd.deepest]
    | minus => rw [deepest_cons_inert (by decide), hd.deepest]

theorem SpellsNumber.deepest {x : Numeral} (h : SpellsNumber s x t) :
    deepest .outside n s = deepest .outside n t := by
  obtain ⟨hm, hw, -, hf, he⟩ := h
  have hrest := (hw.deepest (n := n)).trans (hf.deepest.trans he.deepest)
  generalize x.negative = negative at hm
  cases hm with
  | absent => exact hrest
  | minus => rw [deepest_cons_inert (by decide), hrest]

/-! ## Strings -/

theorem IsHexDigit.ne {c : Char} {d : Nat} (h : IsHexDigit c d) : c ≠ '"' ∧ c ≠ '\\' := by
  obtain ⟨hd, rfl | rfl⟩ := h <;> revert d <;> decide

theorem deepest_of_units {us : List Nat} (h : SpellsUnits s us t) (n : Nat) :
    deepest .inString n s = deepest .outside n t := by
  induction h with
  | close => exact max_deepest ..
  | plain hq hb _ _ ih => rw [deepest_inString hq hb, ih]
  | escape _ _ ih => rw [deepest_escape, ih]
  | unit hx _ ih =>
    obtain ⟨ha, hb, hc, hd⟩ := hx
    rw [deepest_escape, deepest_inString ha.ne.1 ha.ne.2, deepest_inString hb.ne.1 hb.ne.2,
      deepest_inString hc.ne.1 hc.ne.2, deepest_inString hd.ne.1 hd.ne.2, ih]

theorem deepest_of_string {us : List Nat} (h : SpellsUnits s us t) (n : Nat) :
    deepest .outside n ('"' :: s) = deepest .outside n t := by
  rw [deepest]
  exact (max_deepest ..).trans (deepest_of_units h n)

/-! ## Values -/

theorem Lead.deepest {first : Bool} (h : Lead first s t) :
    deepest .outside n s = deepest .outside n t := by
  cases h with
  | first hs => exact hs.deepest
  | next hs ht => rw [hs.deepest, deepest_separator (.inl rfl), ht.deepest]

mutual

theorem deepest_of_spells {v : Doc} {s t : List Char} (h : Spells s v t) (n : Nat) :
    deepest .outside n s = max (n + v.height) (deepest .outside n t) := by
  cases v with
  | null =>
    cases h
    rw [deepest_inert (by decide)]
    exact (max_deepest ..).symm
  | bool b =>
    cases h <;> rw [deepest_inert (by decide)] <;> exact (max_deepest ..).symm
  | number x =>
    cases h with
    | number hx =>
      rw [hx.deepest]
      exact (max_deepest ..).symm
  | string us =>
    cases h with
    | string hu =>
      rw [deepest_of_string hu]
      exact (max_deepest ..).symm
  | list vs =>
    cases h with
    | list hi =>
      rw [deepest_open (.inl rfl), deepest_of_items hi, Doc.height]
      omega
  | object ms =>
    cases h with
    | object hm =>
      rw [deepest_open (.inr rfl), deepest_of_members hm, Doc.height]
      omega
termination_by structural v

theorem deepest_of_items {vs : List Doc} {first : Bool} {s t : List Char}
    (h : SpellsItems first s vs t) (n : Nat) :
    deepest .outside (n + 1) s = max (n + 1 + Doc.itemsHeight vs) (deepest .outside n t) := by
  cases vs with
  | nil =>
    cases h with
    | close hs => rw [hs.deepest, deepest_close (.inl rfl), Doc.itemsHeight]
  | cons v vs =>
    cases h with
    | item hl hv hi =>
      rw [hl.deepest, deepest_of_spells hv, deepest_of_items hi, Doc.itemsHeight]
      omega
termination_by structural vs

theorem deepest_of_member {m : List Nat × Doc} {s t : List Char} (h : SpellsMember s m t) (n : Nat) :
    deepest .outside n s = max (n + m.2.height) (deepest .outside n t) := by
  obtain ⟨key, v⟩ := m
  cases h with
  | mk hk hu hv =>
    obtain ⟨hs, hv⟩ := hv
    rw [deepest_of_string hk, hu.deepest, deepest_separator (.inr rfl), hs.deepest,
      deepest_of_spells hv]
termination_by structural m

theorem deepest_of_members {ms : List (List Nat × Doc)} {first : Bool} {s t : List Char}
    (h : SpellsMembers first s ms t) (n : Nat) :
    deepest .outside (n + 1) s = max (n + 1 + Doc.membersHeight ms) (deepest .outside n t) := by
  cases ms with
  | nil =>
    cases h with
    | close hs => rw [hs.deepest, deepest_close (.inr rfl), Doc.membersHeight]
  | cons m ms =>
    cases h with
    | member hl hm hi =>
      rw [hl.deepest, deepest_of_member hm, deepest_of_members hi, Doc.membersHeight]
      omega
termination_by structural ms

end

theorem Doc.IsText.nesting_eq {v : Doc} {text : String} (h : v.IsText text) :
    nesting text = v.height := by
  obtain ⟨t, ⟨hs, hv⟩, hblank⟩ := h
  have hend : deepest .outside 0 t = 0 := by
    have := deepest_blanks hblank 0 []
    rwa [List.append_nil] at this
  rw [nesting, hs.deepest, deepest_of_spells hv, hend, Nat.zero_add, Nat.max_zero]

end GrammarTables.Json
