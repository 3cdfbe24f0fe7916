import GrammarTables.Json.Skip
import GrammarTables.Proofs.Json.ReadBack
import GrammarTables.Proofs.Json.Spelled.Scan
import Mathlib.Tactic.FinCases

/-!
# One document in a text

A text spells at most one document. The first character of a value says what kind of value it is,
and only a number does not end itself: it goes on as far as it can, so what stands behind it has to
be something that no number goes on with.
-/

namespace GrammarTables.Json

/-! ## Blanks -/

theorem dropBlank_of_gap {c : Char} {s t : List Char} (h : Gap s (c :: t)) (hc : c ∉ blanks) :
    dropBlank s = c :: t := by
  obtain ⟨w, hw, rfl⟩ := h
  have hblank : ∀ d ∈ w, isBlank d := fun d hd => by simpa [isBlank_eq] using hw d hd
  rw [dropBlank, List.dropWhile_append_of_pos hblank,
    List.dropWhile_cons_of_neg (by simpa [isBlank_eq] using hc)]

/-- The first character behind the blanks is determined, and what follows it. -/
theorem Gap.unique {c d : Char} {s t u : List Char} (h : Gap s (c :: t)) (hc : c ∉ blanks)
    (h' : Gap s (d :: u)) (hd : d ∉ blanks) : c :: t = d :: u :=
  (dropBlank_of_gap h hc).symm.trans (dropBlank_of_gap h' hd)

theorem delimited_blank {c : Char} (hc : c ∈ blanks) (s : List Char) : Delimited (c :: s) := by
  simp only [blanks, List.mem_cons, List.not_mem_nil, or_false] at hc
  rcases hc with rfl | rfl | rfl | rfl <;> exact ⟨rfl, by decide, by decide, by decide⟩

theorem Gap.delimited {s t : List Char} (h : Gap s t) (ht : Delimited t) : Delimited s := by
  obtain ⟨w, hw, rfl⟩ := h
  cases w with
  | nil => exact ht
  | cons c w => exact delimited_blank (hw c List.mem_cons_self) (w ++ t)

/-! ## Numbers -/

theorem isDigit_digitChar {d : Nat} (h : d < 10) : isDigit d.digitChar ∧ digit d.digitChar = d := by
  interval_cases d <;> decide

/-- Digits are read as far as they go. -/
theorem SpellsDigits.digits_eq {s t : List Char} {ds : List Nat} (h : SpellsDigits s ds t)
    (ht : ∀ c ∈ t.head?, isDigit c = false) : digits s = ds ∧ dropDigits s = t := by
  obtain ⟨-, hlt, rfl⟩ := h
  have hdigit : ∀ c ∈ ds.map Nat.digitChar, isDigit c :=
    List.forall_mem_map.mpr fun d hd => (isDigit_digitChar (hlt d hd)).1
  have hstop : t.takeWhile isDigit = [] ∧ t.dropWhile isDigit = t := by
    cases t with
    | nil => exact ⟨rfl, rfl⟩
    | cons c t => simp [ht c rfl]
  constructor
  · rw [digits, List.takeWhile_append_of_pos hdigit, hstop.1, List.append_nil, List.map_map]
    exact (List.map_congr_left fun d hd => (isDigit_digitChar (hlt d hd)).2).trans (List.map_id ds)
  · rw [dropDigits, List.dropWhile_append_of_pos hdigit, hstop.2]

theorem SpellsDigits.head {s t : List Char} {ds : List Nat} (h : SpellsDigits s ds t) :
    ∃ c r, s = c :: r ∧ isDigit c := by
  obtain ⟨hne, hlt, rfl⟩ := h
  cases ds with
  | nil => exact absurd rfl hne
  | cons d ds => exact ⟨_, _, rfl, (isDigit_digitChar (hlt d List.mem_cons_self)).1⟩

theorem not_isDigit_of_delimited {t : List Char} (ht : Delimited t) :
    ∀ c ∈ t.head?, isDigit c = false := by
  cases t with
  | nil => nofun
  | cons c t => exact fun _ hd => Option.mem_some.mp hd ▸ ht.1

namespace Numeral

variable {p : Problem} {s t : List Char}

theorem scanWhole_of_spells {ds : List Nat} (h : SpellsDigits s ds t)
    (h0 : ds.head? = some 0 → ds = [0]) (ht : ∀ c ∈ t.head?, isDigit c = false) :
    scanWhole p s = .ok (ds, t) := by
  obtain ⟨hds, hdrop⟩ := h.digits_eq ht
  obtain ⟨c, r, rfl, hc⟩ := h.head
  rw [digits_cons hc] at hds
  rw [dropDigits_cons hc] at hdrop
  subst hds hdrop
  rw [scanWhole]
  by_cases hz : c = '0'
  · subst hz
    have hr : digits r = [] := (List.cons.inj (h0 rfl)).2
    rw [if_pos rfl, hr, dropDigits_of_digits hr]
    rfl
  · rw [if_neg hz, if_pos hc, digits_cons hc]

theorem head_of_spellsExponent {e : Option (Bool × List Nat)} (h : SpellsExponent s e t)
    (ht : Delimited t) : ∀ c ∈ s.head?, isDigit c = false ∧ c ≠ '.' := by
  cases h with
  | absent =>
    cases s with
    | nil => nofun
    | cons c s => exact fun _ hd => Option.mem_some.mp hd ▸ ⟨ht.1, ht.2.1⟩
  | power hc _ _ =>
    intro d hd
    obtain rfl := Option.mem_some.mp hd
    rcases hc with rfl | rfl <;> exact ⟨rfl, by decide⟩

theorem head_of_spellsFraction {ds : List Nat} (h : SpellsFraction s ds t)
    (ht : ∀ c ∈ t.head?, isDigit c = false) : ∀ c ∈ s.head?, isDigit c = false := by
  cases h with
  | absent => exact ht
  | point _ => exact fun _ hd => Option.mem_some.mp hd ▸ rfl

theorem scanSign_of_isDigit {c : Char} (hc : isDigit c) (s : List Char) :
    scanSign (c :: s) = (false, c :: s) := by
  have hp : c ≠ '+' := by
    rintro rfl
    exact absurd hc (by decide)
  have hm : c ≠ '-' := by
    rintro rfl
    exact absurd hc (by decide)
  simp [scanSign, hp, hm]

theorem scanExponent_of_spells {e : Option (Bool × List Nat)} (h : SpellsExponent s e t)
    (ht : Delimited t) : scanExponent p s = .ok (e, t) := by
  cases h with
  | absent => exact scanExponent_of_delimited p ht
  | @power c s t u down ds hc hs hd =>
    obtain ⟨hds, hdrop⟩ := hd.digits_eq (not_isDigit_of_delimited ht)
    obtain ⟨d, r, rfl, hdigit⟩ := hd.head
    have hsign : scanSign s = (down, d :: r) := by
      cases hs with
      | absent => exact scanSign_of_isDigit hdigit r
      | plus => rfl
      | minus => rfl
    rw [dropDigits_cons hdigit] at hdrop
    rw [scanExponent, if_pos hc, hsign]
    simp only [hdigit, if_true, hds, hdrop]

theorem scanFraction_of_spells {ds : List Nat} (h : SpellsFraction s ds t)
    (ht : ∀ c ∈ t.head?, isDigit c = false ∧ c ≠ '.') : scanFraction p s = .ok (ds, t) := by
  cases h with
  | absent =>
    cases s with
    | nil => rfl
    | cons c s => exact scanFraction_of_ne (ht c rfl).2 s
  | point hd =>
    obtain ⟨rfl, rfl⟩ := hd.digits_eq fun c hc => (ht c hc).1
    exact scanFraction_point.mpr ⟨hd.1, rfl, rfl⟩

/-- A number that is spelled in front of something that ends it is scanned. -/
theorem scan_of_spells {n : Numeral} (h : SpellsNumber s n t) (ht : Delimited t) :
    scan p s = .ok (n, t) := by
  obtain ⟨negative, whole, fraction, exponent⟩ := n
  obtain ⟨hm, hw, h0, hf, he⟩ := h
  have hexp := head_of_spellsExponent he ht
  have hfrac := head_of_spellsFraction hf fun c hc => (hexp c hc).1
  have hscan := scanUnsigned_eq_ok.mpr ⟨whole, _, fraction, _, exponent,
    scanWhole_of_spells (p := p) hw h0 hfrac, scanFraction_of_spells hf hexp,
    scanExponent_of_spells he ht, (rfl : (⟨negative, _, _, _⟩ : Numeral) = _)⟩
  cases hm with
  | minus => exact hscan
  | absent =>
    obtain ⟨c, r, rfl, hc⟩ := hw.head
    rw [scan_of_ne (by rintro rfl; exact absurd hc (by decide))]
    exact hscan

end Numeral

theorem SpellsNumber.unique {s t t' : List Char} {n n' : Numeral} (h : SpellsNumber s n t)
    (ht : Delimited t) (h' : SpellsNumber s n' t') (ht' : Delimited t') : n = n' ∧ t = t' := by
  have heq := (Numeral.scan_of_spells h ht).symm.trans
    (Numeral.scan_of_spells (p := .invalidNumber) h' ht')
  simpa using heq

/-! ## Strings -/

theorem IsHexDigit.hexDigit?_eq {c : Char} {n : Nat} (h : IsHexDigit c n) : hexDigit? c = some n := by
  obtain ⟨hlt, h⟩ := h
  interval_cases n <;> rcases h with rfl | rfl <;> rfl

theorem IsHexDigit.unique {c : Char} {m n : Nat} (h : IsHexDigit c m) (h' : IsHexDigit c n) :
    m = n :=
  Option.some.inj (h.hexDigit?_eq.symm.trans h'.hexDigit?_eq)

theorem SpellsHex.unique {s t t' : List Char} {m n : Nat} (h : SpellsHex s m t)
    (h' : SpellsHex s n t') : m = n ∧ t = t' := by
  obtain ⟨hi, hj, hk, hl⟩ := h
  obtain ⟨hi', hj', hk', hl'⟩ := h'
  rw [hi.unique hi', hj.unique hj', hk.unique hk', hl.unique hl']
  exact ⟨rfl, rfl⟩

theorem escapes_unique : ∀ e ∈ escapes, e.1 ≠ 'u' ∧ ∀ f ∈ escapes, e.1 = f.1 → e = f := by
  decide

theorem SpellsUnits.unique {s t t' : List Char} {us us' : List Nat} (h : SpellsUnits s us t)
    (h' : SpellsUnits s us' t') : us = us' ∧ t = t' := by
  induction h generalizing us' t' with
  | close =>
    cases h' with
    | close => exact ⟨rfl, rfl⟩
    | plain hq => exact absurd rfl hq
  | plain hq hb _ _ ih =>
    cases h' with
    | close => exact absurd rfl hq
    | plain _ _ _ h' =>
      obtain ⟨rfl, rfl⟩ := ih h'
      exact ⟨rfl, rfl⟩
    | escape => exact absurd rfl hb
    | unit => exact absurd rfl hb
  | escape he _ ih =>
    cases h' with
    | plain _ hb => exact absurd rfl hb
    | escape he' h' =>
      obtain ⟨rfl, rfl⟩ := ih h'
      cases (escapes_unique _ he).2 _ he' rfl
      exact ⟨rfl, rfl⟩
    | unit => exact absurd rfl (escapes_unique _ he).1
  | unit hn _ ih =>
    cases h' with
    | plain _ hb => exact absurd rfl hb
    | escape he' => exact absurd rfl (escapes_unique _ he').1
    | unit hn' h' =>
      obtain ⟨rfl, rfl⟩ := hn.unique hn'
      obtain ⟨rfl, rfl⟩ := ih h'
      exact ⟨rfl, rfl⟩

/-! ## Values -/

/-- What a value is that begins with `c` and goes on with `s`. -/
def SpelledFrom (c : Char) (s : List Char) (v : Doc) (t : List Char) : Prop :=
  if c = 'n' then v = .null ∧ s = "ull".toList ++ t
  else if c = 't' then v = .bool true ∧ s = "rue".toList ++ t
  else if c = 'f' then v = .bool false ∧ s = "alse".toList ++ t
  else if c = '"' then ∃ us, v = .string us ∧ SpellsUnits s us t
  else if c = '[' then ∃ vs, v = .list vs ∧ SpellsItems true s vs t
  else if c = '{' then ∃ ms, v = .object ms ∧ SpellsMembers true s ms t
  else (c = '-' ∨ isDigit c) ∧ ∃ n, v = .number n ∧ SpellsNumber (c :: s) n t

theorem SpellsNumber.head {s t : List Char} {n : Numeral} (h : SpellsNumber s n t) :
    ∃ c r, s = c :: r ∧ (c = '-' ∨ isDigit c) := by
  obtain ⟨hm, hw, -, -, -⟩ := h
  generalize n.negative = negative at hm
  cases hm with
  | minus => exact ⟨_, _, rfl, .inl rfl⟩
  | absent =>
    obtain ⟨c, r, rfl, hc⟩ := hw.head
    exact ⟨c, r, rfl, .inr hc⟩

/-- A number begins with a character of its own. -/
theorem ne_of_number {c d : Char} (hc : c = '-' ∨ isDigit c) (hd : ¬ (d = '-' ∨ isDigit d)) :
    c ≠ d := by
  rintro rfl
  exact hd hc

theorem not_blank_of_number {c : Char} (hc : c = '-' ∨ isDigit c) : c ∉ blanks := by
  intro hmem
  unfold blanks at hmem
  fin_cases hmem <;> exact absurd hc (by decide)

theorem spelledFrom_number {c : Char} (hc : c = '-' ∨ isDigit c) {s t : List Char} {v : Doc} :
    SpelledFrom c s v t ↔ ∃ n, v = .number n ∧ SpellsNumber (c :: s) n t := by
  rw [SpelledFrom, if_neg (ne_of_number hc (by decide)), if_neg (ne_of_number hc (by decide)),
    if_neg (ne_of_number hc (by decide)), if_neg (ne_of_number hc (by decide)),
    if_neg (ne_of_number hc (by decide)), if_neg (ne_of_number hc (by decide))]
  exact and_iff_right hc

theorem Spells.spelledFrom {s t : List Char} {v : Doc} (h : Spells s v t) :
    ∃ c r, s = c :: r ∧ SpelledFrom c r v t := by
  cases h with
  | null => exact ⟨'n', _, rfl, rfl, rfl⟩
  | yes => exact ⟨'t', _, rfl, rfl, rfl⟩
  | no => exact ⟨'f', _, rfl, rfl, rfl⟩
  | number h =>
    obtain ⟨c, r, rfl, hc⟩ := h.head
    exact ⟨c, r, rfl, (spelledFrom_number hc).mpr ⟨_, rfl, h⟩⟩
  | string h => exact ⟨'"', _, rfl, _, rfl, h⟩
  | list h => exact ⟨'[', _, rfl, _, rfl, h⟩
  | object h => exact ⟨'{', _, rfl, _, rfl, h⟩

theorem Spells.of_cons {c : Char} {s t : List Char} {v : Doc} (h : Spells (c :: s) v t) :
    SpelledFrom c s v t := by
  obtain ⟨d, r, heq, hd⟩ := h.spelledFrom
  cases heq
  exact hd

theorem Spells.of_number {s t u : List Char} {n : Numeral} {v : Doc} (h : Spells s v t)
    (hn : SpellsNumber s n u) : ∃ m, v = .number m ∧ SpellsNumber s m t := by
  obtain ⟨c, r, rfl, hc⟩ := hn.head
  exact (spelledFrom_number hc).mp h.of_cons

/-- A value begins neither with a blank nor with the end of a list. -/
theorem Spells.start {s t : List Char} {v : Doc} (h : Spells s v t) :
    ∃ c r, s = c :: r ∧ c ∉ blanks ∧ c ≠ ']' := by
  obtain ⟨c, r, rfl, hc⟩ := h.spelledFrom
  refine ⟨c, r, rfl, fun hmem => ?_, ?_⟩
  · unfold blanks at hmem
    fin_cases hmem <;> simp [SpelledFrom, isDigit] at hc
  · rintro rfl
    simp [SpelledFrom, isDigit] at hc

theorem Gap.unique_value {s t u t' u' : List Char} {v v' : Doc} (h : Gap s u) (hv : Spells u v t)
    (h' : Gap s u') (hv' : Spells u' v' t') : u = u' := by
  obtain ⟨c, r, rfl, hc, -⟩ := hv.start
  obtain ⟨d, q, rfl, hd, -⟩ := hv'.start
  exact h.unique hc h' hd

/-! ## Between brackets -/

theorem SpellsMember.head {s t : List Char} {m : List Nat × Doc} (h : SpellsMember s m t) :
    ∃ r, s = '"' :: r := by
  cases h
  exact ⟨_, rfl⟩

theorem SpellsItems.delimited {s t : List Char} {vs : List Doc} (h : SpellsItems false s vs t) :
    Delimited s := by
  cases h with
  | close hs => exact hs.delimited ⟨rfl, by decide, by decide, by decide⟩
  | item hl =>
    cases hl with
    | next hs => exact hs.delimited ⟨rfl, by decide, by decide, by decide⟩

theorem SpellsMembers.delimited {s t : List Char} {ms : List (List Nat × Doc)}
    (h : SpellsMembers false s ms t) : Delimited s := by
  cases h with
  | close hs => exact hs.delimited ⟨rfl, by decide, by decide, by decide⟩
  | member hl =>
    cases hl with
    | next hs => exact hs.delimited ⟨rfl, by decide, by decide, by decide⟩

/-- A closer is not taken for the front of an item. -/
theorem Lead.not_closer {first : Bool} {b : Bracket} {s t u : List Char} {c : Char}
    (h : Lead first s (c :: t)) (hc : c ∉ blanks) (hne : c ≠ b.closer) :
    ¬ Gap s (b.closer :: u) := by
  have hb : b.closer ∉ blanks ∧ b.closer ≠ ',' := by cases b <;> decide
  intro hs
  cases h with
  | first hc' => exact hne (List.cons.inj (hc'.unique hc hs hb.1)).1
  | next hcomma _ => exact hb.2 (List.cons.inj (hcomma.unique (by decide) hs hb.1)).1.symm

theorem Lead.unique {first : Bool} {s t u : List Char} {c d : Char} (h : Lead first s (c :: t))
    (hc : c ∉ blanks) (h' : Lead first s (d :: u)) (hd : d ∉ blanks) : c :: t = d :: u := by
  cases h with
  | first hs =>
    cases h' with
    | first hs' => exact hs.unique hc hs' hd
  | next hs ht =>
    cases h' with
    | next hs' ht' =>
      cases hs.unique (by decide) hs' (by decide)
      exact ht.unique hc ht' hd

theorem Lead.unique_value {first : Bool} {s t u t' u' : List Char} {v v' : Doc}
    (h : Lead first s u) (hv : Spells u v t) (h' : Lead first s u') (hv' : Spells u' v' t') :
    u = u' := by
  obtain ⟨c, r, rfl, hc, -⟩ := hv.start
  obtain ⟨d, q, rfl, hd, -⟩ := hv'.start
  exact h.unique hc h' hd

theorem Lead.not_closer_value {first : Bool} {s t u w : List Char} {v : Doc}
    (h : Lead first s u) (hv : Spells u v t) : ¬ Gap s (']' :: w) := by
  obtain ⟨c, r, rfl, hc, hne⟩ := hv.start
  exact h.not_closer (b := .list) hc hne

theorem Lead.unique_member {first : Bool} {s t u t' u' : List Char} {m m' : List Nat × Doc}
    (h : Lead first s u) (hm : SpellsMember u m t) (h' : Lead first s u')
    (hm' : SpellsMember u' m' t') : u = u' := by
  obtain ⟨r, rfl⟩ := hm.head
  obtain ⟨q, rfl⟩ := hm'.head
  exact h.unique (by decide) h' (by decide)

theorem Lead.not_closer_member {first : Bool} {s t u w : List Char} {m : List Nat × Doc}
    (h : Lead first s u) (hm : SpellsMember u m t) : ¬ Gap s ('}' :: w) := by
  obtain ⟨r, rfl⟩ := hm.head
  exact h.not_closer (b := .object) (by decide) (by decide)

/-! ## Derivations -/

mutual

theorem Spells.unique {v v' : Doc} {s t t' : List Char} (h : Spells s v t) (ht : Delimited t)
    (h' : Spells s v' t') (ht' : Delimited t') : v = v' ∧ t = t' := by
  cases v with
  | null =>
    cases h
    obtain ⟨rfl, heq⟩ : v' = .null ∧ "ull".toList ++ t = "ull".toList ++ t' := h'.of_cons
    exact ⟨rfl, List.append_cancel_left heq⟩
  | bool b =>
    cases h with
    | yes =>
      obtain ⟨rfl, heq⟩ : v' = .bool true ∧ "rue".toList ++ t = "rue".toList ++ t' := h'.of_cons
      exact ⟨rfl, List.append_cancel_left heq⟩
    | no =>
      obtain ⟨rfl, heq⟩ : v' = .bool false ∧ "alse".toList ++ t = "alse".toList ++ t' := h'.of_cons
      exact ⟨rfl, List.append_cancel_left heq⟩
  | number n =>
    cases h with
    | number hn =>
      obtain ⟨n', rfl, hn'⟩ := h'.of_number hn
      obtain ⟨rfl, rfl⟩ := hn.unique ht hn' ht'
      exact ⟨rfl, rfl⟩
  | string us =>
    cases h with
    | string hu =>
      obtain ⟨us', rfl, hu'⟩ : ∃ us', v' = .string us' ∧ SpellsUnits _ us' t' := h'.of_cons
      obtain ⟨rfl, rfl⟩ := hu.unique hu'
      exact ⟨rfl, rfl⟩
  | list vs =>
    cases h with
    | list hi =>
      obtain ⟨vs', rfl, hi'⟩ : ∃ vs', v' = .list vs' ∧ SpellsItems true _ vs' t' := h'.of_cons
      obtain ⟨rfl, rfl⟩ := hi.unique hi'
      exact ⟨rfl, rfl⟩
  | object ms =>
    cases h with
    | object hm =>
      obtain ⟨ms', rfl, hm'⟩ : ∃ ms', v' = .object ms' ∧ SpellsMembers true _ ms' t' := h'.of_cons
      obtain ⟨rfl, rfl⟩ := hm.unique hm'
      exact ⟨rfl, rfl⟩
termination_by structural v

theorem SpellsItems.unique {vs vs' : List Doc} {first : Bool} {s t t' : List Char}
    (h : SpellsItems first s vs t) (h' : SpellsItems first s vs' t') : vs = vs' ∧ t = t' := by
  cases vs with
  | nil =>
    cases h with
    | close hs =>
      cases h' with
      | close hs' =>
        cases hs.unique (by decide) hs' (by decide)
        exact ⟨rfl, rfl⟩
      | item hl' hv' => exact absurd hs (hl'.not_closer_value hv')
  | cons v vs =>
    cases h with
    | item hl hv hi =>
      cases h' with
      | close hs' => exact absurd hs' (hl.not_closer_value hv)
      | item hl' hv' hi' =>
        rw [← hl.unique_value hv hl' hv'] at hv'
        obtain ⟨rfl, rfl⟩ := hv.unique hi.delimited hv' hi'.delimited
        obtain ⟨rfl, rfl⟩ := hi.unique hi'
        exact ⟨rfl, rfl⟩
termination_by structural vs

theorem SpellsMember.unique {m m' : List Nat × Doc} {s t t' : List Char} (h : SpellsMember s m t)
    (ht : Delimited t) (h' : SpellsMember s m' t') (ht' : Delimited t') : m = m' ∧ t = t' := by
  obtain ⟨key, v⟩ := m
  cases h with
  | mk hk hs hv =>
    cases h' with
    | mk hk' hs' hv' =>
      obtain ⟨rfl, rfl⟩ := hk.unique hk'
      cases hs.unique (by decide) hs' (by decide)
      obtain ⟨hu, hv⟩ := hv
      obtain ⟨hu', hv'⟩ := hv'
      rw [← hu.unique_value hv hu' hv'] at hv'
      obtain ⟨rfl, rfl⟩ := hv.unique ht hv' ht'
      exact ⟨rfl, rfl⟩
termination_by structural m

theorem SpellsMembers.unique {ms ms' : List (List Nat × Doc)} {first : Bool} {s t t' : List Char}
    (h : SpellsMembers first s ms t) (h' : SpellsMembers first s ms' t') : ms = ms' ∧ t = t' := by
  cases ms with
  | nil =>
    cases h with
    | close hs =>
      cases h' with
      | close hs' =>
        cases hs.unique (by decide) hs' (by decide)
        exact ⟨rfl, rfl⟩
      | member hl' hm' => exact absurd hs (hl'.not_closer_member hm')
  | cons m ms =>
    cases h with
    | member hl hm hi =>
      cases h' with
      | close hs' => exact absurd hs' (hl.not_closer_member hm)
      | member hl' hm' hi' =>
        rw [← hl.unique_member hm hl' hm'] at hm'
        obtain ⟨rfl, rfl⟩ := hm.unique hi.delimited hm' hi'.delimited
        obtain ⟨rfl, rfl⟩ := hi.unique hi'
        exact ⟨rfl, rfl⟩
termination_by structural ms

end

/-! ## Texts -/

theorem delimited_of_blanks {s : List Char} (h : ∀ c ∈ s, c ∈ blanks) : Delimited s :=
  Gap.delimited (t := []) ⟨s, h, (List.append_nil s).symm⟩ trivial

theorem Doc.IsText.unique {text : String} {v w : Doc} (h : v.IsText text) (h' : w.IsText text) :
    v = w := by
  obtain ⟨t, hv, ht⟩ := h
  obtain ⟨u, hw, hu⟩ := h'
  obtain ⟨hs, hv⟩ := hv
  obtain ⟨hs', hw⟩ := hw
  rw [← hs.unique_value hv hs' hw] at hw
  exact (hv.unique (delimited_of_blanks ht) hw (delimited_of_blanks hu)).1

end GrammarTables.Json
