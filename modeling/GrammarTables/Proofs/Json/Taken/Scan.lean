import GrammarTables.Json.Record
import GrammarTables.Proofs.Json.Unambiguous

/-!
# What the scanners take

Whatever the grammar of JSON has at the front of a text, the scanners take off it up to its end. A
string is read if its code units are those of a text; it is passed over in any case.
-/

namespace GrammarTables.Json

variable {s t : List Char}

/-! ## Words -/

theorem word_append_self (w t : List Char) : word w (w ++ t) = .ok t := by
  induction w with
  | nil => rfl
  | cons c w ih => rw [List.cons_append, word, if_pos rfl, ih]

/-! ## Numbers -/

theorem readNumber_of_spells {n : Numeral} {x : Number} (h : SpellsNumber s n t)
    (hx : n.value = .ok x) (ht : Delimited t) : readNumber s = .ok (x, t) := by
  simp only [readNumber, Numeral.scan_of_spells h ht, hx]

/-! ## Strings -/

theorem readHex_of_spells {n : Nat} (h : SpellsHex s n t) : readHex s = .ok (n, t) := by
  obtain ⟨hi, hj, hk, hl⟩ := h
  simp only [readHex, hexDigits?, hi.hexDigit?_eq, hj.hexDigit?_eq, hk.hexDigit?_eq,
    hl.hexDigit?_eq, Option.bind_eq_bind, Option.bind_some, Option.pure_def]

theorem shortEscape?_of_mem : ∀ e ∈ escapes, shortEscape? e.1 = some e.2 := by decide

theorem skipString_escape (h : skipEscape s = .ok t) : skipString ('\\' :: s) = skipString t := by
  rw [skipString, if_neg (by decide), if_pos rfl]
  split
  · next he => rw [h] at he; cases he
  · next he => rw [h] at he; cases he; rfl

theorem skipString_of_spells {us : List Nat} (h : SpellsUnits s us t) : skipString s = .ok t := by
  induction h with
  | close => rw [skipString, if_pos rfl]
  | plain hq hb hc _ ih =>
    rw [skipString, if_neg hq, if_neg hb, if_neg (by simpa [isControl] using hc), ih]
  | escape he _ ih =>
    refine (skipString_escape ?_).trans ih
    rw [skipEscape, if_neg (escapes_unique _ he).1, shortEscape?_of_mem _ he]
    rfl
  | unit hn _ ih =>
    refine (skipString_escape ?_).trans ih
    rw [skipEscape, if_pos rfl, readHex_of_spells hn]
    rfl

theorem exists_of_flatMap_charUnits {cs : List Char} {n : Nat} {us : List Nat}
    (h : cs.flatMap charUnits = n :: us) :
    ∃ c ds, cs = c :: ds ∧ charUnits c ++ ds.flatMap charUnits = n :: us := by
  cases cs with
  | nil => nomatch h
  | cons c ds => exact ⟨c, ds, rfl, h⟩

theorem exists_of_charUnits_append {c : Char} {us : List Nat} {cs : List Char}
    (h : charUnits c ++ us = cs.flatMap charUnits) :
    ∃ ds, cs = c :: ds ∧ us = ds.flatMap charUnits := by
  cases cs with
  | nil => exact absurd (List.append_eq_nil_iff.mp h).1 (charUnits_ne_nil c)
  | cons d ds =>
    obtain ⟨rfl, rfl⟩ := charUnits_inj h
    exact ⟨ds, rfl, rfl⟩

/-- A character that begins with the code unit `n` is that unit, or a pair of which it is the
first half. -/
theorem charUnits_cases {c : Char} {n : Nat} {us vs : List Nat} (h : charUnits c ++ us = n :: vs) :
    (isTrail n = false ∧ isLead n = false ∧ Char.ofNat n = c ∧ us = vs) ∨
    ∃ m, isTrail n = false ∧ isLead n ∧ isTrail m ∧ pairChar n m = c ∧ vs = m :: us := by
  have hc := toNat_lt_or_surrogate_lt c
  by_cases hplane : c.toNat < 0x10000
  · rw [charUnits, if_pos hplane] at h
    obtain ⟨rfl, rfl⟩ := List.cons.inj h
    refine .inl ⟨?_, ?_, Char.ofNat_toNat c, rfl⟩
    · simp only [isTrail, Bool.and_eq_false_imp, decide_eq_true_eq, decide_eq_false_iff_not]
      omega
    · simp only [isLead, Bool.and_eq_false_imp, decide_eq_true_eq, decide_eq_false_iff_not]
      omega
  · rw [charUnits, if_neg hplane] at h
    obtain ⟨hn, hvs⟩ := List.cons.inj h
    have hlead : isLead n := by
      simp only [isLead, Bool.and_eq_true, decide_eq_true_eq]
      omega
    have hnot : isTrail n = false := by
      simp only [isTrail, Bool.and_eq_false_imp, decide_eq_true_eq, decide_eq_false_iff_not]
      omega
    have htrail : isTrail (0xDC00 + (c.toNat - 0x10000) % 0x400) := by
      simp only [isTrail, Bool.and_eq_true, decide_eq_true_eq]
      omega
    refine .inr ⟨_, hnot, hlead, htrail, ?_, hvs.symm⟩
    have hunits := charUnits_pairChar hlead htrail
    refine (@charUnits_inj _ _ [] [] ?_).1
    rw [List.append_nil, List.append_nil, hunits, charUnits, if_neg hplane, hn]

theorem not_isTrail_of_charUnits {c : Char} {us vs : List Nat} {m : Nat}
    (h : charUnits c ++ us = m :: vs) : isTrail m = false := by
  rcases charUnits_cases h with ⟨hm, -⟩ | ⟨_, hm, -⟩ <;> exact hm

theorem readUnicode_char {n : Nat} (h : SpellsHex s n t) (ht : isTrail n = false)
    (hl : isLead n = false) : readUnicode s = .ok (Char.ofNat n, t) := by
  simp only [readUnicode, readHex_of_spells h, ht, hl, Bool.false_eq_true, ↓reduceIte]

theorem readUnicode_pair {lead trail : Nat} {u : List Char} (h : SpellsHex s lead ('\\' :: 'u' :: u))
    (ht : isTrail lead = false) (hl : isLead lead) (hu : SpellsHex u trail t)
    (htrail : isTrail trail) : readUnicode s = .ok (pairChar lead trail, t) := by
  simp only [readUnicode, readHex_of_spells h, ht, hl, Bool.false_eq_true, ↓reduceIte, readTrail,
    readHex_of_spells hu, htrail]

theorem readString_unicode {c : Char} (h : readUnicode s = .ok (c, t)) :
    readString ('\\' :: 'u' :: s) = (readString t).map fun (ds, r) => (c :: ds, r) :=
  readString_escape (by rw [readEscape, if_pos rfl, h])

/-- A string is read if its units are those of characters. The second half of a pair cannot stand at
the front of such a string; it is spelled by an escape, and what is behind that is read. -/
theorem readString_of_spellsUnits {us : List Nat} (h : SpellsUnits s us t) :
    (∀ cs, us = cs.flatMap charUnits → readString s = .ok (cs, t)) ∧
    ∀ m vs, us = m :: vs → isTrail m → ∃ r u, s = '\\' :: 'u' :: r ∧ SpellsHex r m u ∧
      ∀ cs, vs = cs.flatMap charUnits → readString u = .ok (cs, t) := by
  induction h with
  | close =>
    refine ⟨fun cs hcs => ?_, nofun⟩
    cases cs with
    | nil => rw [readString, if_pos rfl]
    | cons c cs => exact absurd (List.append_eq_nil_iff.mp hcs.symm).1 (charUnits_ne_nil c)
  | plain hq hb hc _ ih =>
    refine ⟨fun cs hcs => ?_, fun m vs hm ht => ?_⟩
    · obtain ⟨ds, rfl, hds⟩ := exists_of_charUnits_append hcs
      rw [readString, if_neg hq, if_neg hb, if_neg (by simpa [isControl] using hc), ih.1 ds hds]
      rfl
    · rw [not_isTrail_of_charUnits hm] at ht
      cases ht
  | escape he _ ih =>
    refine ⟨fun cs hcs => ?_, fun m vs hm ht => ?_⟩
    · obtain ⟨ds, rfl, hds⟩ := exists_of_charUnits_append hcs
      rw [readString_escape, ih.1 ds hds]
      · rfl
      · rw [readEscape, if_neg (escapes_unique _ he).1, shortEscape?_of_mem _ he]
    · rw [not_isTrail_of_charUnits hm] at ht
      cases ht
  | unit hn _ ih =>
    refine ⟨fun cs hcs => ?_, fun m vs hm ht => ?_⟩
    · obtain ⟨c, ds, rfl, hunits⟩ := exists_of_flatMap_charUnits hcs.symm
      rcases charUnits_cases hunits with ⟨ht, hl, rfl, hds⟩ | ⟨m, ht, hl, hm, rfl, hus⟩
      · rw [readString_unicode (readUnicode_char hn ht hl), ih.1 ds hds.symm]
        rfl
      · obtain ⟨r, u, rfl, hr, hu⟩ := ih.2 m _ hus hm
        rw [readString_unicode (readUnicode_pair hn ht hl hr hm), hu ds rfl]
        rfl
    · obtain ⟨rfl, rfl⟩ := List.cons.inj hm
      exact ⟨_, _, rfl, hn, ih.1⟩

theorem readString_of_spells {text : String} (h : SpellsUnits s (codeUnits text) t) :
    readString s = .ok (text.toList, t) :=
  (readString_of_spellsUnits h).1 _ rfl

/-! ## Between brackets -/

theorem readColon_of_gap (h : Gap s (':' :: t)) : readColon s = .ok t := by
  simp only [readColon, dropBlank_of_gap h (by decide)]

theorem nextItem_close (first : Bool) (h : Gap s (']' :: t)) : nextItem first s = .ok (.close t) := by
  simp only [nextItem, dropBlank_of_gap h (by decide), if_true]

theorem nextItem_of_lead {first : Bool} {c : Char} (h : Lead first s (c :: t)) (hc : c ∉ blanks)
    (hne : c ≠ ']') : nextItem first s = .ok (.item (c :: t)) := by
  cases h with
  | first h => simp only [nextItem, dropBlank_of_gap h hc, if_neg hne, if_true]
  | next h h' =>
    simp only [nextItem, dropBlank_of_gap h (by decide), dropBlank_of_gap h' hc, if_neg hne, if_true]
    rfl

theorem nextKey_close (first : Bool) (h : Gap s ('}' :: t)) : nextKey first s = .ok (.close t) := by
  simp only [nextKey, dropBlank_of_gap h (by decide), if_true]

theorem readKey_of_spells {key : String} (h : SpellsUnits s (codeUnits key) t) :
    readKey ('"' :: s) = .ok (.key key t) := by
  simp only [readKey, readString_of_spells h, Except.map, String.ofList_toList]

theorem nextKey_of_lead {first : Bool} {u : List Char} {key : String} (h : Lead first s ('"' :: u))
    (hu : SpellsUnits u (codeUnits key) t) : nextKey first s = .ok (.key key t) := by
  rw [← readKey_of_spells hu]
  cases h with
  | first h => simp only [nextKey, dropBlank_of_gap h (by decide)]; rfl
  | next h h' =>
    simp only [nextKey, dropBlank_of_gap h (by decide), dropBlank_of_gap h' (by decide)]; rfl

theorem closeList_of_gap (h : Gap s (']' :: t)) : closeList s = .ok t := by
  simp only [closeList, dropBlank_of_gap h (by decide)]

end GrammarTables.Json
