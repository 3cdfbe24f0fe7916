import GrammarTables.Json.Numeral
import GrammarTables.Proofs.Json.MoreText.Text
import Mathlib.Data.Nat.Digits.Defs

/-!
# The grammar of JSON texts

A `Doc` is a JSON value of which nothing is lost: a number keeps its digits, a string its UTF-16
code units, which an escape may leave unpaired, and an object its members in their order.

The grammar relates texts to documents. `Spells s v t` says that `s` is a text of `v` with `t`
behind it, and so do the relations for the parts of a text.
-/

namespace GrammarTables.Json

inductive Doc where
  | null
  | bool (b : Bool)
  | number (n : Numeral)
  | string (units : List Nat)
  | list (items : List Doc)
  | object (members : List (List Nat × Doc))

/-! ## Blanks -/

/-- Only blanks stand before `t` in `s`. -/
def Gap (s t : List Char) : Prop := ∃ w, (∀ c ∈ w, c ∈ blanks) ∧ s = w ++ t

/-! ## Numbers -/

def SpellsDigits (s : List Char) (ds : List Nat) (t : List Char) : Prop :=
  ds ≠ [] ∧ (∀ d ∈ ds, d < 10) ∧ s = ds.map Nat.digitChar ++ t

/-- A minus sign, if the number is negative. -/
inductive SpellsMinus : List Char → Bool → List Char → Prop where
  | absent {s : List Char} : SpellsMinus s false s
  | minus {s : List Char} : SpellsMinus ('-' :: s) true s

/-- The sign of an exponent. -/
inductive SpellsSign : List Char → Bool → List Char → Prop where
  | absent {s : List Char} : SpellsSign s false s
  | plus {s : List Char} : SpellsSign ('+' :: s) false s
  | minus {s : List Char} : SpellsSign ('-' :: s) true s

inductive SpellsFraction : List Char → List Nat → List Char → Prop where
  | absent {s : List Char} : SpellsFraction s [] s
  | point {s t : List Char} {ds : List Nat} : SpellsDigits s ds t →
      SpellsFraction ('.' :: s) ds t

inductive SpellsExponent : List Char → Option (Bool × List Nat) → List Char → Prop where
  | absent {s : List Char} : SpellsExponent s none s
  | power {e : Char} {s t u : List Char} {down : Bool} {ds : List Nat} : e = 'e' ∨ e = 'E' →
      SpellsSign s down u → SpellsDigits u ds t → SpellsExponent (e :: s) (some (down, ds)) t

/-- A number has no zero in front of other digits. -/
inductive SpellsNumber : List Char → Numeral → List Char → Prop where
  | mk {s t u v w : List Char} {n : Numeral} : SpellsMinus s n.negative u →
      SpellsDigits u n.whole v → (n.whole.head? = some 0 → n.whole = [0]) →
      SpellsFraction v n.fraction w → SpellsExponent w n.exponent t → SpellsNumber s n t

/-- The number that the digits before the point spell. -/
def Numeral.magnitude (n : Numeral) : Nat := Nat.ofDigits 10 n.whole.reverse

/-- The numeral stands for a whole number, and is written as one. -/
def Numeral.Denotes (n : Numeral) (k : Int) : Prop :=
  n.fraction = [] ∧ n.exponent = none ∧
    k = if n.negative then -(n.magnitude : Int) else n.magnitude

/-! ## Strings -/

/-- The UTF-16 code units of a character. -/
def charUnits (c : Char) : List Nat :=
  if c.toNat < 0x10000 then [c.toNat]
  else [0xD800 + (c.toNat - 0x10000) / 0x400, 0xDC00 + (c.toNat - 0x10000) % 0x400]

/-- The UTF-16 code units of a text. -/
def codeUnits (text : String) : List Nat := text.toList.flatMap charUnits

/-- The escapes of one letter, and the characters they stand for. -/
def escapes : List (Char × Char) :=
  [('"', '"'), ('\\', '\\'), ('/', '/'), ('b', '\x08'), ('f', '\x0c'), ('n', '\n'), ('r', '\r'),
    ('t', '\t')]

def IsHexDigit (c : Char) (n : Nat) : Prop :=
  n < 16 ∧ (c = n.digitChar ∨ c = n.digitChar.toUpper)

/-- Four hexadecimal digits. -/
inductive SpellsHex : List Char → Nat → List Char → Prop where
  | mk {a b c d : Char} {i j k l : Nat} {t : List Char} : IsHexDigit a i → IsHexDigit b j →
      IsHexDigit c k → IsHexDigit d l →
      SpellsHex (a :: b :: c :: d :: t) (((i * 16 + j) * 16 + k) * 16 + l) t

/-- What stands behind the opening quote of a string, up to its closing quote. -/
inductive SpellsUnits : List Char → List Nat → List Char → Prop where
  | close {t : List Char} : SpellsUnits ('"' :: t) [] t
  | plain {c : Char} {s t : List Char} {us : List Nat} : c ≠ '"' → c ≠ '\\' → 0x20 ≤ c.toNat →
      SpellsUnits s us t → SpellsUnits (c :: s) (charUnits c ++ us) t
  | escape {c d : Char} {s t : List Char} {us : List Nat} : (c, d) ∈ escapes →
      SpellsUnits s us t → SpellsUnits ('\\' :: c :: s) (charUnits d ++ us) t
  | unit {n : Nat} {s t u : List Char} {us : List Nat} : SpellsHex s n u → SpellsUnits u us t →
      SpellsUnits ('\\' :: 'u' :: s) (n :: us) t

/-! ## Values -/

/-- What stands between brackets before an item: blanks, and a comma if it is not the first. -/
inductive Lead : Bool → List Char → List Char → Prop where
  | first {s t : List Char} : Gap s t → Lead true s t
  | next {s t u : List Char} : Gap s (',' :: u) → Gap u t → Lead false s t

mutual

inductive Spells : List Char → Doc → List Char → Prop where
  | null {t : List Char} : Spells ("null".toList ++ t) .null t
  | yes {t : List Char} : Spells ("true".toList ++ t) (.bool true) t
  | no {t : List Char} : Spells ("false".toList ++ t) (.bool false) t
  | number {s t : List Char} {n : Numeral} : SpellsNumber s n t → Spells s (.number n) t
  | string {s t : List Char} {us : List Nat} : SpellsUnits s us t →
      Spells ('"' :: s) (.string us) t
  | list {s t : List Char} {vs : List Doc} : SpellsItems true s vs t →
      Spells ('[' :: s) (.list vs) t
  | object {s t : List Char} {ms : List (List Nat × Doc)} : SpellsMembers true s ms t →
      Spells ('{' :: s) (.object ms) t

/-- Blanks may stand before a value. -/
inductive Front : List Char → Doc → List Char → Prop where
  | mk {s t u : List Char} {v : Doc} : Gap s u → Spells u v t → Front s v t

/-- The items of a list, from the first or from a later one on, and the end of the list. -/
inductive SpellsItems : Bool → List Char → List Doc → List Char → Prop where
  | close {first : Bool} {s t : List Char} : Gap s (']' :: t) → SpellsItems first s [] t
  | item {first : Bool} {s t u w : List Char} {v : Doc} {vs : List Doc} : Lead first s u →
      Spells u v w → SpellsItems false w vs t → SpellsItems first s (v :: vs) t

inductive SpellsMember : List Char → List Nat × Doc → List Char → Prop where
  | mk {s t u v : List Char} {key : List Nat} {d : Doc} : SpellsUnits s key u →
      Gap u (':' :: v) → Front v d t → SpellsMember ('"' :: s) (key, d) t

/-- The members of an object, from the first or from a later one on, and the end of the object. -/
inductive SpellsMembers : Bool → List Char → List (List Nat × Doc) → List Char → Prop where
  | close {first : Bool} {s t : List Char} : Gap s ('}' :: t) → SpellsMembers first s [] t
  | member {first : Bool} {s t u w : List Char} {m : List Nat × Doc}
      {ms : List (List Nat × Doc)} : Lead first s u → SpellsMember u m w →
      SpellsMembers false w ms t → SpellsMembers first s (m :: ms) t

end

/-- The text is one value with nothing but blanks around it. -/
def Doc.IsText (v : Doc) (text : String) : Prop :=
  ∃ t, Front text.toList v t ∧ ∀ c ∈ t, c ∈ blanks

/-! ## Blanks between parts -/

theorem Gap.refl (s : List Char) : Gap s s := ⟨[], nofun, rfl⟩

theorem Gap.trans {s t u : List Char} (h : Gap s t) (h' : Gap t u) : Gap s u := by
  obtain ⟨v, hv, rfl⟩ := h
  obtain ⟨w, hw, rfl⟩ := h'
  exact ⟨v ++ w, fun c hc => (List.mem_append.mp hc).elim (hv c) (hw c), (List.append_assoc ..).symm⟩

theorem Lead.gap {first : Bool} {s t u : List Char} (h : Lead first s t) (ht : Gap t u) :
    Lead first s u := by
  cases h with
  | first hs => exact .first (hs.trans ht)
  | next hs hu => exact .next hs (hu.trans ht)

theorem SpellsItems.front {first : Bool} {s t u w : List Char} {v : Doc} {vs : List Doc}
    (hl : Lead first s u) (hv : Front u v w) (hs : SpellsItems false w vs t) :
    SpellsItems first s (v :: vs) t := by
  obtain ⟨hu, hv⟩ := hv
  exact .item (hl.gap hu) hv hs

/-! ## Code units -/

theorem toNat_lt_or_surrogate_lt (c : Char) :
    c.toNat < 0xD800 ∨ 0xDFFF < c.toNat ∧ c.toNat < 0x110000 :=
  c.valid

theorem charUnits_ne_nil (c : Char) : charUnits c ≠ [] := by
  unfold charUnits
  split <;> nofun

/-- No character begins with all the code units of another one. -/
theorem charUnits_inj {c d : Char} {us vs : List Nat} (h : charUnits c ++ us = charUnits d ++ vs) :
    c = d ∧ us = vs := by
  have hc := toNat_lt_or_surrogate_lt c
  have hd := toNat_lt_or_surrogate_lt d
  suffices c.toNat = d.toNat ∧ us = vs from ⟨Char.ext (UInt32.toNat_inj.mp this.1), this.2⟩
  unfold charUnits at h
  split at h <;> split at h <;>
    simp only [List.cons_append, List.nil_append, List.cons.injEq] at h
  · exact h
  · omega
  · omega
  · exact ⟨by omega, h.2.2⟩

theorem flatMap_charUnits_inj {cs ds : List Char}
    (h : cs.flatMap charUnits = ds.flatMap charUnits) : cs = ds := by
  induction cs generalizing ds with
  | nil =>
    cases ds with
    | nil => rfl
    | cons d ds => exact absurd (List.append_eq_nil_iff.mp h.symm).1 (charUnits_ne_nil d)
  | cons c cs ih =>
    cases ds with
    | nil => exact absurd (List.append_eq_nil_iff.mp h).1 (charUnits_ne_nil c)
    | cons d ds =>
      rw [List.flatMap_cons, List.flatMap_cons] at h
      obtain ⟨rfl, hs⟩ := charUnits_inj h
      rw [ih hs]

theorem codeUnits_inj {s t : String} (h : codeUnits s = codeUnits t) : s = t :=
  String.toList_inj.mp (flatMap_charUnits_inj h)

end GrammarTables.Json
