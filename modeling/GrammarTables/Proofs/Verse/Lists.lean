import GrammarTables.Proofs.Rule.Reading
import GrammarTables.Verse

/-!
# Lists with separators

The grammar writes a list as an item and behind it any number of pairs of a separator and an item.
Whatever the items and separators are, empty ones too, this gives one or more items with a separator
between each two, and then what trails behind the list if anything does. In a list of arguments the
last comma is left out together with the arguments: a comma alone is not in any.
-/

namespace GrammarTables.Verse

open Rule Strings

section Readings

variable {α : Type*} (R : Reading α)

theorem strings_separated1 (separator item : Rule) (trail : Option Rule) :
    R.strings (separated1 separator item trail) =
      separated (R.strings item) (R.strings separator) * R.stringsIfAny trail := by
  have hpair : R.strings (precLeft 1 (seq [separator, item])) =
      R.strings separator * R.strings item := by
    simp [R.strings_precLeft, R.strings_seq]
  rw [separated1, R.strings_seq, List.map_append, List.prod_append, R.prod_strings_toList,
    separated_eq]
  simp [R.strings_repeat0, hpair]

theorem strings_argument :
    R.strings argument = R.strings (symbol "_expr") + R.strings (symbol "named_argument") := by
  ext w
  rw [argument, R.mem_strings_choice, Language.mem_add]
  simp

theorem strings_argumentList (opener closer : String) :
    R.strings (argumentList opener closer) =
      R.strings (string opener) *
        (separated (R.strings argument) (R.strings (string ",")) * (R.strings (string ",") + 1) + 1) *
        R.strings (string closer) := by
  rw [argumentList, R.strings_seq]
  simp [R.strings_optional, strings_separated1, Reading.stringsIfAny, mul_assoc]

theorem mem_separated1 {separator item : Rule} {trail : Option Rule} {w : List α} :
    w ∈ R.strings (separated1 separator item trail) ↔
      ∃ l ∈ separated (R.strings item) (R.strings separator), ∃ t ∈ R.stringsIfAny trail,
        w = l ++ t := by
  simp only [strings_separated1, Language.mem_mul, eq_comm]

theorem mem_argumentList {opener closer : String} {w : List α} :
    w ∈ R.strings (argumentList opener closer) ↔
      ∃ o ∈ R.strings (string opener), ∃ body, ∃ c ∈ R.strings (string closer),
        w = o ++ body ++ c ∧
          (body = [] ∨ ∃ l ∈ separated (R.strings argument) (R.strings (string ",")),
            ∃ t, (t = [] ∨ t ∈ R.strings (string ",")) ∧ body = l ++ t) := by
  rw [strings_argumentList, mul_assoc]
  simp only [Language.mem_mul, Language.mem_add, Language.mem_one]
  constructor
  · rintro ⟨o, ho, _, ⟨body, hbody, c, hc, rfl⟩, rfl⟩
    refine ⟨o, ho, body, c, hc, (List.append_assoc ..).symm, ?_⟩
    rcases hbody with ⟨l, hl, t, ht, rfl⟩ | hbody
    · exact .inr ⟨l, hl, t, ht.symm, rfl⟩
    · exact .inl hbody
  · rintro ⟨o, ho, body, c, hc, rfl, hbody⟩
    refine ⟨o, ho, body ++ c, ⟨body, ?_, c, hc, rfl⟩, (List.append_assoc ..).symm⟩
    rcases hbody with hbody | ⟨l, hl, t, ht, rfl⟩
    · exact .inr hbody
    · exact .inl ⟨l, hl, t, ht.symm, rfl⟩

/-- However rules are read, a list with separators has just the strings `i₁ s₁ i₂ s₂ … iₖ t`, and a
list of arguments those that open, hold nothing or such a list of arguments, and close. -/
theorem lists_exact :
    (∀ (separator item : Rule) (trail : Option Rule) (w : List α),
      w ∈ R.strings (separated1 separator item trail) ↔
        ∃ l ∈ separated (R.strings item) (R.strings separator), ∃ t ∈ R.stringsIfAny trail,
          w = l ++ t) ∧
    ∀ (opener closer : String) (w : List α),
      w ∈ R.strings (argumentList opener closer) ↔
        ∃ o ∈ R.strings (string opener), ∃ body, ∃ c ∈ R.strings (string closer),
          w = o ++ body ++ c ∧
            (body = [] ∨
              ∃ l ∈ separated (R.strings (symbol "_expr") + R.strings (symbol "named_argument"))
                  (R.strings (string ",")),
                ∃ t, (t = [] ∨ t ∈ R.strings (string ",")) ∧ body = l ++ t) := by
  refine ⟨fun _ _ _ _ => mem_separated1 R, fun _ _ _ => ?_⟩
  rw [mem_argumentList, strings_argument]

end Readings

/-- A literal is read as one word, its text, and a reference as one word, its name. -/
def inWords : Reading String :=
  Reading.letters.substitute fun
    | .symbol name => {[name]}
    | .terminal node => {[node.literal?.getD ""]}

theorem inWords_symbol (name : String) : inWords.strings (symbol name) = {[name]} :=
  Reading.letters.strings_substitute _ (a := .symbol name) (language_of_symbol rfl rfl)

theorem inWords_string (text : String) : inWords.strings (string text) = {[text]} :=
  Reading.letters.strings_substitute _ (a := .terminal (string text)) (language_of_isToken rfl)

theorem lists_exact_inWords :
    ["x", ",", "x", ";"] ∈
      inWords.strings (separated1 (string ",") (symbol "x") (some (string ";"))) ∧
    ["(", "_expr", ",", "named_argument", ",", ")"] ∈ inWords.strings (argumentList "(" ")") ∧
    ["(", ",", ")"] ∉ inWords.strings (argumentList "(" ")") := by
  obtain ⟨hlist, harguments⟩ := lists_exact inWords
  specialize hlist (string ",") (symbol "x") (some (string ";")) ["x", ",", "x", ";"]
  specialize harguments "(" ")"
  simp only [Reading.stringsIfAny, inWords_symbol, inWords_string] at hlist harguments
  refine ⟨hlist.mpr ?_, (harguments _).mpr ?_, fun h => ?_⟩
  · have htwo : ["x"] ++ [","] ++ ["x"] ∈ separated {["x"]} {[","]} :=
      append_mem_separated (i := ["x"]) rfl rfl (mem_separated_of_mem rfl)
    exact ⟨_, htwo, [";"], rfl, rfl⟩
  · have htwo : ["_expr"] ++ [","] ++ ["named_argument"] ∈
        separated ({["_expr"]} + {["named_argument"]}) {[","]} :=
      append_mem_separated (Or.inl rfl) rfl (mem_separated_of_mem (Or.inr rfl))
    exact ⟨["("], rfl, _, [")"], rfl, rfl, .inr ⟨_, htwo, [","], .inr rfl, rfl⟩⟩
  · obtain ⟨_, rfl, body, _, rfl, hbody, hlisted⟩ := (harguments _).mp h
    have hbody : [","] ++ [")"] = body ++ [")"] := (List.cons.inj hbody).2
    obtain rfl := List.append_cancel_right hbody
    rcases hlisted with hempty | ⟨l, hl, t, -, hcomma⟩
    · cases hempty
    · rw [separated_eq] at hl
      -- The list begins with an argument, and a comma is none.
      obtain ⟨i, rfl | rfl, v, -, rfl⟩ := Language.mem_mul.mp hl
      · simp at hcomma
      · simp at hcomma

end GrammarTables.Verse
