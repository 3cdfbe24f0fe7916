import GrammarTables.Proofs.Rule.Language
import GrammarTables.Proofs.Strings
import GrammarTables.Rule.Combinators

/-!
# Readings of rules

A rule may be read as a set of strings over any alphabet. What references and tokens stand for is
left to the reading; but a sequence is read as strings of its members one behind the other, a choice
as the strings of all its members, a repetition as any number of strings of its content, and a
precedence as its content. The language of a rule is one such reading, and so is what comes of a
reading when its letters stand for strings in turn.
-/

namespace GrammarTables.Rule

open Strings
open scoped Computability

/-- A set of strings for every rule. The product of sets of strings is their concatenation. -/
structure Reading (α : Type*) where
  strings : Rule → Language α
  strings_blank : strings blank = 1
  strings_seq (members : List Rule) : strings (seq members) = (members.map strings).prod
  mem_strings_choice (members : List Rule) (w : List α) :
    w ∈ strings (choice members) ↔ ∃ m ∈ members, w ∈ strings m
  strings_repeat0 (content : Rule) : strings (repeat0 content) = (strings content)∗
  strings_leveled {kind : Kind} (h : kind.isPrecedence) (level : Int32) (content : Rule) :
    strings (leveled kind level content) = strings content

namespace Reading

variable {α : Type*} (R : Reading α)

theorem strings_optional (content : Rule) : R.strings (optional content) = R.strings content + 1 := by
  ext w
  rw [optional, R.mem_strings_choice, Language.mem_add, ← R.strings_blank]
  simp

theorem strings_precLeft (level : Int32) (content : Rule) :
    R.strings (precLeft level content) = R.strings content :=
  R.strings_leveled rfl level content

/-- The strings of a part, or just the empty one if there is no such part. -/
def stringsIfAny : Option Rule → Language α
  | none => 1
  | some part => R.strings part

theorem prod_strings_toList (part : Option Rule) :
    (part.toList.map R.strings).prod = R.stringsIfAny part := by
  cases part <;> simp [stringsIfAny]

end Reading

/-! ## Languages as readings -/

theorem Kind.isWrapper_of_isPrecedence {k : Kind} (h : k.isPrecedence) : k.isWrapper := by
  cases k <;> first | rfl | cases h

namespace Reading

/-- Every rule by its language. -/
def letters : Reading Letter where
  strings := language
  strings_blank := language_of_blank rfl
  strings_seq _ := language_of_seq rfl
  mem_strings_choice _ _ := mem_language_of_choice rfl
  strings_repeat0 _ := language_of_repeat0 rfl rfl
  strings_leveled h _ _ := language_of_isWrapper (Kind.isWrapper_of_isPrecedence h) rfl

variable {α β : Type*} (R : Reading α) (f : α → Language β)

/-- The reading whose letters in turn stand for strings. -/
def substitute : Reading β where
  strings r := substitution f (R.strings r)
  strings_blank := by rw [R.strings_blank, map_one]
  strings_seq members := by
    rw [R.strings_seq, map_list_prod, List.map_map]
    rfl
  mem_strings_choice members w := by
    show w ∈ substituted f _ ↔ ∃ m ∈ members, w ∈ substituted f _
    simp only [mem_substituted, R.mem_strings_choice]
    constructor
    · rintro ⟨u, ⟨m, hm, hu⟩, hw⟩
      exact ⟨m, hm, u, hu, hw⟩
    · rintro ⟨m, hm, u, hu, hw⟩
      exact ⟨u, ⟨m, hm, hu⟩, hw⟩
  strings_repeat0 content := by rw [R.strings_repeat0, substitution_kstar]
  strings_leveled h level content := by rw [R.strings_leveled h]

/-- A rule with just one string, of one letter, has the strings of that letter. -/
theorem strings_substitute {r : Rule} {a : α} (h : R.strings r = {[a]}) :
    (R.substitute f).strings r = f a := by
  show substituted f (R.strings r) = f a
  rw [h, substituted_singleton]

end Reading

end GrammarTables.Rule
