/-!
# Ascending lists

What occurs in a list, in ascending order and each once.
-/

namespace GrammarTables.Ascending

variable {α : Type} [LT α] [DecidableLT α] [DecidableEq α]

/-- Puts an item in its place, unless it is there. -/
def insert (a : α) : List α → List α
  | [] => [a]
  | b :: bs => if a < b then a :: b :: bs else if a = b then b :: bs else b :: insert a bs

def ofList (as : List α) : List α := as.foldr insert []

theorem mem_insert {a x : α} {bs : List α} : x ∈ insert a bs ↔ x = a ∨ x ∈ bs := by
  induction bs with
  | nil => simp [insert]
  | cons b bs ih =>
    unfold insert
    split
    · simp
    · split <;> simp_all
      grind

@[simp] theorem mem_ofList {x : α} {as : List α} : x ∈ ofList as ↔ x ∈ as := by
  induction as with
  | nil => simp [ofList]
  | cons a as ih => simp_all [ofList, mem_insert]

end GrammarTables.Ascending
