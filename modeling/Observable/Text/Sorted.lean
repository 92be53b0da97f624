/-! Sorting that keeps the order of equal members. -/
namespace Observable

variable {α : Type}

/-- Puts a member in front of the first one that may follow it. -/
def insertSorted (le : α → α → Bool) (a : α) : List α → List α
  | [] => [a]
  | b :: rest => if le a b then a :: b :: rest else b :: insertSorted le a rest

/-- The members of a list in order; equal ones stay in the order in which they came. -/
def sorted (le : α → α → Bool) : List α → List α
  | [] => []
  | a :: rest => insertSorted le a (sorted le rest)

theorem insertSorted_perm (le : α → α → Bool) (a : α) (l : List α) :
    (insertSorted le a l).Perm (a :: l) := by
  induction l with
  | nil => exact .refl _
  | cons b rest ih =>
    unfold insertSorted
    split
    · exact .refl _
    · exact (ih.cons b).trans (.swap a b rest)

theorem sorted_perm (le : α → α → Bool) (l : List α) : (sorted le l).Perm l := by
  induction l with
  | nil => exact .refl _
  | cons a rest ih => exact (insertSorted_perm le a _).trans (ih.cons a)

end Observable
