/-!
# Sorting

A stable sort by insertion. It recurses on the list alone, so that closed lists can be sorted in
proofs as well.
-/

namespace CodeAtlas

variable {α : Type _}

/-- Puts an element before the first one that it may precede. -/
def insertBy (le : α → α → Bool) (a : α) : List α → List α
  | [] => [a]
  | b :: bs => if le a b then a :: b :: bs else b :: insertBy le a bs

/-- The elements in order, equal ones in the order given. -/
def sortBy (le : α → α → Bool) : List α → List α
  | [] => []
  | a :: as => insertBy le a (sortBy le as)

end CodeAtlas
