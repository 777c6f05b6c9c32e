import CodeAtlas.Text.Basic

/-!
# Sets of characters by their boundaries

A set of code points is written as the ascending list of the points where membership flips:
`[a, b, c, d]` is `[a, b) ∪ [c, d)`. A point is a member iff an odd number of boundaries lie at
or below it.
-/

namespace CodeAtlas.Text

/-- Membership in the set with the given ascending boundaries. -/
def inBounds (bounds : List Nat) (c : CodePoint) : Bool :=
  (bounds.takeWhile (· ≤ c.toNat)).length % 2 == 1

@[simp] theorem inBounds_nil (c : CodePoint) : inBounds [] c = false := rfl

end CodeAtlas.Text
