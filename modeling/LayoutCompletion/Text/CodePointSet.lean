/-!
# Sets of code points

A set of code points is written as the ascending list of the places where membership changes:
`[a, b, c]` holds the code points from `a` up to but not including `b`, and all from `c` on.

Membership is decided by one walk that ends at the first boundary above the code point, so an
ASCII character never gets past the first few entries of a long table.
-/

namespace LayoutCompletion.Text

/-- A set of code points, given by its boundaries in ascending order. -/
structure CodePointSet where
  boundaries : List Nat

namespace CodePointSet

/-- Membership flips at each boundary that is not above `n`. -/
def containsFrom : List Nat → Nat → Bool
  | [], _ => false
  | b :: bs, n => if n < b then false else !containsFrom bs n

/-- Is the character in the set? -/
def contains (s : CodePointSet) (c : Char) : Bool :=
  containsFrom s.boundaries c.toNat

end CodePointSet

end LayoutCompletion.Text
