/-!
# Sets of code points

A set of code points is given by the increasing list of points where membership flips: the first
entry opens the first range, the second closes it, and so on.  A query walks the list and counts
the flips at or below the point, so nothing but the order of the list is needed to reason about it.
-/

namespace Ambient.Text

/-- Membership of `n` in the set whose membership flips at each point of the list. -/
def flipped : List Nat → Nat → Bool
  | [], _ => false
  | b :: bs, n => if n < b then false else !flipped bs n

end Ambient.Text
