/-!
# Sets of characters as ranges

A set of characters is written as the increasing list of the codes at which membership changes: the
first code in the set, the first after it that is not, and so on.
-/

namespace SqlFormat.Text

/-- A set of characters. -/
structure Ranges where
  /-- The codes at which membership changes, in increasing order. -/
  flips : List Nat

/-- Membership changes an odd number of times up to a member. -/
def Ranges.contains (r : Ranges) (c : Char) : Bool :=
  (r.flips.takeWhile (· ≤ c.toNat)).length % 2 == 1

end SqlFormat.Text
