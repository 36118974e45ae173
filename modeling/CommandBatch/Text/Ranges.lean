/-!
# Classes of characters given by ranges of code points

The properties of the character standard that this library needs are kept as sorted lists of
inclusive ranges. Membership is a search of the list.
-/

namespace CommandBatch.Text

/-- Inclusive ranges of code points, in ascending order. -/
abbrev Ranges := List (Nat × Nat)

namespace Ranges

/-- The code point lies in one of the ranges. -/
def contains (ranges : Ranges) (code : Nat) : Bool :=
  ranges.any fun r => r.1 ≤ code && code ≤ r.2

end Ranges

end CommandBatch.Text
