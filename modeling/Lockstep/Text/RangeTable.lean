/-!
# Tables of character ranges

A property of characters is kept as a sorted list of inclusive ranges of code points.
-/

namespace Lockstep.Text

/-- Whether a code point lies in one of the inclusive ranges. -/
def inRanges (ranges : List (Nat × Nat)) (code : Nat) : Bool :=
  ranges.any fun (first, last) => first ≤ code && code ≤ last

end Lockstep.Text
