/-!
# Ranges of code points

A character class is a list of closed ranges in ascending order.
-/

namespace FragmentRouting.Text

/-- Whether `n` lies in one of the ranges. The search stops at the first range above `n`. -/
def inRanges (n : Nat) : List (Nat × Nat) → Bool
  | [] => false
  | (low, high) :: rest => if n < low then false else decide (n ≤ high) || inRanges n rest

end FragmentRouting.Text
