/-!
# Ranges of characters

A character class of a standard is a list of ranges of code points in increasing order.
-/

namespace AudienceFilter.Text

/-- Whether `n` lies in one of the ranges, which increase and include both their ends. -/
def inRanges (n : Nat) : List (Nat × Nat) → Bool
  | [] => false
  | (lo, hi) :: rest => if n < lo then false else if n ≤ hi then true else inRanges n rest

end AudienceFilter.Text
