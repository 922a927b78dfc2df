/-!
# Sets of characters given by ascending ranges

A character class of the Unicode standard is kept as the ascending list of its
maximal ranges of code points. Membership reads the list from the front and
stops at the first range that starts above the code point.
-/

namespace LeastModel.Text

/-- Ranges of code points, both ends included, in ascending order. -/
abbrev Ranges := List (Nat × Nat)

/-- Whether a code point lies in one of the ranges. -/
def Ranges.contains : Ranges → Nat → Bool
  | [], _ => false
  | (low, high) :: rest, n =>
    if n < low then false else if n ≤ high then true else contains rest n

/-- Ranges that are not empty and follow one another with a gap between them. -/
def Ranges.Ascending : Ranges → Prop
  | [] => True
  | [(low, high)] => low ≤ high
  | (low, high) :: (low', high') :: rest =>
    low ≤ high ∧ high + 1 < low' ∧ Ascending ((low', high') :: rest)

end LeastModel.Text
