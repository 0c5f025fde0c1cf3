/-!
Sets of code points given by the points at which membership changes.
-/

namespace ClassScript.Text

/-- Whether an odd number of the increasing `boundaries` lies at or below `n`. -/
def withinRanges : List Nat → Nat → Bool
  | [], _ => false
  | boundary :: rest, n => if n < boundary then false else !withinRanges rest n

end ClassScript.Text
