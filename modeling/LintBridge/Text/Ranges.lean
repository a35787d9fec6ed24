/-!
Sets of characters, given by ranges of code points.
-/

namespace LintBridge

/-- Whether a character lies in one of some ranges of code points, both ends included. -/
def inRanges (ranges : List (Nat × Nat)) (c : Char) : Bool :=
  ranges.any fun (low, high) => decide (low ≤ c.toNat ∧ c.toNat ≤ high)

end LintBridge
