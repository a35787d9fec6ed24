/-!
Numbers of a fixed width.

What is cut to a width stays a number. A sum or a difference that outgrows its width ends the
program instead, so what is computed from it has no result.
-/

namespace LintBridge

/-- The greatest number a position, a row or a version may carry on the wire. -/
def maxCount : Nat := 4294967295

/-- The greatest number of things that can be counted in memory. -/
def maxSize : Nat := 18446744073709551615

/-- A number cut to what the wire can carry. -/
def clampCount (n : Nat) : Nat := min n maxCount

/-- A sum, if it is not past the greatest number that there is room for. -/
def counted? (greatest n : Nat) : Option Nat := if n ≤ greatest then some n else none

/-- The numbers that 64 bits with a sign can hold. -/
def Signed64 (n : Int) : Prop := -9223372036854775808 ≤ n ∧ n ≤ 9223372036854775807

instance (n : Int) : Decidable (Signed64 n) := inferInstanceAs (Decidable (_ ∧ _))

/-- A difference, if 64 bits with a sign hold it. -/
def signed64? (n : Int) : Option Int := if Signed64 n then some n else none

end LintBridge
