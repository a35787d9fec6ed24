/-!
Numbers of JSON: integers of 64 bits, and doubles for all others.

`Number.ofParts?` reads a number from its digits. `Real.render` writes a double with the fewest
digits that read back as it: of the decimal grids it takes the coarsest with a point in the interval
of reals that round to the double.
-/

namespace LintBridge.Json

inductive Number where
  | int (n : Int)
  | real (bits : UInt64)
  deriving DecidableEq, Repr, Inhabited

/-- The digits of a number as they are written. The exponent is present if an `e` is. -/
structure NumberText where
  negative : Bool
  whole : List Nat
  fraction : Option (List Nat)
  exponent : Option Int
  deriving Repr

namespace Number

/-- The numbers below which a significand fits 64 bits. -/
def limit : Nat := 18446744073709551616

/-- A significand, and the number of digits that did not fit it. -/
structure Significand where
  value : Nat
  dropped : Nat
  deriving DecidableEq, Repr

/-- Adds the digits before the point: once one does not fit, it and all after it are only
counted. -/
def Significand.ofWhole (s : Significand) : List Nat → Significand
  | [] => s
  | d :: rest =>
    if limit ≤ s.value * 10 + d then ⟨s.value, s.dropped + (d :: rest).length⟩
    else ofWhole ⟨s.value * 10 + d, s.dropped⟩ rest

/-- Adds the digits after the point up to the first that does not fit, and counts those added. -/
def Significand.addFraction (value count : Nat) : List Nat → Nat × Nat
  | [] => (value, count)
  | d :: rest =>
    if limit ≤ value * 10 + d then (value, count)
    else addFraction (value * 10 + d) (count + 1) rest

/-- A significand times a power of ten as a double, if it is finite. A factor past 10^308 is taken
in steps, and two of them bring every significand to zero. -/
def scale? : Nat → Float → Int → Option Float
  | 0, f, _ => some f
  | steps + 1, f, exponent =>
    if exponent.natAbs ≤ 308 then
      let power := Float.ofScientific 1 false exponent.natAbs
      if 0 ≤ exponent then
        let g := f * power
        if g.isInf then none else some g
      else some (f / power)
    else if f == 0.0 then some f
    else if 0 ≤ exponent then none
    else scale? steps (f / Float.ofScientific 1 false 308) (exponent + 308)

/-- A double from sign, significand and power of ten. -/
def real? (negative : Bool) (significand : Nat) (exponent : Int) : Option Number := do
  let f ← scale? 4 (UInt64.ofNat significand).toFloat exponent
  return .real (if negative then (-f).toBits else f.toBits)

/-- The number that some digits denote; none if it is too great for a double. A number without
point and exponent is an integer if it fits 64 bits, apart from a negative zero. -/
def ofParts? (t : NumberText) : Option Number :=
  let whole := Significand.ofWhole ⟨0, 0⟩ t.whole
  match t.fraction, t.exponent with
  | none, none =>
    if whole.dropped = 0 ∧ t.negative = false then some (.int whole.value)
    else if whole.dropped = 0 ∧ 0 < whole.value ∧ whole.value ≤ 9223372036854775808 then
      some (.int (-whole.value))
    else real? t.negative whole.value whole.dropped
  | fraction, exponent =>
    let (value, count) := Significand.addFraction whole.value 0 (fraction.getD [])
    real? t.negative value (whole.dropped - count + exponent.getD 0)

end Number

namespace Real

/-- A finite positive double as a multiple of a power of two, with whether the doubles below it are
closer together. -/
structure Binary where
  mantissa : Nat
  exponent : Int
  narrow : Bool
  deriving Repr

/-- Takes the bits of a double apart, leaving out its sign. -/
def Binary.ofBits (bits : UInt64) : Binary :=
  let n : Nat := bits.toNat % Nat.pow 2 63
  let biased : Nat := n / Nat.pow 2 52
  let low : Nat := n % Nat.pow 2 52
  if biased = 0 then ⟨low, -1074, false⟩
  else ⟨low + Nat.pow 2 52, (biased : Int) - 1075, low == 0 && decide (1 < biased)⟩

/-- How `c` times ten to the power `j` compares to `n` times two to the power `q`. -/
def side (c : Nat) (j : Int) (n : Nat) (q : Int) : Ordering :=
  compare (c * Nat.pow 10 j.toNat * Nat.pow 2 (-q).toNat)
    (n * Nat.pow 2 q.toNat * Nat.pow 10 (-j).toNat)

/-- The greatest multiple of ten to the power `j` that is at most `n` times two to the power
`q`. -/
def floorAt (j : Int) (n : Nat) (q : Int) : Nat :=
  (n * Nat.pow 2 q.toNat * Nat.pow 10 (-j).toNat) / (Nat.pow 10 j.toNat * Nat.pow 2 (-q).toNat)

/-- Whether a decimal rounds to the double: it lies between the middles towards the neighbours, or
on one of these if the mantissa is even. -/
def readsBack (b : Binary) (c : Nat) (j : Int) : Bool :=
  let low := side c j (4 * b.mantissa - (if b.narrow then 1 else 2)) (b.exponent - 2)
  let high := side c j (4 * b.mantissa + 2) (b.exponent - 2)
  if b.mantissa % 2 = 0 then low != .lt && high != .gt else low == .gt && high == .lt

/-- The point of the grid of ten to the power `j` that is nearest to the double among those that
read back; of two that are as near, the even one. -/
def onGrid? (b : Binary) (j : Int) : Option Nat :=
  let low := floorAt j b.mantissa b.exponent
  match low != 0 && readsBack b low j, readsBack b (low + 1) j with
  | true, true =>
    match side (2 * low + 1) j (2 * b.mantissa) b.exponent with
    | .lt => some (low + 1)
    | .gt => some low
    | .eq => some (if low % 2 = 0 then low else low + 1)
  | true, false => some low
  | false, true => some (low + 1)
  | false, false => none

/-- The digits and the power of ten of the shortest decimal for a double, searched from a coarse
grid down. -/
def search (b : Binary) : Nat → Int → Nat × Int
  | 0, j => (floorAt j b.mantissa b.exponent, j)
  | n + 1, j =>
    match onGrid? b j with
    | some c => (c, j)
    | none => search b n (j - 1)

/-- The text of a double: a point within the digits or up to four zeros after it, else an
exponent; a whole number below 10^16 gets `.0`. -/
def render (bits : UInt64) : String :=
  let sign := if bits.toNat < Nat.pow 2 63 then "" else "-"
  let b := Binary.ofBits bits
  if b.mantissa = 0 then sign ++ "0.0"
  else
    let (c, j) := search b 660 310
    let digits := Nat.toDigits 10 c
    let point : Int := digits.length + j
    let zeros (n : Int) : List Char := List.replicate n.toNat '0'
    let body : List Char :=
      if 0 ≤ j ∧ point ≤ 16 then digits ++ zeros j ++ ['.', '0']
      else if 0 < point ∧ point ≤ 16 then
        digits.take point.toNat ++ ['.'] ++ digits.drop point.toNat
      else if -5 < point ∧ point ≤ 0 then ['0', '.'] ++ zeros (-point) ++ digits
      else
        let e := point - 1
        let fraction := digits.drop 1
        digits.take 1 ++ (if fraction = [] then [] else '.' :: fraction) ++ ['e'] ++
          (if e < 0 then ['-'] else ['+']) ++ Nat.toDigits 10 e.natAbs
    sign ++ String.ofList body

end Real

def Number.render : Number → String
  | .int n => toString n
  | .real bits => Real.render bits

end LintBridge.Json
