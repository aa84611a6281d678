import CycleAccounting.Decimal.Nearest

/-!
# Doubles from gathered digits

The numbers of a results document are read in two steps.  Their digits are gathered into a count
for as long as it stays within `largestCount`, and the double nearest to the count is then
multiplied or divided by a power of ten.  Either step rounds, so that a number with many digits or
with a large exponent may be read as a neighbour of the nearest double.

A number beyond all doubles is not read at all; one that is too small for them is read as zero.
-/

namespace CycleAccounting.Decimal

/-- Gathers digits behind those of `n` for as long as they denote at most `largestCount`; gives
the number and the digits that are left. -/
def gather (n : Nat) : List Char → Nat × List Char
  | [] => (n, [])
  | c :: rest =>
    let next := 10 * n + (digit? c).getD 0
    if next ≤ largestCount then gather next rest else (n, c :: rest)

/-- The exponent of the largest power of ten among the doubles. -/
def largestPower : Nat := 308

/-- A power of ten as a double. -/
def powerOfTen (n : Nat) : Double := nearest false 1 n

/-- The double times a power of ten, if it is not beyond all doubles. -/
def multiply? (x : Double) (n : Nat) : Option Double :=
  if n ≤ largestPower then
    let product := x * powerOfTen n
    if product.isFinite then some product else none
  else if x.isZero then some x
  else none

/-- The double divided by a power of ten, by the largest one first for as long as the exponent is
above its own. -/
def divide (x : Double) (n : Nat) : Double :=
  if n ≤ largestPower then x / powerOfTen n
  else if x.isZero then x
  else divide (x / powerOfTen largestPower) (n - largestPower)
termination_by n
decreasing_by
  simp only [largestPower] at *
  omega

/-- The double of a numeral, read in two steps.  Digits in front of the point that are not gathered
count for the power of ten; those behind it that are not gathered count for nothing. -/
def Numeral.gathered? (m : Numeral) : Option Double :=
  let (whole, wholeLeft) := gather 0 m.whole
  let (digits, fractionLeft) := gather whole m.fraction
  let places := (wholeLeft.length + fractionLeft.length : Int) - m.fraction.length + m.exponent
  let x := nearest false digits 0
  let magnitude? := match places with
    | .ofNat n => multiply? x n
    | .negSucc n => some (divide x (n + 1))
  magnitude?.map fun x => if m.negative then x.negate else x

end CycleAccounting.Decimal
