import CycleAccounting.Decimal.Binary
import CycleAccounting.Decimal.Digits

/-!
# The double nearest to a decimal

A decimal numeral `± n · 10 ^ e` is read as the double nearest to it; of two equally near the one
with the even mantissa, beyond the largest double an infinity, and a zero keeps the sign of its
numeral.  The rounding is one exact division, so that it is right however many digits are given.
-/

namespace CycleAccounting.Decimal

/-- The bits of the non-negative double nearest to a positive quotient.

With `k` chosen so that the quotient divided by `2 ^ k` has 53 binary digits (fewer only at the
least exponent), the rounded mantissa is added to the place of its exponent; a mantissa that
rounds up to the next power of two carries into the exponent by itself. -/
def nearestBits (numerator denominator : Nat) : Nat :=
  let guess : Int := numerator.log2 - denominator.log2 - 53
  let atExponent (k : Int) : Nat × Nat :=
    let (up, down) := scaled 1 2 k
    (numerator * down, denominator * up)
  let fits (k : Int) : Bool :=
    let (n, d) := atExponent k
    n < 2 * d * Binary.fractionCount
  let k := max Binary.leastExponent (if fits guess then guess else guess + 1)
  let (n, d) := atExponent k
  min Double.infinityBits.toNat
    ((k - Binary.leastExponent).toNat * Binary.fractionCount + roundDiv n d)

/-- The double nearest to `n * 10 ^ e`, or to its negative.

Powers of ten far outside the range of doubles are not formed. -/
def nearest (negative : Bool) (n : Nat) (e : Int) : Double :=
  let magnitude : Nat :=
    if n = 0 then 0
    else
      let places := e + (digitsOf n).length
      if places > 400 then Double.infinityBits.toNat
      else if places < -400 then 0
      else
        let (numerator, denominator) := scaled n 10 e
        nearestBits numerator denominator
  let x : Double := ⟨UInt64.ofNat magnitude⟩
  if negative then x.negate else x

/-- A decimal numeral: digits before and behind the point, and an exponent. -/
structure Numeral where
  negative : Bool
  whole : List Char
  fraction : List Char
  exponent : Int
  deriving DecidableEq, Repr

/-- The double nearest to a numeral. -/
def Numeral.toDouble (m : Numeral) : Double :=
  nearest m.negative (value (m.whole ++ m.fraction)) (m.exponent - m.fraction.length)

end CycleAccounting.Decimal
