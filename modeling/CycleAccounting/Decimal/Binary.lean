import CycleAccounting.Double

/-!
# Doubles as binary fractions

A finite double stands for `± m · 2 ^ e` with a natural number `m` below `2 ^ 53`.  `Binary.ofBits`
reads that off its 64 bits; every text of a double is computed from it in exact arithmetic.
-/

namespace CycleAccounting.Decimal

/-- What a double stands for. -/
inductive Binary where
  | nan
  | infinite (negative : Bool)
  /-- The number `mantissa * 2 ^ exponent`, or its negative; a negative zero keeps its sign. -/
  | finite (negative : Bool) (mantissa : Nat) (exponent : Int)
  deriving DecidableEq, Repr

namespace Binary

/-- The exponent of the smallest positive doubles. -/
def leastExponent : Int := -1074

/-- The number of values of the fraction field.  It is added to the fraction of every double but the
smallest ones. -/
def fractionCount : Nat := Nat.pow 2 52

/-- The number of values of the exponent field. -/
def fieldCount : Nat := Nat.pow 2 11

/-- Reads sign, exponent field and fraction field from the 64 bits of a double. -/
def ofBits (bits : Nat) : Binary :=
  let negative := bits.testBit 63
  let field := bits / fractionCount % fieldCount
  let fraction := bits % fractionCount
  if field = 2047 then
    if fraction = 0 then .infinite negative else .nan
  else if field = 0 then .finite negative fraction leastExponent
  else .finite negative (fractionCount + fraction) (leastExponent + (field - 1 : Nat))

/-- What a double stands for. -/
def ofDouble (x : Double) : Binary := ofBits x.bits.toNat

end Binary

/-- A quotient rounded to the nearest natural number, a half going to the even neighbour. -/
def roundDiv (numerator denominator : Nat) : Nat :=
  let quotient := numerator / denominator
  let twice := 2 * (numerator % denominator)
  if twice < denominator then quotient
  else if denominator < twice then quotient + 1
  else quotient + quotient % 2

/-- The positive rational `n * base ^ e`, as numerator and denominator. -/
def scaled (n base : Nat) (e : Int) : Nat × Nat :=
  match e with
  | .ofNat k => (n * Nat.pow base k, 1)
  | .negSucc k => (n, Nat.pow base (k + 1))

end CycleAccounting.Decimal
