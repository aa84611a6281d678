import CycleAccounting.Double

/-!
# Amounts

Cycle accounting adds, compares and divides amounts of cycles, time and instructions.  Everything
that does so here is written once, over the operations gathered in `Amount`, and used at two
number types:

* `Double`, which counters are recorded in, where an empty sum is the negative zero and two amounts
  may be numerically equal without being the same bits;
* `Rat`, where the same accounting is exact.

The guarded quotient `ratio`, the left-to-right `sum` and the `mean` are the only derived
operations, and all of them are total: a zero denominator gives zero.
-/

namespace CycleAccounting

/-- The operations that cycle accounting needs of a number type. -/
class Amount (α : Type) extends Zero α, Add α, Sub α, Mul α, Div α where
  /-- A count as an amount. -/
  ofNat : Nat → α
  /-- What a sum starts from. -/
  emptySum : α
  /-- Numerical equality: false when either side is not a number. -/
  equal : α → α → Bool
  /-- Numerical order: false when either side is not a number. -/
  atMost : α → α → Bool
  /-- The two amounts are stored alike, so that one may be a copy of the other. -/
  identical : α → α → Bool
  /-- The amount is a number and not infinite. -/
  isFinite : α → Bool

/-- Doubles.  The empty sum is the negative zero, the one value that leaves every other unchanged
under addition. -/
instance : Amount Double where
  zero := (0 : Double)
  ofNat n := .ofFloat (Float.ofNat n)
  emptySum := (0 : Double).negate
  equal x y := x.toFloat == y.toFloat
  atMost x y := decide (x.toFloat ≤ y.toFloat)
  identical x y := decide (x = y)
  isFinite := Double.isFinite

-- Found before any zero that comes with a larger structure.
instance zeroRat : Zero Rat := ⟨0⟩

/-- Exact rational amounts. -/
instance : Amount Rat where
  ofNat n := (n : Rat)
  emptySum := 0
  equal x y := decide (x = y)
  atMost x y := decide (x ≤ y)
  identical x y := decide (x = y)
  isFinite _ := true

namespace Amount

variable {α : Type} [Amount α]

/-- Strictly smaller, as numbers. -/
def less (x y : α) : Bool := atMost x y && !equal x y

/-- The sum of a list, taken from the left. -/
def sum (xs : List α) : α := xs.foldl (· + ·) emptySum

/-- The quotient, and zero where the denominator is zero. -/
def ratio (numerator denominator : α) : α :=
  if equal denominator 0 then 0 else numerator / denominator

/-- The arithmetic mean, and zero for no values. -/
def mean (xs : List α) : α := ratio (xs.foldl (· + ·) 0) (ofNat xs.length)

/-- The larger of the two: `y` where it is at least `x`, so that of two zeros of different sign it
is the second, and `x` where `y` is below it or not a number. -/
def larger (x y : α) : α := if atMost x y then y else x

/-- The value at an index of a list, and zero past its end. -/
def getAt (xs : List α) (i : Nat) : α := (xs[i]?).getD 0

end Amount

end CycleAccounting
