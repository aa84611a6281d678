import CycleAccounting.Decimal.Fixed

/-!
# Shortest text

The shortest text of a double has the fewest significant digits that are read back as the same
double, the nearest such decimal if there are several, and the larger one if two are equally near.
It is written without an exponent and without a point where nothing follows it.

The decimals that are read back as `m * 2 ^ e` fill an interval around it (`Neighbourhood`), whose
ends belong to it exactly if `m` is even.  If a decimal grid has a point in the interval then one
of the two grid points next to the number is in it, so two candidates are tried on each grid.
-/

namespace CycleAccounting.Decimal

/-- A positive double and the interval of numbers that are rounded to it, all in units of
`1 / denominator`. -/
structure Neighbourhood where
  value : Nat
  low : Nat
  high : Nat
  denominator : Nat
  /-- Whether the ends of the interval are rounded to the double too. -/
  closed : Bool

/-- The interval around `m * 2 ^ e`, in quarters of the double's own unit: half a unit on either
side, and a quarter below a power of two, where the doubles are twice as dense. -/
def Neighbourhood.of (m : Nat) (e : Int) : Neighbourhood :=
  let (unit, denominator) := scaled 1 2 e
  let below := if m = Binary.fractionCount ∧ e ≠ Binary.leastExponent then 1 else 2
  { value := 4 * m * unit
    low := (4 * m - below) * unit
    high := (4 * m + 2) * unit
    denominator := 4 * denominator
    closed := m % 2 = 0 }

/-- Whether `n * 10 ^ p` is rounded to the double. -/
def Neighbourhood.holds (i : Neighbourhood) (n : Nat) (p : Int) : Bool :=
  let (up, down) := scaled 1 10 p
  let x := n * up * i.denominator
  if i.closed then i.low * down ≤ x && x ≤ i.high * down
  else i.low * down < x && x < i.high * down

/-- The multiple of `10 ^ p` next to the number that is rounded to it, the nearer one if both are,
the upper one if they are equally near. -/
def Neighbourhood.candidate? (i : Neighbourhood) (p : Int) : Option Nat :=
  let (up, down) := scaled 1 10 p
  let numerator := i.value * down
  let denominator := i.denominator * up
  let n := numerator / denominator
  let fromBelow := numerator % denominator
  match i.holds n p, i.holds (n + 1) p with
  | true, true => some (if 2 * fromBelow < denominator then n else n + 1)
  | true, false => some n
  | false, true => some (n + 1)
  | false, false => none

/-- Tries ever finer grids, from `10 ^ p` on. -/
def Neighbourhood.search (i : Neighbourhood) : Nat → Int → Nat × Int
  | 0, p => (0, p)
  | tries + 1, p =>
    match i.candidate? p with
    | some n => (n, p)
    | none => i.search tries (p - 1)

/-- The place of the leading digit: an exponent `p` with `10 ^ p ≤ x ≤ 10 ^ (p + 1)` for the
number `x`. -/
def Neighbourhood.leadingPlace (i : Neighbourhood) : Int :=
  let whole := i.value / i.denominator
  if whole = 0 then -((digitsOf (i.denominator / i.value)).length : Int)
  else (digitsOf whole).length - 1

/-- Writes `n * 10 ^ p` without an exponent. -/
def positional (n : Nat) (p : Int) : String :=
  match p with
  | .ofNat k => String.ofList (digitsOf (n * Nat.pow 10 k))
  | .negSucc k => withPoint (k + 1) n

/-- Drops the zeros at the end of `n * 10 ^ p`; there are at most as many as `n` has digits. -/
def withoutZeros : Nat → Nat → Int → Nat × Int
  | 0, n, p => (n, p)
  | fuel + 1, n, p =>
    if n % 10 = 0 ∧ n ≠ 0 then withoutZeros fuel (n / 10) (p + 1) else (n, p)

/-- The shortest text of a number.  Seventeen significant digits always suffice, so the search,
which starts with one digit, ends before its tries do. -/
def Binary.shortest : Binary → String
  | .nan => "NaN"
  | .infinite negative => sign negative ++ "inf"
  | .finite negative m e =>
    if m = 0 then sign negative ++ "0"
    else
      let i := Neighbourhood.of m e
      let (n, p) := i.search 20 i.leadingPlace
      let (n, p) := withoutZeros (digitsOf n).length n p
      sign negative ++ positional n p

end CycleAccounting.Decimal
