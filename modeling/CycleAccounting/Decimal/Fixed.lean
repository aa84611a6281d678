import CycleAccounting.Decimal.Binary
import CycleAccounting.Decimal.Digits

/-!
# Fixed places

A double written with a fixed number of places behind the point is its exact value rounded to that
place, a half going to the even neighbour.  The sign is kept, also of a negative zero and of a
negative number that is rounded to zero.
-/

namespace CycleAccounting.Decimal

/-- Puts a decimal point in front of the last `places` digits of a number. -/
def withPoint (places n : Nat) : String :=
  if places = 0 then String.ofList (digitsOf n)
  else
    let behind := digitsOf (n % Nat.pow 10 places)
    let zeros := List.replicate (places - behind.length) '0'
    String.ofList (digitsOf (n / Nat.pow 10 places) ++ '.' :: (zeros ++ behind))

/-- The number `m * 2 ^ e` in units of the last of `places` decimal places. -/
def roundedAt (places m : Nat) (e : Int) : Nat :=
  let (numerator, denominator) := scaled m 2 e
  roundDiv (numerator * Nat.pow 10 places) denominator

/-- The text of a sign. -/
def sign (negative : Bool) : String := if negative then "-" else ""

/-- Writes a number with the given places behind the point. -/
def Binary.fixed (places : Nat) : Binary → String
  | .nan => "NaN"
  | .infinite negative => sign negative ++ "inf"
  | .finite negative m e => sign negative ++ withPoint places (roundedAt places m e)

end CycleAccounting.Decimal
