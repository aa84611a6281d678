/-!
# Decimal digits

Reading and writing natural numbers in decimal.
-/

namespace CycleAccounting.Decimal

/-- The value of a digit character. -/
def digit? (c : Char) : Option Nat :=
  if '0' ≤ c ∧ c ≤ '9' then some (c.toNat - '0'.toNat) else none

/-- Whether a character is one of the ten decimal digits. -/
def isDigit (c : Char) : Bool := (digit? c).isSome

/-- The number that a list of digits denotes; other characters count as zero. -/
def value (digits : List Char) : Nat :=
  digits.foldl (fun n c => 10 * n + (digit? c).getD 0) 0

/-- The number that a text denotes in a base, if it is a non-empty list of digits of the base. -/
def valueInBase? (base : Nat) (text : List Char) : Option Nat :=
  if text.isEmpty then none
  else
    text.foldlM (fun n c => do
      let d ← if isDigit c then digit? c
        else if 'a' ≤ c ∧ c ≤ 'f' then some (c.toNat - 'a'.toNat + 10)
        else if 'A' ≤ c ∧ c ≤ 'F' then some (c.toNat - 'A'.toNat + 10)
        else none
      if d < base then some (base * n + d) else none) 0

/-- The decimal digits of a number. -/
def digitsOf (n : Nat) : List Char := Nat.toDigits 10 n

/-- The largest count or index that is accepted where one is read: unsigned, of 64 bits. -/
def largestCount : Nat := UInt64.size - 1

/-- Reads a count: decimal digits, after a plus sign if need be, up to `largestCount`. -/
def count? (text : List Char) : Option Nat :=
  let digits := match text with
    | '+' :: rest => rest
    | _ => text
  if digits.isEmpty || !digits.all isDigit then none
  else if value digits ≤ largestCount then some (value digits) else none

end CycleAccounting.Decimal
