import CycleAccounting.Decimal.Nearest
import CycleAccounting.Decimal.Shortest

/-!
# Amounts as text

Reports show amounts with a fixed number of places, messages show them in their shortest form.
`DecimalText` is all that the writing of reports and messages asks of a number type; for doubles
both forms come from the exact value.  `readNumber?` reads a number as it is given on a command
line.
-/

namespace CycleAccounting

/-- The two texts of an amount. -/
class DecimalText (α : Type) where
  /-- The amount rounded to a number of places behind the point. -/
  fixed : Nat → α → String
  /-- The shortest text of the amount. -/
  shortest : α → String

instance : DecimalText Double where
  fixed places x := (Decimal.Binary.ofDouble x).fixed places
  shortest x := (Decimal.Binary.ofDouble x).shortest

namespace Decimal

/-- Splits off the digits that a text starts with. -/
def spanDigits (text : List Char) : List Char × List Char :=
  (text.takeWhile isDigit, text.dropWhile isDigit)

/-- Splits off a sign; true stands for a minus sign. -/
def spanSign : List Char → Bool × List Char
  | '-' :: rest => (true, rest)
  | '+' :: rest => (false, rest)
  | rest => (false, rest)

/-- Reads an exponent: nothing, or the letter, an optional sign and at least one digit. -/
def exponent? : List Char → Option Int
  | [] => some 0
  | c :: rest =>
    if c = 'e' ∨ c = 'E' then
      let (negative, digits) := spanSign rest
      if digits.isEmpty || !digits.all isDigit then none
      else if negative then some (-(value digits : Int)) else some (value digits : Int)
    else none

/-- Reads the digits of an unsigned number: with a digit before or behind the point, which may be
left out, and an optional exponent. -/
def unsigned? (negative : Bool) (text : List Char) : Option Numeral :=
  let (whole, rest) := spanDigits text
  let (fraction, rest) := match rest with
    | '.' :: behind => spanDigits behind
    | _ => ([], rest)
  if whole.isEmpty && fraction.isEmpty then none
  else (exponent? rest).map fun exponent =>
    { negative, whole, fraction, exponent }

/-- Reads a number: an optional sign, then digits with an optional point and exponent, or in any
letter case one of the words for what is not a finite number. -/
def readNumber? (text : List Char) : Option Double :=
  let (negative, rest) := spanSign text
  let word := String.ofList (rest.map Char.toLower)
  if word = "nan" then some .nan
  else if word = "inf" ∨ word = "infinity" then some (.infinite negative)
  else (unsigned? negative rest).map Numeral.toDouble

end Decimal

end CycleAccounting
