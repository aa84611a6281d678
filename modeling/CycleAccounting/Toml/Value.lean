import CycleAccounting.Decimal.Text

/-!
# TOML values

The values of a TOML text, and the ones among them that are written as a single word.
-/

namespace CycleAccounting.Toml

/-- A TOML value.  Of dates and times only that they are well formed is kept. -/
inductive Value where
  | string (content : String)
  | integer (n : Int)
  | float (x : Double)
  | bool (b : Bool)
  | datetime
  | array (items : List Value)
  | table (members : List (String × Value))

namespace Value

/-! ## Looking into a value -/

def text? : Value → Option String
  | string content => some content
  | _ => none

def bool? : Value → Option Bool
  | bool b => some b
  | _ => none

def items? : Value → Option (List Value)
  | array items => some items
  | _ => none

/-- A number; whole ones may be written as integers. -/
def float? : Value → Option Double
  | float x => some x
  | integer n => some (Decimal.nearest (n < 0) n.natAbs 0)
  | _ => none

/-- An integer that is not negative. -/
def count? : Value → Option Nat
  | integer n => if 0 ≤ n then some n.toNat else none
  | _ => none

/-- A word: a string, or a table with the word as its only name and nothing under it. -/
def keyword? : Value → Option String
  | string content => some content
  | table [(name, array [])] => some name
  | table [(name, table [])] => some name
  | _ => none

/-! ## Numbers -/

/-- Drops the underscores in what follows a digit.  One may stand only in front of a digit. -/
def joinRest? (isDigit : Char → Bool) : List Char → Option (List Char)
  | [] => some []
  | '_' :: c :: rest => if isDigit c then (joinRest? isDigit rest).map (c :: ·) else none
  | c :: rest => if isDigit c then (joinRest? isDigit rest).map (c :: ·) else none

/-- Drops the underscores between digits.  One may stand only between two digits, so there is none
at either end and no two in a row. -/
def joinDigits? (isDigit : Char → Bool) : List Char → Option (List Char)
  | [] => none
  | c :: rest => if isDigit c then (joinRest? isDigit rest).map (c :: ·) else none

/-- The digits of a decimal integer, which begins with a zero only if it is zero. -/
def wholeDigits? (text : List Char) : Option (List Char) := do
  let digits ← joinDigits? Decimal.isDigit text
  if text.head? = some '0' && text.length ≠ 1 then none else some digits

/-- The value if it fits into 64 bits with a sign. -/
def integerInRange? (n : Int) : Option Value :=
  if Int64.minValue.toInt ≤ n ∧ n ≤ Int64.maxValue.toInt then some (integer n) else none

/-- Reads an integer in the base that its first characters tell. -/
def integer? (text : List Char) : Option Value :=
  let inBase (base : Nat) (isDigit : Char → Bool) (digits : List Char) : Option Value := do
    integerInRange? (← Decimal.valueInBase? base (← joinDigits? isDigit digits))
  match text with
  | '0' :: 'x' :: digits =>
    inBase 16 (fun c => (Decimal.valueInBase? 16 [c]).isSome) digits
  | '0' :: 'o' :: digits => inBase 8 (fun c => (Decimal.valueInBase? 8 [c]).isSome) digits
  | '0' :: 'b' :: digits => inBase 2 (fun c => (Decimal.valueInBase? 2 [c]).isSome) digits
  | _ => do
    let (negative, unsigned) := Decimal.spanSign text
    let size : Int := Decimal.value (← wholeDigits? unsigned)
    integerInRange? (if negative then -size else size)

/-- Whether a character may stand among the digits of a number. -/
def isDigitOrJoin (c : Char) : Bool := Decimal.isDigit c || c = '_'

/-- Reads the exponent of a float: the letter, a sign if need be, and digits. -/
def exponent? : List Char → Option Int
  | c :: rest =>
    if c = 'e' || c = 'E' then do
      let (negative, digits) := Decimal.spanSign rest
      let size : Int := Decimal.value (← joinDigits? Decimal.isDigit digits)
      some (if negative then -size else size)
    else none
  | [] => none

/-- Reads a float: an integer part and then a fraction, an exponent, or both.  A number too large
for any double is refused if it is positive. -/
def floating? (text : List Char) : Option Value := do
  let (negative, unsigned) := Decimal.spanSign text
  let whole ← wholeDigits? (unsigned.takeWhile isDigitOrJoin)
  let numeral : Decimal.Numeral ←
    match unsigned.dropWhile isDigitOrJoin with
    | '.' :: behind => do
      let fraction ← joinDigits? Decimal.isDigit (behind.takeWhile isDigitOrJoin)
      let rest := behind.dropWhile isDigitOrJoin
      let exponent ← if rest.isEmpty then some 0 else exponent? rest
      some ⟨negative, whole, fraction, exponent⟩
    | rest => (exponent? rest).map fun exponent => ⟨negative, whole, [], exponent⟩
  let x := numeral.toDouble
  if x = .infinite false then none else some (float x)

/-- Reads one of the words for what is not a finite number. -/
def special? (text : List Char) : Option Value :=
  let (negative, unsigned) := Decimal.spanSign text
  if unsigned = "inf".toList then some (float (.infinite negative))
  else if unsigned = "nan".toList then some (float .nan)
  else none

/-! ## Dates and times -/

/-- Reads a number of exactly so many digits in front of a text. -/
def digits? (length : Nat) (text : List Char) : Option (Nat × List Char) :=
  let digits := text.take length
  if digits.length = length && digits.all Decimal.isDigit then
    some (Decimal.value digits, text.drop length)
  else none

/-- The number of days in a month. -/
def daysIn (year month : Nat) : Nat :=
  if month = 2 then
    if year % 4 = 0 && (year % 100 ≠ 0 || year % 400 = 0) then 29 else 28
  else if [4, 6, 9, 11].contains month then 30
  else 31

/-- Takes a character off a text. -/
def skip? (c : Char) : List Char → Option (List Char)
  | d :: rest => if d = c then some rest else none
  | [] => none

/-- Reads a date that exists and gives what follows it. -/
def date? (text : List Char) : Option (List Char) := do
  let (year, rest) ← digits? 4 text
  let (month, rest) ← digits? 2 (← skip? '-' rest)
  let (day, rest) ← digits? 2 (← skip? '-' rest)
  if 1 ≤ month && month ≤ 12 && 1 ≤ day && day ≤ daysIn year month then some rest else none

/-- Reads hours and minutes and gives what follows them. -/
def hourMinute? (text : List Char) : Option (List Char) := do
  let (hour, rest) ← digits? 2 text
  let (minute, rest) ← digits? 2 (← skip? ':' rest)
  if hour ≤ 23 && minute ≤ 59 then some rest else none

/-- Reads a time of day, with a leap second and a fraction allowed, and gives what follows it. -/
def time? (text : List Char) : Option (List Char) := do
  let (second, rest) ← digits? 2 (← skip? ':' (← hourMinute? text))
  if 60 < second then none
  else
    match rest with
    | '.' :: behind =>
      if (behind.takeWhile Decimal.isDigit).isEmpty then none
      else some (behind.dropWhile Decimal.isDigit)
    | _ => some rest

/-- Whether a text is the offset of a time zone, or nothing. -/
def isOffset : List Char → Bool
  | [] | ['Z'] | ['z'] => true
  | '+' :: rest | '-' :: rest => hourMinute? rest = some []
  | _ => false

/-- Whether a text is a date, a time, or a date with a time and perhaps an offset. -/
def isDatetime (text : List Char) : Bool :=
  match date? text with
  | some [] => true
  | some (separator :: rest) =>
    ['T', 't', ' '].contains separator && ((time? rest).any isOffset)
  | none => time? text = some []

/-- The value of a word: a truth value, a date or time, or a number. -/
def ofWord? (text : List Char) : Option Value :=
  if text = "true".toList then some (bool true)
  else if text = "false".toList then some (bool false)
  else if isDatetime text then some datetime
  else (special? text).or ((floating? text).or (integer? text))

end Value

end CycleAccounting.Toml
