import CycleAccounting.Decimal.Digits
import CycleAccounting.Decimal.Nearest

/-!
# JSON tokens

The characters of a JSON text are gathered into tokens by one left-to-right pass.  The pass is a
step function folded over the text: what has been read of the current token is its `Mode`, and a
character either extends that token or ends it and begins the next.
-/

namespace CycleAccounting.Json

/-- A token of a JSON text. -/
inductive Token where
  | openBrace
  | closeBrace
  | openBracket
  | closeBracket
  | comma
  | colon
  | null
  | bool (b : Bool)
  | number (n : Decimal.Numeral)
  /-- A string; none if an escape denotes half of a surrogate pair and the other half is missing. -/
  | string (content : Option String)
  deriving Repr

namespace Token

/-! ## Strings -/

/-- What one character or escape of a string contributes: a character, or a code unit given by its
number. -/
inductive Unit where
  | char (c : Char)
  | code (n : Nat)

/-- The characters that units denote.  A leading and a trailing surrogate in a row are one
character; a surrogate alone is none. -/
def decode : List Unit → Option (List Char)
  | [] => some []
  | .char c :: rest => (decode rest).map (c :: ·)
  | .code n :: .code m :: rest =>
    if 0xD800 ≤ n ∧ n ≤ 0xDBFF then
      if 0xDC00 ≤ m ∧ m ≤ 0xDFFF then
        (decode rest).map (Char.ofNat (0x10000 + (n - 0xD800) * 0x400 + (m - 0xDC00)) :: ·)
      else none
    else if 0xDC00 ≤ n ∧ n ≤ 0xDFFF then none
    else (decode (.code m :: rest)).map (Char.ofNat n :: ·)
  | .code n :: rest =>
    if 0xD800 ≤ n ∧ n ≤ 0xDFFF then none else (decode rest).map (Char.ofNat n :: ·)

/-- The character that a letter behind a backslash denotes. -/
def escaped? (c : Char) : Option Char :=
  [('"', '"'), ('\\', '\\'), ('/', '/'), ('b', '\x08'), ('f', '\x0C'), ('n', '\n'), ('r', '\r'),
    ('t', '\t')].lookup c

/-! ## Numbers and words -/

/-- Reads a numeral: an optional minus sign, digits without a superfluous zero in front, and
perhaps a point with digits behind it and an exponent. -/
def numeral? (text : List Char) : Option Decimal.Numeral := do
  let (negative, rest) := match text with
    | '-' :: rest => (true, rest)
    | _ => (false, text)
  let whole := rest.takeWhile Decimal.isDigit
  let rest := rest.dropWhile Decimal.isDigit
  guard (!whole.isEmpty && (whole.length = 1 || whole.head? != some '0'))
  let (fraction, rest) ← match rest with
    | '.' :: behind =>
      let fraction := behind.takeWhile Decimal.isDigit
      if fraction.isEmpty then none else some (fraction, behind.dropWhile Decimal.isDigit)
    | _ => some ([], rest)
  match rest with
  | [] => some ⟨negative, whole, fraction, 0⟩
  | c :: exponent =>
    guard (c = 'e' || c = 'E')
    let (below, digits) := match exponent with
      | '-' :: digits => (true, digits)
      | '+' :: digits => (false, digits)
      | _ => (false, exponent)
    guard (!digits.isEmpty && digits.all Decimal.isDigit)
    let size : Int := Decimal.value digits
    some ⟨negative, whole, fraction, if below then -size else size⟩

/-- The token of a word. -/
def word? (text : List Char) : Option Token :=
  [("null", null), ("true", bool true), ("false", bool false)].lookup (String.ofList text)

/-! ## The pass -/

/-- The token being read, its characters in reverse. -/
inductive Mode where
  | between
  | inString (units : List Unit)
  /-- Behind a backslash in a string. -/
  | inEscape (units : List Unit)
  /-- Inside the four hexadecimal digits of an escape. -/
  | inCode (units : List Unit) (digits : List Char)
  | inNumber (text : List Char)
  | inWord (text : List Char)

/-- The characters that numerals are made of. -/
def isNumeric (c : Char) : Bool := Decimal.isDigit c || ['+', '-', '.', 'e', 'E'].contains c

/-- The token of a punctuation mark. -/
def mark? (c : Char) : Option Token :=
  [('{', openBrace), ('}', closeBrace), ('[', openBracket), (']', closeBracket), (',', comma),
    (':', colon)].lookup c

/-- Begins a token; marks are tokens by themselves, and blanks are none. -/
def begin? (done : List Token) (c : Char) : Option (List Token × Mode) :=
  if [' ', '\t', '\n', '\r'].contains c then some (done, .between)
  else if c = '"' then some (done, .inString [])
  else if Decimal.isDigit c || c = '-' then some (done, .inNumber [c])
  else if c.isAlpha then some (done, .inWord [c])
  else (mark? c).map fun mark => (mark :: done, .between)

/-- Reads one more character. -/
def step? : List Token × Mode → Char → Option (List Token × Mode)
  | (done, .between), c => begin? done c
  | (done, .inString units), c =>
    if c = '"' then some (string ((decode units.reverse).map String.ofList) :: done, .between)
    else if c = '\\' then some (done, .inEscape units)
    else if c.toNat < 0x20 then none
    else some (done, .inString (.char c :: units))
  | (done, .inEscape units), c =>
    if c = 'u' then some (done, .inCode units [])
    else (escaped? c).map fun x => (done, .inString (.char x :: units))
  | (done, .inCode units digits), c => do
    let n ← Decimal.valueInBase? 16 (c :: digits).reverse
    some (done, if digits.length = 3 then .inString (.code n :: units)
      else .inCode units (c :: digits))
  | (done, .inNumber text), c =>
    if isNumeric c then some (done, .inNumber (c :: text))
    else do begin? (number (← numeral? text.reverse) :: done) c
  | (done, .inWord text), c =>
    if c.isAlpha then some (done, .inWord (c :: text))
    else do begin? ((← word? text.reverse) :: done) c

/-- Ends the last token. -/
def finish? : List Token × Mode → Option (List Token)
  | (done, .between) => some done.reverse
  | (done, .inNumber text) => do some ((number (← numeral? text.reverse) :: done).reverse)
  | (done, .inWord text) => do some (((← word? text.reverse) :: done).reverse)
  | _ => none

/-- The tokens of a text. -/
def scan? (text : List Char) : Option (List Token) := do
  finish? (← text.foldlM step? ([], .between))

end Token

end CycleAccounting.Json
