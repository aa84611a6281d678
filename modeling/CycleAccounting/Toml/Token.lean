import CycleAccounting.Decimal.Digits

/-!
# TOML tokens

The characters of a TOML text are gathered into tokens by one left-to-right pass.  What a word
means depends on where it stands, so numbers, dates, bare keys and the two truth values are all
words here; only strings are understood in full.  Blanks and line ends are tokens, because headers
and statements depend on them, and comments are dropped.
-/

namespace CycleAccounting.Toml

/-- A token of a TOML text. -/
inductive Token where
  | word (text : List Char)
  /-- A string, and whether it was written in the form that may span lines. -/
  | string (content : String) (multiline : Bool)
  | blank (text : List Char)
  | newline
  | equals
  | comma
  | openBracket
  | closeBracket
  | openBrace
  | closeBrace
  deriving DecidableEq, Repr

namespace Token

/-! ## Characters -/

/-- The characters that words are made of. -/
def isWordChar (c : Char) : Bool := c.isAlphanum || ['_', '-', '+', '.', ':'].contains c

/-- The characters that may stand in strings and comments: no control characters but the tab. -/
def isPrintable (c : Char) : Bool := c = '\t' || (0x20 ≤ c.toNat && c.toNat ≠ 0x7F)

/-- The token of a punctuation mark. -/
def mark? (c : Char) : Option Token :=
  [('=', equals), (',', comma), ('[', openBracket), (']', closeBracket), ('{', openBrace),
    ('}', closeBrace)].lookup c

/-- The character that a letter behind a backslash denotes. -/
def escaped? (c : Char) : Option Char :=
  [('"', '"'), ('\\', '\\'), ('b', '\x08'), ('f', '\x0C'), ('n', '\n'), ('r', '\r'),
    ('t', '\t')].lookup c

/-- The number of hexadecimal digits behind an escaping letter. -/
def codeLength? (c : Char) : Option Nat := [('u', 4), ('U', 8)].lookup c

/-- The character of a code point, which must not be a surrogate. -/
def charOfCode? (n : Nat) : Option Char := if n.isValidChar then some (Char.ofNat n) else none

/-! ## The pass -/

/-- How a string is written: with escapes between double quotes, or literally between single
ones, on one line or on several. -/
structure Style where
  escapes : Bool
  multiline : Bool
  deriving DecidableEq, Repr

/-- The character that a string ends with. -/
def Style.quote (s : Style) : Char := if s.escapes then '"' else '\''

/-- The token being read, its characters in reverse. -/
inductive Mode where
  | between
  | inWord (text : List Char)
  | inBlank (text : List Char)
  | inComment
  /-- Behind a carriage return outside strings. -/
  | lineEnd
  /-- Behind one or two quotes that open a string, or behind three: then a line end is dropped. -/
  | opening (escapes : Bool) (quotes : Nat)
  /-- Behind three opening quotes and a carriage return. -/
  | openingLineEnd (escapes : Bool)
  /-- In a string, behind some quotes that may turn out to end it. -/
  | inString (style : Style) (text : List Char) (quotes : Nat)
  /-- Behind a carriage return in a string. -/
  | stringLineEnd (style : Style) (text : List Char)
  | inEscape (style : Style) (text : List Char)
  /-- In the hexadecimal digits of an escape, of which some are missing. -/
  | inCode (style : Style) (text digits : List Char) (missing : Nat)
  /-- Behind an escaped line end, or on the way to one: blanks are dropped. -/
  | inFold (text : List Char) (lineEnded : Bool)
  /-- Behind a carriage return that is being folded away. -/
  | foldLineEnd (text : List Char)

/-- Begins a token. -/
def begin? (done : List Token) (c : Char) : Option (List Token × Mode) :=
  if c = '\n' then some (newline :: done, .between)
  else if c = '\r' then some (done, .lineEnd)
  else if c = ' ' || c = '\t' then some (done, .inBlank [c])
  else if c = '#' then some (done, .inComment)
  else if c = '"' then some (done, .opening true 1)
  else if c = '\'' then some (done, .opening false 1)
  else if isWordChar c then some (done, .inWord [c])
  else (mark? c).map fun mark => (mark :: done, .between)

/-- Reads a character inside a string, where `text` has been read and no quote is pending. -/
def stringStep? (done : List Token) (style : Style) (text : List Char) (c : Char) :
    Option (List Token × Mode) :=
  if c = style.quote then
    if style.multiline then some (done, .inString style text 1)
    else some (string (String.ofList text.reverse) false :: done, .between)
  else if style.escapes && c = '\\' then some (done, .inEscape style text)
  else if style.multiline && c = '\n' then some (done, .inString style ('\n' :: text) 0)
  else if style.multiline && c = '\r' then some (done, .stringLineEnd style text)
  else if isPrintable c then some (done, .inString style (c :: text) 0)
  else none

/-- Ends a string that may span lines, at whose end some quotes stand; all but three of them belong
to it. -/
def closed (style : Style) (text : List Char) (quotes : Nat) : Token :=
  string (String.ofList (text.reverse ++ List.replicate (quotes - 3) style.quote)) true

/-- Reads one more character. -/
def step? : List Token × Mode → Char → Option (List Token × Mode)
  | (done, .between), c => begin? done c
  | (done, .inWord text), c =>
    if isWordChar c then some (done, .inWord (c :: text))
    else begin? (word text.reverse :: done) c
  | (done, .inBlank text), c =>
    if c = ' ' || c = '\t' then some (done, .inBlank (c :: text))
    else begin? (blank text.reverse :: done) c
  | (done, .inComment), c =>
    if c = '\n' || c = '\r' then begin? done c
    else if isPrintable c then some (done, .inComment)
    else none
  | (done, .lineEnd), c => if c = '\n' then some (newline :: done, .between) else none
  | (done, .opening escapes quotes), c =>
    let quote := Style.quote ⟨escapes, false⟩
    match quotes with
    | 1 =>
      if c = quote then some (done, .opening escapes 2)
      else stringStep? done ⟨escapes, false⟩ [] c
    | 2 =>
      if c = quote then some (done, .opening escapes 3)
      else begin? (string "" false :: done) c
    | _ =>
      if c = '\n' then some (done, .inString ⟨escapes, true⟩ [] 0)
      else if c = '\r' then some (done, .openingLineEnd escapes)
      else stringStep? done ⟨escapes, true⟩ [] c
  | (done, .openingLineEnd escapes), c =>
    if c = '\n' then some (done, .inString ⟨escapes, true⟩ [] 0) else none
  | (done, .inString style text quotes), c =>
    if quotes = 0 then stringStep? done style text c
    else if c = style.quote then
      if quotes = 4 then some (closed style text 5 :: done, .between)
      else some (done, .inString style text (quotes + 1))
    else if quotes < 3 then
      stringStep? done style (List.replicate quotes style.quote ++ text) c
    else begin? (closed style text quotes :: done) c
  | (done, .stringLineEnd style text), c =>
    if c = '\n' then some (done, .inString style ('\n' :: text) 0) else none
  | (done, .inEscape style text), c =>
    match escaped? c, codeLength? c with
    | some x, _ => some (done, .inString style (x :: text) 0)
    | none, some length => some (done, .inCode style text [] length)
    | none, none =>
      if !style.multiline then none
      else if c = ' ' || c = '\t' then some (done, .inFold text false)
      else if c = '\n' then some (done, .inFold text true)
      else if c = '\r' then some (done, .foldLineEnd text)
      else none
  | (done, .inCode style text digits missing), c =>
    if missing ≤ 1 then do
      let x ← charOfCode? (← Decimal.valueInBase? 16 (c :: digits).reverse)
      some (done, .inString style (x :: text) 0)
    else some (done, .inCode style text (c :: digits) (missing - 1))
  | (done, .inFold text lineEnded), c =>
    if c = ' ' || c = '\t' then some (done, .inFold text lineEnded)
    else if c = '\n' then some (done, .inFold text true)
    else if c = '\r' then some (done, .foldLineEnd text)
    else if lineEnded then stringStep? done ⟨true, true⟩ text c
    else none
  | (done, .foldLineEnd text), c => if c = '\n' then some (done, .inFold text true) else none

/-- Ends the last token. -/
def finish? : List Token × Mode → Option (List Token)
  | (done, .between) | (done, .inComment) => some done.reverse
  | (done, .inWord text) => some (word text.reverse :: done).reverse
  | (done, .inBlank text) => some (blank text.reverse :: done).reverse
  | (done, .opening _ 2) => some (string "" false :: done).reverse
  | (done, .inString style text quotes) =>
    if 3 ≤ quotes then some (closed style text quotes :: done).reverse else none
  | _ => none

/-- The tokens of a text, behind the mark that the text may begin with. -/
def scan? (text : List Char) : Option (List Token) := do
  let text := match text with
    | '\uFEFF' :: rest => rest
    | _ => text
  finish? (← text.foldlM step? ([], .between))

end Token

end CycleAccounting.Toml
