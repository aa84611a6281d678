import CycleAccounting.Text.Pieces
import CycleAccounting.Toml.Table
import CycleAccounting.Toml.Token

/-!
# TOML documents

A document is a list of statements: headers of tables, headers that add a table to an array, and
assignments of values to keys.  `Document.parse?` reads the statements one by one into the table
that the document denotes.
-/

namespace CycleAccounting.Toml

/-- No key has so many parts, and no value nests so deep. -/
def depthLimit : Nat := 80

/-! ## Statements -/

/-- Writes a date and a time with one blank between them as the single word that they are. -/
def joinDatetimes : List Token → List Token
  | .word date :: .blank [' '] :: .word time :: rest =>
    if Value.date? date = some [] && (Value.hourMinute? (time.take 5)).isSome then
      .word (date ++ ' ' :: time) :: joinDatetimes rest
    else .word date :: .blank [' '] :: joinDatetimes (.word time :: rest)
  | token :: rest => token :: joinDatetimes rest
  | [] => []

/-- How many brackets are open behind a token. -/
def depthAfter (depth : Nat) : Token → Nat
  | .openBracket | .openBrace => depth + 1
  | .closeBracket | .closeBrace => depth - 1
  | _ => depth

/-- Splits tokens at the line ends outside brackets. -/
def statements (depth : Nat) : List Token → List (List Token)
  | [] => [[]]
  | token :: rest =>
    if token = .newline && depth = 0 then [] :: statements 0 rest
    else
      match statements (depthAfter depth token) rest with
      | [] => [[token]]
      | first :: others => (token :: first) :: others

/-- Whether a token is blank. -/
def Token.isBlank : Token → Bool
  | .blank _ => true
  | _ => false

/-- Drops the blanks at both ends. -/
def trimTokens (tokens : List Token) : List Token :=
  ((tokens.dropWhile (·.isBlank)).reverse.dropWhile (·.isBlank)).reverse

/-! ## Keys -/

/-- The parts of a key and the dots between them. -/
inductive KeyPart where
  | name (text : String)
  | dot
  deriving DecidableEq

/-- Whether a character may stand in the name of a key without quotes. -/
def isBare (c : Char) : Bool := c.isAlphanum || c = '_' || c = '-'

/-- The part between two dots of a word, where no name need stand. -/
def barePart? (name : List Char) : Option (List KeyPart) :=
  if name.isEmpty then some []
  else if name.all isBare then some [.name (String.ofList name)]
  else none

/-- The parts in a word: bare names between its dots. -/
def wordParts? (text : List Char) : Option (List KeyPart) := do
  some ([KeyPart.dot].intercalate (← (Text.pieces '.' text).mapM barePart?))

/-- The parts of a key as it is written. -/
def keyParts? : List Token → Option (List KeyPart)
  | [] => some []
  | .blank _ :: rest => keyParts? rest
  | .word text :: rest => do some ((← wordParts? text) ++ (← keyParts? rest))
  | .string content false :: rest => do some (.name content :: (← keyParts? rest))
  | _ => none

/-- The names of a key: one, or several with single dots between them. -/
def namesOf? : List KeyPart → Option (List String)
  | [.name text] => some [text]
  | .name text :: .dot :: rest => (namesOf? rest).map (text :: ·)
  | _ => none

/-- Reads a key. -/
def key? (tokens : List Token) : Option (List String) := do
  let names ← namesOf? (← keyParts? tokens)
  if names.length < depthLimit then some names else none

/-! ## Values -/

/-- An array or inline table that is open; the items of an array in reverse. -/
inductive Frame where
  | array (items : List Value)
  | table (members : Members) (key : List String)

/-- What may come next. -/
inductive Expectation where
  /-- The value of an assignment. -/
  | value
  /-- An item of an array, or its end. -/
  | item
  /-- A key, of which some tokens have been read, or the end of a table just opened. -/
  | key (members : Members) (tokens : List Token) (mayClose : Bool)
  /-- Behind a complete value: a comma or an end. -/
  | after (v : Value)

/-- Begins a value. -/
def beginValue? (frames : List Frame) (token : Token) : Option (List Frame × Expectation) :=
  match token with
  | .word text => (Value.ofWord? text).map fun v => (frames, .after v)
  | .string content _ => some (frames, .after (.string content))
  | .openBracket =>
    if frames.length + 1 < depthLimit then some (.array [] :: frames, .item) else none
  | .openBrace =>
    if frames.length + 1 < depthLimit then some (frames, .key [] [] true) else none
  | _ => none

/-- Takes one token of a value. -/
def valueStep? : List Frame × Expectation → Token → Option (List Frame × Expectation)
  | (frames, .value), token =>
    if token.isBlank then some (frames, .value) else beginValue? frames token
  | (frames, .item), token =>
    match token, frames with
    | .blank _, _ | .newline, _ => some (frames, .item)
    | .closeBracket, .array items :: outer => some (outer, .after (.array items.reverse))
    | _, _ => beginValue? frames token
  | (frames, .key members tokens mayClose), token =>
    match token with
    | .equals => do
      let key ← key? tokens.reverse
      some (.table members key :: frames, .value)
    | .closeBrace =>
      if mayClose && tokens.all (·.isBlank) then
        some (frames, .after (.table (Item.toMembers members)))
      else none
    | _ => some (frames, .key members (token :: tokens) mayClose)
  | (frames, .after v), token =>
    match token, frames with
    | .blank _, _ => some (frames, .after v)
    | .newline, .array _ :: _ => some (frames, .after v)
    | .comma, .array items :: outer => some (.array (v :: items) :: outer, .item)
    | .closeBracket, .array items :: outer => some (outer, .after (.array (v :: items).reverse))
    | .comma, .table members key :: outer => do
      some (outer, .key (← members.assign? key v) [] false)
    | .closeBrace, .table members key :: outer => do
      some (outer, .after (.table (Item.toMembers (← members.assign? key v))))
    | _, _ => none

/-- Reads the value of an assignment. -/
def value? (tokens : List Token) : Option Value :=
  match tokens.foldlM valueStep? ([], .value) with
  | some ([], .after v) => some v
  | _ => none

/-! ## Documents -/

/-- A statement. -/
inductive Statement where
  /-- The header of a table. -/
  | table (header : List String)
  /-- The header of one more table of an array. -/
  | element (header : List String)
  | assign (key : List String) (v : Value)

/-- Takes the closing brackets off a header. -/
def inside? (closing : List Token) (tokens : List Token) : Option (List Token) :=
  let kept := tokens.length - closing.length
  if tokens.drop kept = closing then some (tokens.take kept) else none

/-- Reads a statement that is not empty. -/
def Statement.ofTokens? (tokens : List Token) : Option Statement :=
  match tokens with
  | .openBracket :: .openBracket :: rest => do
    some (.element (← key? (← inside? [.closeBracket, .closeBracket] rest)))
  | .openBracket :: rest => do some (.table (← key? (← inside? [.closeBracket] rest)))
  | _ =>
    match tokens.dropWhile (· ≠ .equals) with
    | _ :: rest => do some (.assign (← key? (tokens.takeWhile (· ≠ .equals))) (← value? rest))
    | [] => none

/-- The header that a section begins with, and its assignments. -/
structure Section where
  header : Statement
  assignments : List (List String × Value)

/-- Gathers the assignments behind each header; those in front of all headers are given apart. -/
def sections : List Statement → List (List String × Value) × List Section
  | [] => ([], [])
  | .assign key v :: rest =>
    let (first, others) := sections rest
    ((key, v) :: first, others)
  | header :: rest =>
    let (own, others) := sections rest
    ([], ⟨header, own⟩ :: others)

/-- Carries out assignments one after the other. -/
def fill (assignments : List (List String × Value)) (members : Members) : Option Members :=
  assignments.foldlM (fun members (key, v) => members.assign? key v) members

/-- Reads a section into a document. -/
def Section.apply? (s : Section) (document : Members) : Option Members :=
  match s.header with
  | .table header => document.define? header (fill s.assignments)
  | .element header => document.append? header (fill s.assignments)
  | .assign key v => do fill s.assignments (← document.assign? key v)

/-- The table that a TOML text denotes. -/
def Document.parse? (text : String) : Option (List (String × Value)) := do
  let tokens := joinDatetimes (← Token.scan? text.toList)
  let lines := ((statements 0 tokens).map trimTokens).filter (!·.isEmpty)
  let (first, others) := sections (← lines.mapM Statement.ofTokens?)
  let members ← others.foldlM (fun document s => s.apply? document) (← fill first [])
  some (Item.toMembers members)

end CycleAccounting.Toml
