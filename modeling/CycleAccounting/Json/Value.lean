import CycleAccounting.Decimal.Gathered
import CycleAccounting.Json.Token

/-!
# JSON values

The values that a JSON text denotes, before any of them is looked at: numbers are kept as numerals
and members in the order of the text, repeated names included.  A string whose escapes leave half
of a surrogate pair alone has no content; it is well formed all the same.

Values are put together from tokens by a machine with a stack of the arrays and objects that are
open, so that reading is one fold over the tokens and no nesting is too deep for it.
-/

namespace CycleAccounting.Json

/-- A JSON value. -/
inductive Value where
  | null
  | bool (b : Bool)
  | number (n : Decimal.Numeral)
  | string (content : Option String)
  | array (items : List Value)
  | object (members : List (Option String × Value))

namespace Value

/-! ## Looking into a value -/

/-- The elements of an array. -/
def items? : Value → Option (List Value)
  | array items => some items
  | _ => none

/-- The content of a string. -/
def text? : Value → Option String
  | string content => content
  | _ => none

/-- The double of a number that is not beyond all doubles. -/
def double? : Value → Option Double
  | number n => n.gathered?
  | _ => none

/-- The members of an object whose names all have a content. -/
def members? : Value → Option (List (String × Value))
  | object members => members.mapM fun (name, v) => name.map (·, v)
  | _ => none

/-! ## Reading a value -/

/-- An array or object that is open, with what has been read of it in reverse. -/
inductive Frame where
  | array (items : List Value)
  | object (members : List (Option String × Value)) (name : Option String)

/-- What may come next. -/
inductive Expectation where
  /-- A value, or the end of an array that has just been opened. -/
  | item (mayClose : Bool)
  /-- The name of a member, or the end of an object that has just been opened. -/
  | name (members : List (Option String × Value)) (mayClose : Bool)
  /-- The colon behind a name. -/
  | colon (members : List (Option String × Value)) (name : Option String)
  /-- Behind a complete value: a comma or an end. -/
  | after (v : Value)

/-- Takes one token. -/
def step? : List Frame × Expectation → Token → Option (List Frame × Expectation)
  | (frames, .item mayClose), token =>
    match token, frames with
    | .null, _ => some (frames, .after .null)
    | .bool b, _ => some (frames, .after (.bool b))
    | .number n, _ => some (frames, .after (.number n))
    | .string content, _ => some (frames, .after (.string content))
    | .openBracket, _ => some (.array [] :: frames, .item true)
    | .openBrace, _ => some (frames, .name [] true)
    | .closeBracket, .array items :: outer =>
      if mayClose then some (outer, .after (.array items.reverse)) else none
    | _, _ => none
  | (frames, .name members mayClose), token =>
    match token with
    | .string name => some (frames, .colon members name)
    | .closeBrace => if mayClose then some (frames, .after (.object members.reverse)) else none
    | _ => none
  | (frames, .colon members name), token =>
    match token with
    | .colon => some (.object members name :: frames, .item false)
    | _ => none
  | (frames, .after v), token =>
    match token, frames with
    | .comma, .array items :: outer => some (.array (v :: items) :: outer, .item false)
    | .closeBracket, .array items :: outer =>
      some (outer, .after (.array (v :: items).reverse))
    | .comma, .object members name :: outer =>
      some (outer, .name ((name, v) :: members) false)
    | .closeBrace, .object members name :: outer =>
      some (outer, .after (.object ((name, v) :: members).reverse))
    | _, _ => none

/-- The value that tokens denote: one value, and nothing left open. -/
def ofTokens? (tokens : List Token) : Option Value :=
  match tokens.foldlM step? ([], .item false) with
  | some ([], .after v) => some v
  | _ => none

/-- The value of a JSON text. -/
def parse? (text : String) : Option Value := do ofTokens? (← Token.scan? text.toList)

end Value

end CycleAccounting.Json
