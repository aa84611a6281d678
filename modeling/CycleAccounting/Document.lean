import CycleAccounting.Decimal.Text

/-!
# Documents

Runs, trees and options are read from documents.  A document may be unreadable as such, because its
text does not follow the format or does not hold the fields that are asked for; otherwise what it
holds may be refused for a reason of its own.
-/

namespace CycleAccounting

/-- What is read from a document. -/
inductive DocumentKind where
  | results
  | tree
  | options
  deriving DecidableEq, Repr

namespace DocumentKind

/-- What the file of such a document is called. -/
def fileName : DocumentKind → String
  | results => "results file"
  | tree => "category tree file"
  | options => "options file"

/-- What is said of an unreadable document. -/
def unreadable : DocumentKind → String
  | results => "Failed to parse results document"
  | tree => "Failed to parse TOML category definitions"
  | options => "Failed to parse TOML stack options"

end DocumentKind

/-- Why a document is unreadable. -/
inductive ReadFault where
  /-- The text does not follow its format. -/
  | malformed
  /-- A field is missing, repeated, unknown or of another type. -/
  | unexpectedShape
  deriving DecidableEq, Repr

/-- The message of the fault. -/
def ReadFault.message : ReadFault → String
  | malformed => "the text is malformed"
  | unexpectedShape => "the fields are not the expected ones"

/-- Why nothing was read from a document: it is unreadable, or its content is refused. -/
inductive DocumentError (ε : Type) where
  | unreadable (kind : DocumentKind) (fault : ReadFault)
  | refused (e : ε)

/-- The messages of the error, the outermost first, given the message of a refusal. -/
def DocumentError.chain {ε : Type} (message : ε → String) : DocumentError ε → List String
  | unreadable kind fault => [kind.unreadable, fault.message]
  | refused e => [message e]

/-- Passes a value on, or a fault. -/
def orFault {β ε : Type} (kind : DocumentKind) (fault : ReadFault) :
    Option β → Except (DocumentError ε) β
  | some v => .ok v
  | none => .error (.unreadable kind fault)

end CycleAccounting
