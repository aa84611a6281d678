import CycleAccounting.Amount
import CycleAccounting.Decimal.Text

/-!
# Category trees

A tree arranges categories for display.  Its leaves read categories of a ledger, its branches gather
leaves under a common name, and every node has a threshold: the least share of its parent's cycles
at which it is shown under its own name instead of in the parent's remainder.

In a stack every leaf appears under its full path, the names from its root on joined by hyphens.
The remainder of a branch is called `other` below it, the one of the whole tree just `other`.
`Tree.names` lists all of these, in the order in which they are shown; `Tree.ofRoots` accepts a
tree only if they are distinct.
-/

namespace CycleAccounting

/-- What a leaf reads from a ledger. -/
inductive Source where
  /-- One category. -/
  | category (name : String)
  /-- The sum of several. -/
  | sum (names : List String)
  deriving DecidableEq, Repr

/-- The categories that a leaf reads, in order. -/
def Source.keys : Source → List String
  | category name => [name]
  | sum names => names

/-- A node of a category tree. -/
inductive Node (α : Type) where
  | leaf (name : String) (threshold : α) (source : Source)
  | branch (name : String) (threshold : α) (children : List (Node α))

/-- What is wrong with a tree, or with the groups that simplify one. -/
inductive TreeError (α : Type) where
  /-- Two siblings, two groups or two full paths have one name. -/
  | duplicateName (parent name : String)
  /-- A name that remainders are called by. -/
  | reservedName (parent name : String)
  /-- A threshold that is not a share. -/
  | thresholdOutOfRange (name : String) (threshold : α)
  /-- A definition that is neither exactly a leaf nor exactly a branch. -/
  | ambiguousPayload (name : String)

/-- The message of the error. -/
def TreeError.message {α : Type} [DecimalText α] : TreeError α → String
  | duplicateName parent name => s!"duplicate category name '{name}' under '{parent}'"
  | reservedName parent name =>
    s!"category name '{name}' under '{parent}' is reserved for collapsed remainders"
  | thresholdOutOfRange name threshold =>
    s!"category '{name}' has threshold {DecimalText.shortest threshold}, must be in [0, 1]"
  | ambiguousPayload name =>
    s!"category '{name}' must define exactly one of `key`, `keys` or `children`"

/-- What remainders are called. -/
def remainderName : String := "other"

/-- The full path of a name below a parent path, or of a root. -/
def path (parent : Option String) (name : String) : String :=
  match parent with
  | some parent => parent ++ "-" ++ name
  | none => name

namespace Node

variable {α : Type}

def name : Node α → String
  | leaf name _ _ => name
  | branch name _ _ => name

def threshold : Node α → α
  | leaf _ threshold _ => threshold
  | branch _ threshold _ => threshold

/-! ## Keys and names -/

mutual

/-- The categories that a node reads, in order. -/
def keys : Node α → List String
  | leaf _ _ source => source.keys
  | branch _ _ children => keysOfAll children

/-- The categories that a list of nodes reads, in order. -/
def keysOfAll : List (Node α) → List String
  | [] => []
  | n :: rest => n.keys ++ keysOfAll rest

end

mutual

/-- The names that a node below a path can be shown under: leaves under their paths, and after the
leaves of a branch its remainder. -/
def names (parent : Option String) : Node α → List String
  | leaf name _ _ => [path parent name]
  | branch name _ children =>
    namesOfAll (some (path parent name)) children ++ [path (some (path parent name)) remainderName]

/-- The names that nodes below a path can be shown under. -/
def namesOfAll (parent : Option String) : List (Node α) → List String
  | [] => []
  | n :: rest => n.names parent ++ namesOfAll parent rest

end

/-! ## Thresholds and offences -/

/-- The threshold of nodes that are given none of their own, one hundredth. -/
def standardThreshold [Amount α] : α := Amount.ofNat 1 / Amount.ofNat 100

/-- Whether a threshold is a share: at least zero and at most one. -/
def isShare [Amount α] (threshold : α) : Bool :=
  Amount.atMost 0 threshold && Amount.atMost threshold (Amount.ofNat 1)

mutual

/-- The first offence at a node or below it, given its parent's name and the names of the siblings
before it: a reserved name, a repeated one, a threshold that is not a share, then its children. -/
def offence? [Amount α] (parent : String) (earlier : List String) :
    Node α → Option (TreeError α)
  | leaf name threshold _ =>
    if name = remainderName then some (.reservedName parent name)
    else if name ∈ earlier then some (.duplicateName parent name)
    else if !isShare threshold then some (.thresholdOutOfRange name threshold)
    else none
  | branch name threshold children =>
    if name = remainderName then some (.reservedName parent name)
    else if name ∈ earlier then some (.duplicateName parent name)
    else if !isShare threshold then some (.thresholdOutOfRange name threshold)
    else offenceOfAll? name [] children

/-- The first offence in a list of siblings. -/
def offenceOfAll? [Amount α] (parent : String) (earlier : List String) :
    List (Node α) → Option (TreeError α)
  | [] => none
  | n :: rest =>
    match n.offence? parent earlier with
    | some e => some e
    | none => offenceOfAll? parent (n.name :: earlier) rest

end

end Node

/-- A category tree: its roots in order. -/
structure Tree (α : Type) where
  roots : List (Node α)

namespace Tree

variable {α : Type}

/-- The categories that the tree reads, in order. -/
def keys (tree : Tree α) : List String := Node.keysOfAll tree.roots

/-- Every name that can be shown, in order, the remainder of the whole tree last. -/
def names (tree : Tree α) : List String := Node.namesOfAll none tree.roots ++ [remainderName]

/-- The first element of a list that has occurred before. -/
def firstRepeated? (seen : List String) : List String → Option String
  | [] => none
  | name :: rest => if name ∈ seen then some name else firstRepeated? (name :: seen) rest

/-- What the parent of a root is called in messages. -/
def rootName : String := "<root>"

/-- The tree with the given roots, unless a node offends or two names are shown alike. -/
def ofRoots [Amount α] (roots : List (Node α)) : Except (TreeError α) (Tree α) :=
  match Node.offenceOfAll? rootName [] roots with
  | some e => .error e
  | none =>
    let tree : Tree α := ⟨roots⟩
    match firstRepeated? [] tree.names with
    | some name => .error (.duplicateName rootName name)
    | none => .ok tree

end Tree

end CycleAccounting
