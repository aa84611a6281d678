import CycleAccounting.Ledger
import CycleAccounting.Tree.Node

/-!
# Stacks

A stack is what a tree shows of one ledger: named entries, and their total.  The children of a
branch are measured against their common subtotal: a child that reaches its threshold is shown with
all its entries, the others are added up in a remainder behind them.  A child's own remainder is
formed before it is measured, so that a child that is not shown disappears as a whole.
-/

namespace CycleAccounting

/-- What a tree shows of one core. -/
structure Stack (α : Type) where
  /-- The entries in the order of the tree, a remainder behind the entries it belongs to. -/
  entries : List (String × α)
  /-- The subtotal of all nodes. -/
  total : α
  deriving DecidableEq, Repr

variable {α : Type} [Amount α]

/-- What a leaf reads from a ledger. -/
def Source.value (lookup : String → α) : Source → α
  | category name => lookup name
  | sum names => Amount.sum (names.map lookup)

namespace Stack

/-- The sum of the totals of several stacks. -/
def subtotal (parts : List (α × Stack α)) : α := Amount.sum (parts.map (·.2.total))

/-- Whether a part with its threshold is shown, against the subtotal it belongs to. -/
def isShown (collapse : Bool) (subtotal : α) (part : α × Stack α) : Bool :=
  !collapse || Amount.atMost (part.1 * subtotal) part.2.total

/-- Puts the stacks of siblings together.  Those that do not reach their thresholds go into the
remainder, which is shown unless it is zero. -/
def combine (collapse : Bool) (parent : Option String) (parts : List (α × Stack α)) : Stack α :=
  let total := subtotal parts
  let (shown, hidden) := parts.partition (isShown collapse total)
  let remainder := (hidden.map (·.2.total)).foldl (· + ·) 0
  { entries := shown.flatMap (·.2.entries)
      ++ if Amount.equal remainder 0 then [] else [(path parent remainderName, remainder)]
    total }

/-- The value of the first entry with a name. -/
def get? (s : Stack α) (name : String) : Option α := s.entries.lookup name

/-- The names of the entries. -/
def names (s : Stack α) : List String := s.entries.map (·.1)

/-- The share of a value in the total; zero for an empty stack. -/
def share (s : Stack α) (value : α) : α := Amount.ratio value s.total

/-- The values of a list of names, zero where there is no such entry. -/
def aligned (s : Stack α) (names : List String) : List α :=
  names.map fun name => (s.get? name).getD 0

end Stack

namespace Node

mutual

/-- The stack of one node below a path. -/
def stack (collapse : Bool) (lookup : String → α) (parent : Option String) :
    Node α → Stack α
  | leaf name _ source =>
    let value := source.value lookup
    ⟨[(path parent name, value)], value⟩
  | branch name _ children =>
    .combine collapse (some (path parent name))
      (parts collapse lookup (some (path parent name)) children)

/-- The stacks of siblings, each with its threshold. -/
def parts (collapse : Bool) (lookup : String → α) (parent : Option String) :
    List (Node α) → List (α × Stack α)
  | [] => []
  | n :: rest =>
    (n.threshold, n.stack collapse lookup parent) :: parts collapse lookup parent rest

end

end Node

namespace Tree

/-- The stack of a tree over a lookup of categories. -/
def stack (tree : Tree α) (collapse : Bool) (lookup : String → α) : Stack α :=
  .combine collapse none (Node.parts collapse lookup none tree.roots)

/-- The stack of one core; every category is zero on a core that is not there. -/
def stackOf (tree : Tree α) (collapse : Bool) (books : Books α) (core : Nat) : Stack α :=
  tree.stack collapse (books.amount core)

/-- The stacks of all cores. -/
def coreStacks (tree : Tree α) (collapse : Bool) (books : Books α) : List (Stack α) :=
  (List.range books.ncores).map (tree.stackOf collapse books)

/-- The names shown in any of some stacks, in the order of the tree. -/
def shownNames (tree : Tree α) (among : List (Stack α)) : List String :=
  let shown := among.flatMap (·.names)
  tree.names.filter shown.contains

end Tree

end CycleAccounting
