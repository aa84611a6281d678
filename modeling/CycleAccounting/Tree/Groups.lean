import CycleAccounting.Tree.Node

/-!
# Groups of categories

A simplified tree has one leaf for each group of roots of the full tree.  A group claims the roots
that it lists, and a root of its own name; the first group that claims a root gets it.  Simplifying
once more changes nothing unless a group lists the name of a later one: then it gets the leaf of
that group as well.
-/

namespace CycleAccounting

/-- A named group of roots. -/
structure Group where
  name : String
  members : List String
  deriving DecidableEq, Repr

/-- Whether a group claims the root of a name. -/
def Group.claims (g : Group) (root : String) : Bool := g.name = root || g.members.contains root

/-- Groups in the order in which they claim roots. -/
structure Groups where
  toList : List Group
  deriving DecidableEq, Repr

namespace Groups

/-- What the parent of a group is called in messages. -/
def parentName : String := "<groups>"

/-- The first group whose name is reserved or was given before, as an error. -/
def offence? {α : Type} (earlier : List String) : List Group → Option (TreeError α)
  | [] => none
  | g :: rest =>
    if g.name = remainderName then some (.reservedName parentName g.name)
    else if g.name ∈ earlier then some (.duplicateName parentName g.name)
    else offence? (g.name :: earlier) rest

/-- Groups with distinct names, none of them the name of remainders. -/
def ofList {α : Type} (groups : List Group) : Except (TreeError α) Groups :=
  match offence? [] groups with
  | some e => .error e
  | none => .ok ⟨groups⟩

/-- The name of the first group that claims a root. -/
def groupOf? (groups : Groups) (root : String) : Option String :=
  (groups.toList.find? (·.claims root)).map (·.name)

/-- The groups of the simplified built-in trees. -/
def standard : Groups where
  toList :=
    [⟨"compute",
        ["dispatch_width", "base", "issue", "depend", "contend", "branch", "serial", "smt"]⟩,
     ⟨"communicate", ["itlb", "dtlb", "ifetch", "mem"]⟩,
     ⟨"synchronize", ["sync", "recv", "dvfs-transition", "imbalance"]⟩]

end Groups

namespace Tree

variable {α : Type} [Amount α]

/-- One leaf for each group, reading what the roots claimed by it read, then the roots that no
group claims. -/
def regroup : List Group → List (Node α) → List (Node α)
  | [], roots => roots
  | g :: rest, roots =>
    .leaf g.name 0 (.sum (Node.keysOfAll (roots.filter (g.claims ·.name))))
      :: regroup rest (roots.filter (!g.claims ·.name))

/-- The tree with its roots gathered into groups. -/
def simplify (tree : Tree α) (groups : Groups) : Tree α := ⟨regroup groups.toList tree.roots⟩

end Tree

end CycleAccounting
