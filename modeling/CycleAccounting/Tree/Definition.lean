import CycleAccounting.Document
import CycleAccounting.Toml.Document
import CycleAccounting.Tree.Node

/-!
# Trees from documents

A tree is defined in TOML as an array of categories.  A definition names a category, gives its
threshold, one hundredth if it is left out, and exactly one of the category it reads (`key`), the
categories it sums (`keys`) and the definitions below it (`children`).
-/

namespace CycleAccounting

/-- A category as it is defined, with any of the three ways to fill it. -/
inductive Definition (α : Type) where
  | mk (name : String) (threshold : α) (key : Option String) (keys : Option (List String))
    (children : Option (List (Definition α)))

namespace Definition

variable {α : Type}

mutual

/-- The node of a definition.  The first definition that is filled in none or in several ways, the
outer before the inner, is an error. -/
def toNode : Definition α → Except (TreeError α) (Node α)
  | mk name threshold (some key) none none => .ok (.leaf name threshold (.category key))
  | mk name threshold none (some keys) none => .ok (.leaf name threshold (.sum keys))
  | mk name threshold none none (some children) => do
    return .branch name threshold (← toNodes children)
  | mk name _ _ _ _ => .error (.ambiguousPayload name)

/-- The nodes of a list of definitions. -/
def toNodes : List (Definition α) → Except (TreeError α) (List (Node α))
  | [] => .ok []
  | d :: rest => do return (← d.toNode) :: (← toNodes rest)

end

/-! ## Reading definitions -/

/-- The fields of a definition that have been read. -/
structure Fields where
  name : Option String := none
  threshold : Option Double := none
  key : Option String := none
  keys : Option (List String) := none
  children : Option (List (Definition Double)) := none

/-- The definition of some fields; the name is required. -/
def Fields.definition? (fields : Fields) : Option (Definition Double) :=
  fields.name.map fun name =>
    .mk name (fields.threshold.getD Node.standardThreshold) fields.key fields.keys fields.children

/-- The names of the fields, in the order in which a definition without names gives them. -/
def fieldNames : List String := ["name", "threshold", "key", "keys", "children"]

/-- Reads a list of strings. -/
def texts? (v : Toml.Value) : Option (List String) := do (← v.items?).mapM (·.text?)

mutual

/-- Reads a definition: a table of fields, or an array of them in order. -/
def ofToml? : Toml.Value → Option (Definition Double)
  | .table members => do (← ofMembers? members).definition?
  | .array items => do (← ofItems? fieldNames items).definition?
  | _ => none

/-- Reads a list of definitions. -/
def allOfToml? : Toml.Value → Option (List (Definition Double))
  | .array items => ofList? items
  | _ => none

/-- Reads definitions one by one. -/
def ofList? : List Toml.Value → Option (List (Definition Double))
  | [] => some []
  | v :: rest => do return (← ofToml? v) :: (← ofList? rest)

/-- Adds one field to those that have been read; a field of another name is ignored. -/
def addField? (fields : Fields) (name : String) (v : Toml.Value) : Option Fields :=
  if name = "name" then v.text?.map fun x => { fields with name := some x }
  else if name = "threshold" then v.float?.map fun x => { fields with threshold := some x }
  else if name = "key" then v.text?.map fun x => { fields with key := some x }
  else if name = "keys" then (texts? v).map fun x => { fields with keys := some x }
  else if name = "children" then
    (allOfToml? v).map fun x => { fields with children := some x }
  else some fields

/-- Reads the fields of a table. -/
def ofMembers? : List (String × Toml.Value) → Option Fields
  | [] => some {}
  | (name, v) :: rest => do addField? (← ofMembers? rest) name v

/-- Reads fields that are given in the order of their names. -/
def ofItems? : List String → List Toml.Value → Option Fields
  | name :: names, v :: rest => do addField? (← ofItems? names rest) name v
  | _, _ => some {}

end

end Definition

namespace Tree

/-- The tree of a list of definitions. -/
def ofDefinitions {α : Type} [Amount α] (definitions : List (Definition α)) :
    Except (TreeError α) (Tree α) := do
  Tree.ofRoots (← Definition.toNodes definitions)

/-- Reads a tree from a document. -/
def ofToml (text : String) : Except (DocumentError (TreeError Double)) (Tree Double) := do
  let members ← orFault .tree .malformed (Toml.Document.parse? text)
  let definitions ← orFault .tree .unexpectedShape
    ((members.lookup "category").bind Definition.allOfToml?)
  (ofDefinitions definitions).mapError .refused

end Tree

end CycleAccounting
