import CycleAccounting.Toml.Value

/-!
# Tables in the making

A table may be defined in one place, or grow from several: by headers of tables below it and by
dotted keys.  How it began decides how it may go on, so tables under construction carry an
`Origin`.  `Members.update` is the one operation: it descends along a path, making the tables that
are missing, and changes the table at its end.
-/

namespace CycleAccounting.Toml

/-- How a table came into being. -/
inductive Origin where
  /-- By its own header, or as a value. -/
  | defined
  /-- By the header of a table below it. -/
  | implied
  /-- By a dotted key. -/
  | dotted
  deriving DecidableEq, Repr

/-- What a name in a table stands for. -/
inductive Item where
  | value (v : Value)
  | table (origin : Origin) (members : List (String × Item))
  /-- The tables of an array that headers extend. -/
  | tables (elements : List (List (String × Item)))

/-- The names of a table. -/
abbrev Members := List (String × Item)

mutual

/-- The finished value of an item. -/
def Item.toValue : Item → Value
  | .value v => v
  | .table _ members => .table (Item.toMembers members)
  | .tables elements => .array (Item.toTables elements)

/-- The finished members of a table. -/
def Item.toMembers : List (String × Item) → List (String × Value)
  | [] => []
  | (name, item) :: rest => (name, item.toValue) :: Item.toMembers rest

/-- The finished tables of an array. -/
def Item.toTables : List (List (String × Item)) → List Value
  | [] => []
  | members :: rest => .table (Item.toMembers members) :: Item.toTables rest

end

namespace Members

/-- Sets what a name stands for, at its old place if it has one. -/
def set (name : String) (item : Item) : Members → Members
  | [] => [(name, item)]
  | (name', item') :: rest =>
    if name' = name then (name, item) :: rest else (name', item') :: set name item rest

/-- Changes the table at the end of a path.  Missing tables are made, with the origin given; an
array of tables is entered at its last; a dotted path enters no table that has been defined. -/
def update (missing : Origin) (change : Origin → Members → Option Members) :
    List String → Origin → Members → Option Members
  | [], origin, members => change origin members
  | name :: path, _, members =>
    match members.lookup name with
    | none => do
      let inner ← update missing change path missing []
      some (set name (.table missing inner) members)
    | some (.value _) => none
    | some (.table origin inner) =>
      if missing = .dotted && origin = .defined then none
      else do
        let inner ← update missing change path origin inner
        some (set name (.table origin inner) members)
    | some (.tables elements) => do
      let last ← elements.getLast?
      let last ← update missing change path .defined last
      some (set name (.tables (elements.dropLast ++ [last])) members)

/-- Puts a value under a key.  A dotted key may go on only in a table that dotted keys made, and no
name is given twice. -/
def assign? (members : Members) (key : List String) (v : Value) : Option Members := do
  let name ← key.getLast?
  let path := key.dropLast
  update .dotted (fun origin table =>
    if (origin = .dotted) = path.isEmpty then none
    else if (table.lookup name).isSome then none
    else some (table ++ [(name, .value v)])) path .defined members

/-- Opens the table of a header, fills it, and puts it in its place.  It must be new, or implied by
a header below it. -/
def define? (members : Members) (header : List String) (fill : Members → Option Members) :
    Option Members := do
  let name ← header.getLast?
  update .implied (fun _ table =>
    match table.lookup name with
    | none => do some (set name (.table .defined (← fill [])) table)
    | some (.table .implied inner) => do some (set name (.table .defined (← fill inner)) table)
    | some _ => none) header.dropLast .defined members

/-- Adds a table to the array of a header and fills it. -/
def append? (members : Members) (header : List String) (fill : Members → Option Members) :
    Option Members := do
  let name ← header.getLast?
  update .implied (fun _ table =>
    match table.lookup name with
    | none => do some (set name (.tables [← fill []]) table)
    | some (.tables elements) => do some (set name (.tables (elements ++ [← fill []])) table)
    | some _ => none) header.dropLast .defined members

end Members

end CycleAccounting.Toml
