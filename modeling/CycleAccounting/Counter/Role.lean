import CycleAccounting.Text.Pieces

/-!
# Roles of counters

What a counter contributes to cycle accounting is told by its name alone.  `Role.ofName` reads the
name once; everything after that goes by the role.  The families overlap as text, so the tests are
made in a fixed order and the first that applies decides.
-/

namespace CycleAccounting

/-- What a counter is used for. -/
inductive Role where
  /-- Cycles of one category, per unit of time. -/
  | perCycle (category : String)
  /-- A contribution to the critical path, booked through the mapping tables. -/
  | criticalPath
  /-- Cycles that are booked in the base category otherwise, with the labels the name carries. -/
  | detailedBase (functionalUnit dispatchWidth dispatchRate : Bool)
  /-- Contention at one issue port, with the labels of the units it serves. -/
  | unitDetail (units : List String)
  /-- Not used for cycle accounting. -/
  | other
  deriving DecidableEq, Repr

namespace Role

/-- Starts the name of every counter of contention at one issue port. -/
def unitDetailStart : List Char := "interval_timer.detailed-cpiBaseFunctionalUnit-".toList

/-- Starts the name of every counter with labels of the detailed base. -/
def detailedBaseStart : List Char := "interval_timer.detailed-cpiBase-".toList

/-- Starts the name of every critical-path counter. -/
def criticalPathStart : List Char := "interval_timer.cpContr_".toList

/-- Stands in front of the category in the name of a per-cycle counter. -/
def perCycleMarker : List Char := ".cpi".toList

/-- The one counter with the marker that is a time and no category. -/
def fastforwardTime : List Char := "performance_model.cpiFastforwardTime".toList

/-- The category in the name of a per-cycle counter: the text from the first marker up to the
second, or up to the end. -/
def category? (name : List Char) : Option (List Char) :=
  (Text.cut? perCycleMarker name).bind fun (_, rest) =>
    let category := match Text.cut? perCycleMarker rest with
      | some (category, _) => category
      | none => rest
    if category.isEmpty then none else some category

/-- The unit labels behind the last hyphen, set apart by plus signs. -/
def unitLabels (labels : List Char) : List String :=
  ((Text.pieces '+' (Text.afterLast '-' labels)).filter (!·.isEmpty)).map String.ofList

/-- The role of a counter name, as characters. -/
def ofChars (name : List Char) : Role :=
  match unitDetailStart.isPrefixOf? name with
  | some labels => .unitDetail (unitLabels labels)
  | none =>
    match detailedBaseStart.isPrefixOf? name with
    | some labels =>
      .detailedBase (Text.occurs "FunctionalUnit".toList labels)
        (Text.occurs "DispatchWidth".toList labels) (Text.occurs "DispatchRate".toList labels)
    | none =>
      if criticalPathStart.isPrefixOf name then .criticalPath
      else if name = fastforwardTime then .other
      else
        match category? name with
        | some category => .perCycle (String.ofList category)
        | none => .other

/-- The role of a counter. -/
def ofName (name : String) : Role := ofChars name.toList

end Role

end CycleAccounting
