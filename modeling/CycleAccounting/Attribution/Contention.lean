import CycleAccounting.Attribution.CriticalPath
import CycleAccounting.Counter.Unit

/-!
# Contention

Two kinds of detail are known of the base cycles.  Contention for functional units is counted as a
whole by the coarse counters; the port counters tell only how to split it between the units, each
sharing its value equally between the units in its name.  Stalls of the dispatch width are counted
by counters of their own.
-/

namespace CycleAccounting

variable {α : Type}

namespace Counter

/-- The units that a port counter serves: all of its labels, if it has any and all are known. -/
def units? (c : Counter α) : Option (List FunctionalUnit) :=
  match c.role with
  | .unitDetail labels =>
    (labels.mapM FunctionalUnit.ofLabel?).filter (!·.isEmpty)
  | _ => none

/-- Whether the counter is part of the coarse total of functional-unit contention. -/
def isCoarse (c : Counter α) : Bool :=
  match c.role with
  | .detailedBase functionalUnit _ dispatchRate => functionalUnit && !dispatchRate
  | _ => false

/-- Whether the counter counts stalls of the dispatch width. -/
def isDispatchWidth (c : Counter α) : Bool :=
  match c.role with
  | .detailedBase functionalUnit dispatchWidth dispatchRate =>
    !functionalUnit && dispatchWidth && !dispatchRate
  | _ => false

variable [Amount α]

/-- The shares that a unit gets of a port counter: one for each time its label occurs. -/
def shares (c : Counter α) (core : Nat) (unit : FunctionalUnit) : List α :=
  match c.units? with
  | some units =>
    (units.filter (· = unit)).map fun _ => c.value core / Amount.ofNat units.length
  | none => []

end Counter

variable [Amount α]

/-- The functional-unit contention of a core as a whole. -/
def coarseContention (counters : List (Counter α)) (core : Nat) : α :=
  Amount.sum ((counters.filter Counter.isCoarse).map (·.value core))

/-- What the port counters of a core give to a unit. -/
def unitBucket (counters : List (Counter α)) (core : Nat) (unit : FunctionalUnit) : α :=
  (counters.flatMap (·.shares core unit)).foldl (· + ·) 0

/-- What the port counters of a core give to all units. -/
def fineContention (counters : List (Counter α)) (core : Nat) : α :=
  Amount.sum (FunctionalUnit.all.map (unitBucket counters core))

namespace Ledger

/-- Takes the contention out of the base category and books each unit's part of it, in proportion
to the buckets; nothing is booked where the buckets are empty as a whole. -/
def attributeUnits (counters : List (Counter α)) (core : Nat) (l : Ledger α) : Ledger α :=
  let coarse := coarseContention counters core
  let rescale := Amount.ratio coarse (fineContention counters core)
  FunctionalUnit.all.foldl
    (fun l unit => l.insert unit.category (rescale * unitBucket counters core unit))
    (l.deduct Category.base coarse)

/-- Moves the stalls of the dispatch width from the base category, if they are counted at all. -/
def attributeDispatchWidth (counters : List (Counter α)) (core : Nat) (l : Ledger α) :
    Ledger α :=
  let stalls := counters.filter Counter.isDispatchWidth
  if stalls.isEmpty then l
  else l.moveFromBase Category.issue ((stalls.map (·.value core)).foldl (· + ·) 0)

end Ledger

end CycleAccounting
