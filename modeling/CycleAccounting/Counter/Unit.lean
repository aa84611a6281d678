/-!
# Functional units

The execution units that contention at the issue ports is split between.
-/

namespace CycleAccounting

/-- An execution unit. -/
inductive FunctionalUnit where
  | fpAddSub
  | fpMulDiv
  | load
  | store
  | generic
  | branch
  deriving DecidableEq, Repr

namespace FunctionalUnit

/-- Every unit, in the order in which their categories are booked. -/
def all : List FunctionalUnit := [fpAddSub, fpMulDiv, load, store, generic, branch]

theorem mem_all (u : FunctionalUnit) : u ∈ all := by cases u <;> decide

/-- The name of a unit in the name of a counter. -/
def label : FunctionalUnit → String
  | fpAddSub => "FpAddSub"
  | fpMulDiv => "FpMulDiv"
  | load => "Load"
  | store => "Store"
  | generic => "Generic"
  | branch => "Branch"

/-- The category that a unit's share of the contention is booked under. -/
def category (u : FunctionalUnit) : String := "FU_" ++ u.label

/-- The unit with a label. -/
def ofLabel? (label : String) : Option FunctionalUnit := all.find? (·.label = label)

theorem ofLabel?_label (u : FunctionalUnit) : ofLabel? u.label = some u := by
  cases u <;> decide

end FunctionalUnit

end CycleAccounting
