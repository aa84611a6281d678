import CycleAccounting.Category
import CycleAccounting.Counter.Tables
import CycleAccounting.Ledger
import CycleAccounting.Run

/-!
# Critical-path contributions

A critical-path counter tells how many of a core's base cycles are due to one cause.  These cycles
are moved out of the base category into the one that the tables name.
-/

namespace CycleAccounting.Ledger

variable {α : Type} [Amount α]

/-- Moves cycles from the base category to another. -/
def moveFromBase (l : Ledger α) (category : String) (cycles : α) : Ledger α :=
  (l.deduct Category.base cycles).book category cycles

/-- Moves the contribution of one counter of the tables, if the run carries it. -/
def attributeContribution (run : Run α) (normalization : α) (core : Nat) (l : Ledger α)
    (counter target : String) : Ledger α :=
  if (run.counter? counter).isNone then l
  else l.moveFromBase target (run.value counter core / normalization)

/-- Moves the contributions of all counters of the tables, in name order. -/
def attributeCriticalPath (run : Run α) (tables : Tables α) (core : Nat) (l : Ledger α) :
    Ledger α :=
  tables.targets.toList.foldl
    (fun l (counter, target) =>
      l.attributeContribution run tables.normalization core counter target) l

end CycleAccounting.Ledger
