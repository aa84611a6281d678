import CycleAccounting.Amount
import CycleAccounting.Catalog
import CycleAccounting.Counter.Role

/-!
# Mapping tables

Critical-path counters are booked under the category that a table names for them, after division
by a common factor.  A simulator with another counter layout brings its own tables.
-/

namespace CycleAccounting

/-- Where critical-path counters are booked. -/
structure Tables (α : Type) where
  /-- The category of each critical-path counter. -/
  targets : Catalog String
  /-- What a critical-path counter is divided by to give cycles. -/
  normalization : α

namespace Tables

/-- The targets of the standard counter layout, by the end of the counter's name. -/
def standardTargets : List (String × String) :=
  [("generic", "PathInt"), ("store", "PathStore"), ("load_other", "PathLoadX"),
   ("branch", "PathBranch"), ("load_l1", "DataCacheL1"), ("load_l2", "DataCacheL2"),
   ("load_l3", "DataCacheL3"), ("fp_addsub", "PathFP"), ("fp_muldiv", "PathFP"),
   ("port0", "PathP0"), ("port1", "PathP1"), ("port2", "PathP2"), ("port34", "PathP34"),
   ("port5", "PathP5"), ("port05", "PathP05"), ("port015", "PathP015")]

/-- The tables of the standard counter layout. -/
def standard {α : Type} [Amount α] : Tables α where
  targets := .ofList (standardTargets.map fun (name, target) =>
    (String.ofList Role.criticalPathStart ++ name, target))
  normalization := Amount.ofNat 1000000

end Tables

end CycleAccounting
