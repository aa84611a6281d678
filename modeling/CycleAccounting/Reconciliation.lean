import CycleAccounting.Attribution.Contention
import CycleAccounting.Attribution.PerCycle
import CycleAccounting.Diagnostic
import CycleAccounting.TimeBasis

/-!
# Reconciliation

The counters of a run overlap: the same cycle may be counted in the base category, on the critical
path and as contention.  `Run.reconcile` turns them into books in which every cycle of a core is
booked once.  Each pass moves cycles between categories, and the imbalance, booked last, is what is
left of the core's budget, so that each ledger adds up to the budget.
-/

namespace CycleAccounting

/-- Disjoint categories for every core of a run, and what they were derived with. -/
structure Reconciliation (α : Type) where
  books : Books α
  basis : TimeBasis α
  /-- The instruction count of each core. -/
  instructions : List α
  diagnostics : List Diagnostic

/-- What is wrong with a counter, if it should have been used but cannot be. -/
def Counter.finding? {α : Type} (c : Counter α) (tables : Tables α) : Option Diagnostic :=
  match c.role with
  | .criticalPath => if tables.targets.contains c.name then none else some (.unmappedCounter c.name)
  | .unitDetail labels =>
    match labels.find? fun label => (FunctionalUnit.ofLabel? label).isNone with
    | some label => some (.unknownUnit c.name label)
    | none => if labels.isEmpty then some (.unmappedCounter c.name) else none
  | _ => none

/-- Whether the diagnostic is about a counter that the tables do not name. -/
def Diagnostic.isUnmapped : Diagnostic → Bool
  | unmappedCounter _ => true
  | _ => false

namespace Run

variable {α : Type}

/-- The findings on the counters of a run: first the unmapped counters, then those with unknown
units, each in name order. -/
def findings (run : Run α) (tables : Tables α) : List Diagnostic :=
  let found := run.classified.filterMap (·.finding? tables)
  found.filter (·.isUnmapped) ++ found.filter (!·.isUnmapped)

end Run

variable {α : Type} [Amount α]

namespace Ledger

/-- Books as imbalance what the other categories leave of a budget. -/
def balance (budget : α) (l : Ledger α) : Ledger α :=
  let others := Catalog.erase l Category.imbalance
  others.insert Category.imbalance (budget - Ledger.total others)

/-- Makes a core's reported categories disjoint. -/
def settle (run : Run α) (tables : Tables α) (basis : TimeBasis α)
    (counters : List (Counter α)) (core : Nat) (reported : Ledger α) : Ledger α :=
  reported.clearCopiedMemAccess
    |>.bookStart run core (Amount.getAt basis.scale core)
    |>.attributeCriticalPath run tables core
    |>.attributeUnits counters core
    |>.attributeDispatchWidth counters core
    |>.balance (basis.coreCycles core)

end Ledger

/-- Reconciles the counters of every core.  A run without any per-cycle counter is refused: it was
simulated with another core model. -/
def Run.reconcile (run : Run α) (tables : Tables α) : Except RunError (Reconciliation α) := do
  let instructions ← run.instructions
  let basis ← TimeBasis.ofRun run
  let counters := run.classified
  let reported := (List.range run.ncores).map fun core =>
    Ledger.ofPerCycle counters core (Amount.getAt basis.scale core)
  if reported.all (·.isEmpty) then throw .missingModel
  return {
    books := ⟨reported.mapIdx fun core l => l.settle run tables basis counters core⟩
    basis
    instructions
    diagnostics := run.findings tables }

end CycleAccounting
