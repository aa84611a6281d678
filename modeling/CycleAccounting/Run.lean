import CycleAccounting.Amount
import CycleAccounting.Catalog
import CycleAccounting.Counter.Role
import CycleAccounting.Decimal.Digits
import CycleAccounting.Text.Blank

/-!
# Runs

A run is what a simulation left behind: configuration entries, among them the number of cores, and
counters, each a list with one value for each core.  The lists may be short; a value that is not
there reads as zero, except in the statistics that accounting cannot do without.
-/

namespace CycleAccounting

/-! ## The names of the run-level statistics -/

namespace Stat

def totalCores : String := "general/total_cores"

def instructionCount : String := "performance_model.instruction_count"

def elapsedTime : String := "performance_model.elapsed_time"

def cycleCount : String := "performance_model.cycle_count"

def idleElapsedTime : String := "performance_model.idle_elapsed_time"

/-- The factor from units of time to cycles. -/
def timeToCycles : String := "fs_to_cycles_cores"

def fastforwardedTime : String := "fastforward_performance_model.fastforwarded_time"

end Stat

/-- Why a run cannot be accounted for. -/
inductive RunError where
  /-- The configuration does not tell the number of cores. -/
  | missingCoreCount
  /-- The number of cores is not a number. -/
  | invalidCoreCount (entry : String)
  | noCores
  /-- A statistic has fewer values than there are cores. -/
  | tooFewValues (counter : String) (carried cores : Nat)
  | missingInstructions
  /-- Neither elapsed time with its scale nor a cycle count is there. -/
  | missingTimeBasis
  /-- No counter is a per-cycle counter. -/
  | missingModel
  deriving DecidableEq, Repr

namespace RunError

/-- What is wrong with the run. -/
def detail : RunError → String
  | missingCoreCount => s!"config is missing '{Stat.totalCores}'"
  | invalidCoreCount entry => s!"'{Stat.totalCores}' is not a core count: '{entry}'"
  | noCores => s!"'{Stat.totalCores}' must be at least 1"
  | tooFewValues counter carried cores => s!"'{counter}' has {carried} values for {cores} cores"
  | missingInstructions => s!"results are missing '{Stat.instructionCount}'"
  | missingTimeBasis =>
    s!"results carry neither '{Stat.elapsedTime}' with '{Stat.timeToCycles}' nor " ++
      s!"'{Stat.cycleCount}'"
  | missingModel =>
    s!"no per-cycle-stat ('{String.ofList Role.perCycleMarker}') counters found, " ++
      "simulation did not use the interval core model"

/-- The message of the error. -/
def message : RunError → String
  | missingModel => missingModel.detail
  | e => s!"incompatible run: {e.detail}"

end RunError

/-- One counter of a run. -/
structure Counter (α : Type) where
  name : String
  values : List α
  role : Role

/-- The value of a counter for one core, zero past the end of its list. -/
def Counter.value {α : Type} [Amount α] (c : Counter α) (core : Nat) : α :=
  Amount.getAt c.values core

/-- A simulation run. -/
structure Run (α : Type) where
  /-- The number of cores. -/
  ncores : Nat
  config : Catalog String
  counters : Catalog (List α)
  ncores_pos : 0 < ncores

namespace Run

variable {α : Type}

/-! ## Building a run -/

/-- A run with the number of cores that its configuration tells. -/
def ofConfig (config : Catalog String) (counters : Catalog (List α)) : Except RunError (Run α) :=
  match config.get? Stat.totalCores with
  | none => .error .missingCoreCount
  | some entry =>
    match Decimal.count? (Text.trim entry.toList) with
    | none => .error (.invalidCoreCount entry)
    | some ncores =>
      if h : 0 < ncores then .ok ⟨ncores, config, counters, h⟩ else .error .noCores

/-- A run with nothing but a number of cores in its configuration. -/
def ofCounters (ncores : Nat) (counters : Catalog (List α)) : Except RunError (Run α) :=
  ofConfig (Catalog.empty.insert Stat.totalCores (toString ncores)) counters

/-! ## Reading a run -/

/-- The values of a counter. -/
def counter? (run : Run α) (name : String) : Option (List α) := run.counters.get? name

/-- The counters with their roles, in name order. -/
def classified (run : Run α) : List (Counter α) :=
  run.counters.toList.map fun (name, values) => ⟨name, values, .ofName name⟩

/-- One value of a counter, zero if the run does not carry it. -/
def value [Amount α] (run : Run α) (name : String) (core : Nat) : α :=
  match run.counter? name with
  | some values => Amount.getAt values core
  | none => 0

/-- The values of a counter that must have one for each core; surplus values are dropped. -/
def perCore? (run : Run α) (name : String) : Option (Except RunError (List α)) :=
  (run.counter? name).map fun values =>
    if values.length < run.ncores then .error (.tooFewValues name values.length run.ncores)
    else .ok (values.take run.ncores)

/-- The instruction count of each core. -/
def instructions (run : Run α) : Except RunError (List α) :=
  (run.perCore? Stat.instructionCount).getD (.error .missingInstructions)

end Run

end CycleAccounting
