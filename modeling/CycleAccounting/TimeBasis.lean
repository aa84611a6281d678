import CycleAccounting.Run

/-!
# Time basis

Every core's categories must add up to its cycle budget: the longest elapsed time of any core, in
cycles of that core.  A `TimeBasis` holds the times and the scales that the budgets are made of.
Time that was fast-forwarded is taken out of the times; `fastforwardScale` says by which factor
core 0's time shrank thereby, so that absolute times can be given in full.
-/

namespace CycleAccounting

/-- Times and scales of the cores of a run. -/
structure TimeBasis (α : Type) where
  /-- The elapsed time of each core, without what was fast-forwarded. -/
  times : List α
  /-- The factor from time to cycles, for each core. -/
  scale : List α
  /-- Core 0's elapsed time over the time that is left of it, one without fast-forwarding. -/
  fastforwardScale : α

namespace TimeBasis

variable {α : Type} [Amount α]

/-- The longest elapsed time, at least zero; of several zeros it is the last one. -/
def maxTime (basis : TimeBasis α) : α := basis.times.foldl Amount.larger 0

/-- The cycle budget of a core. -/
def coreCycles (basis : TimeBasis α) (core : Nat) : α :=
  Amount.getAt basis.scale core * basis.maxTime

/-- The budget of core 0, which fractions of time are measured against. -/
def referenceCycles (basis : TimeBasis α) : α := basis.coreCycles 0

/-- The basis without the time that was fast-forwarded.  Nothing is done unless core 0 was
fast-forwarded. -/
def skip (basis : TimeBasis α) (skipped : List α) : TimeBasis α :=
  let first := Amount.getAt skipped 0
  if Amount.equal first 0 then basis
  else
    let before := Amount.getAt basis.times 0
    let after := before - first
    { basis with
      times := basis.times.mapIdx fun core time => time - Amount.getAt skipped core
      fastforwardScale :=
        if Amount.equal after 0 then basis.fastforwardScale else before / after }

/-- The times and scales that a run reports: elapsed time with its scale, or else cycle counts,
which are in cycles already. -/
def reported (run : Run α) : Except RunError (TimeBasis α) :=
  match run.perCore? Stat.elapsedTime, run.perCore? Stat.timeToCycles with
  | some times, some scale => do
    let times ← times
    let scale ← scale
    return ⟨times, scale, Amount.ofNat 1⟩
  | _, _ =>
    match run.perCore? Stat.cycleCount with
    | some cycles => do
      let cycles ← cycles
      return ⟨cycles, List.replicate run.ncores (Amount.ofNat 1), Amount.ofNat 1⟩
    | none => .error .missingTimeBasis

/-- The time basis of a run. -/
def ofRun (run : Run α) : Except RunError (TimeBasis α) := do
  let basis ← reported run
  return match run.counter? Stat.fastforwardedTime with
    | some skipped => basis.skip skipped
    | none => basis

end TimeBasis

end CycleAccounting
