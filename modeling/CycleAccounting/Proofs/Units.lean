import CycleAccounting.Proofs.Agreement
import CycleAccounting.Proofs.Scaling
import CycleAccounting.Proofs.Series
import CycleAccounting.Proofs.TimeBasis
import Mathlib.Tactic.FieldSimp

/-!
# The choice of units

A run counts in three units: times and per-cycle counters in one, the scales tell how many cycles
go into it, and cycles, their product, are what the critical path and the coarse details of the
base category are counted in.  Contention at single issue ports is in a unit of its own, since only
its proportions are used.  A `UnitChange` says how many of the new units go into each old one, and
`Run.changeUnits` is the same run in the new units.

Every pass over a ledger takes cycles to cycles, so in the new units it gives the multiple of what
it gave (`Ledger.scaled`); ratios of times, and of cycles to cycles, are the same numbers as before.
**`compute_changeUnits`** concludes that the report of the run in other units is the report of the
run, in other units.
-/

namespace CycleAccounting

/-! ## Changes of units -/

/-- How many new units go into an old one. -/
structure UnitChange where
  /-- Of times, and of what is counted per cycle. -/
  time : ℚ
  /-- Of cycles for each unit of time. -/
  scale : ℚ
  /-- Of contention at single issue ports. -/
  port : ℚ
  /-- Of the cycle counts that stand in for times. -/
  count : ℚ
  time_pos : 0 < time
  scale_pos : 0 < scale
  port_ne_zero : port ≠ 0

namespace UnitChange

variable (u : UnitChange)

/-- New units of cycles for an old one. -/
def cycles : ℚ := u.time * u.scale

lemma cycles_pos : 0 < u.cycles := mul_pos u.time_pos u.scale_pos

/-- The statistics of a run that have units. -/
def statistics : List (String × ℚ) :=
  [(Stat.elapsedTime, u.time), (Stat.idleElapsedTime, u.time), (Stat.fastforwardedTime, u.time),
    (Stat.timeToCycles, u.scale), (Stat.cycleCount, u.count)]

/-- What the values of a counter are multiplied by.  Counters of the critical path are in cycles as
far as the tables name them. -/
def factor (tables : Tables ℚ) (name : String) : Role → ℚ
  | .perCycle _ => u.time
  | .criticalPath => if tables.targets.contains name then u.cycles else 1
  | .detailedBase .. => u.cycles
  | .unitDetail _ => u.port
  | .other => (u.statistics.lookup name).getD 1

/-- What the numbers of a view are multiplied by: fractions of time have no unit. -/
def shown : View → ℚ
  | .cpi => u.cycles
  | .time => 1
  | .absTime => u.time

end UnitChange

/-- The run in other units. -/
def Run.changeUnits (u : UnitChange) (tables : Tables ℚ) (run : Run ℚ) : Run ℚ :=
  { run with
    counters := run.counters.mapNamed fun name values =>
      values.map (u.factor tables name (.ofName name) * ·) }

/-- The time basis in other units.  The factor of fast-forwarding has none. -/
def TimeBasis.changeUnits (u : UnitChange) (basis : TimeBasis ℚ) : TimeBasis ℚ :=
  { basis with
    times := basis.times.map (u.time * ·)
    scale := basis.scale.map (u.scale * ·) }

/-- The reconciliation in other units: the same instruction counts and diagnostics. -/
def Reconciliation.changeUnits (u : UnitChange) (r : Reconciliation ℚ) : Reconciliation ℚ :=
  { r with
    books := r.books.scaled u.cycles
    basis := r.basis.changeUnits u }

/-- The series in other units, in which a shown number is multiplied by a factor. -/
def Series.changeUnits (u : UnitChange) (shown : ℚ) (s : Series ℚ) : Series ℚ :=
  { s with
    stack := s.stack.scaled u.cycles
    values := s.values.map (shown * ·)
    total := shown * s.total }

/-- The report in other units: the same view, names, cores, instruction counts and diagnostics. -/
def Report.changeUnits (u : UnitChange) (report : Report ℚ) : Report ℚ :=
  { report with
    series := report.series.map (·.changeUnits u (u.shown report.view))
    gauge := { report.gauge with basis := report.gauge.basis.changeUnits u } }

/-! ## Counters in other units -/

lemma Amount.getAt_map_mul (c : ℚ) (xs : List ℚ) (i : ℕ) :
    Amount.getAt (xs.map (c * ·)) i = c * Amount.getAt xs i := by
  rw [Amount.getAt, List.getElem?_map, Amount.getAt]
  cases xs[i]? with
  | none => exact (mul_zero c).symm
  | some x => rfl

namespace Counter

variable (u : UnitChange) (tables : Tables ℚ) (c : Counter ℚ) (core : ℕ)

/-- The counter in other units. -/
def changeUnits : Counter ℚ :=
  { c with values := c.values.map (u.factor tables c.name c.role * ·) }

lemma value_changeUnits :
    (c.changeUnits u tables).value core = u.factor tables c.name c.role * c.value core :=
  Amount.getAt_map_mul _ c.values core

/-- What is counted per cycle, times its scale, is in cycles. -/
lemma bookPerCycle_changeUnits (scale : ℚ) (l : Ledger ℚ) :
    (c.changeUnits u tables).bookPerCycle core (u.scale * scale) (l.scaled u.cycles)
      = (c.bookPerCycle core scale l).scaled u.cycles := by
  have hrole : (c.changeUnits u tables).role = c.role := rfl
  rw [bookPerCycle, bookPerCycle, value_changeUnits, hrole]
  cases c.role with
  | perCycle category =>
      dsimp only [UnitChange.factor]
      rw [Ledger.scaled_book, mul_mul_mul_comm]
      rfl
  | _ => rfl

/-- The units of the ports are the same for all shares. -/
lemma sum_shares_changeUnits (unit : FunctionalUnit) :
    ((c.changeUnits u tables).shares core unit).sum = u.port * (c.shares core unit).sum := by
  have hunits : (c.changeUnits u tables).units? = c.units? := rfl
  cases hknown : c.units? with
  | none => simp [shares, hunits, hknown]
  | some units =>
      have hfactor : u.factor tables c.name c.role = u.port := by
        rw [units?] at hknown
        cases hrole : c.role with
        | unitDetail labels => rfl
        | _ => simp [hrole] at hknown
      rw [sum_shares_of_units (hunits.trans hknown), sum_shares_of_units hknown, value_changeUnits,
        hfactor]
      ring

end Counter

section Contention

variable (u : UnitChange) (tables : Tables ℚ) (counters : List (Counter ℚ)) (core : ℕ)

/-- Counters of some roles that are in one unit add up in that unit. -/
lemma sum_filter_changeUnits {p : Counter ℚ → Bool} {factor : ℚ}
    (hrole : ∀ c : Counter ℚ, p (c.changeUnits u tables) = p c)
    (hfactor : ∀ c : Counter ℚ, p c = true → u.factor tables c.name c.role = factor) :
    ((((counters.map (·.changeUnits u tables)).filter p).map (·.value core)).sum : ℚ)
      = factor * ((counters.filter p).map (·.value core)).sum := by
  have hp : p ∘ (·.changeUnits u tables) = p := funext hrole
  rw [List.filter_map, hp, List.map_map, ← List.sum_map_mul_left]
  refine congrArg List.sum (List.map_congr_left ?_)
  intro c hc
  rw [Function.comp_apply, Counter.value_changeUnits, hfactor c (List.of_mem_filter hc)]

lemma coarseContention_changeUnits :
    coarseContention (counters.map (·.changeUnits u tables)) core
      = u.cycles * coarseContention counters core := by
  rw [coarseContention, coarseContention, Amount.sum_eq, Amount.sum_eq]
  refine sum_filter_changeUnits u tables counters core (fun _ => rfl) ?_
  intro c hcoarse
  rw [Counter.isCoarse] at hcoarse
  cases hrole : c.role with
  | detailedBase => rfl
  | _ => simp [hrole] at hcoarse

lemma unitBucket_changeUnits (unit : FunctionalUnit) :
    unitBucket (counters.map (·.changeUnits u tables)) core unit
      = u.port * unitBucket counters core unit := by
  simp only [unitBucket_eq, List.map_map, ← List.sum_map_mul_left]
  refine congrArg List.sum (List.map_congr_left ?_)
  intro c _
  exact c.sum_shares_changeUnits u tables core unit

lemma fineContention_changeUnits :
    fineContention (counters.map (·.changeUnits u tables)) core
      = u.port * fineContention counters core := by
  rw [fineContention, fineContention, Amount.sum_eq, Amount.sum_eq, ← List.sum_map_mul_left]
  refine congrArg List.sum (List.map_congr_left ?_)
  intro unit _
  exact unitBucket_changeUnits u tables counters core unit

namespace Ledger

variable (l : Ledger ℚ)

/-- Only the proportions of the buckets count, so their unit cancels. -/
lemma attributeUnits_changeUnits :
    (l.scaled u.cycles).attributeUnits (counters.map (·.changeUnits u tables)) core
      = (l.attributeUnits counters core).scaled u.cycles := by
  have hshare (x y bucket : ℚ) :
      u.cycles * x / (u.port * y) * (u.port * bucket) = u.cycles * (x / y * bucket) := by
    have hport := u.port_ne_zero
    field_simp
  -- The factor for the buckets is in cycles for each unit of the ports, and turns them into cycles.
  rw [attributeUnits, attributeUnits, coarseContention_changeUnits, fineContention_changeUnits,
    ← scaled_deduct]
  simp only [unitBucket_changeUnits, Amount.ratio_eq, hshare]
  refine List.foldl_hom (scaled u.cycles) ?_
  intro l unit
  exact (scaled_insert u.cycles l unit.category _).symm

lemma attributeDispatchWidth_changeUnits :
    (l.scaled u.cycles).attributeDispatchWidth (counters.map (·.changeUnits u tables)) core
      = (l.attributeDispatchWidth counters core).scaled u.cycles := by
  have hempty : ((counters.map (·.changeUnits u tables)).filter Counter.isDispatchWidth).isEmpty
      = (counters.filter Counter.isDispatchWidth).isEmpty := by
    rw [List.filter_map, List.isEmpty_map]
    rfl
  have hstalls : (((counters.map (·.changeUnits u tables)).filter Counter.isDispatchWidth).map
        (·.value core)).sum
      = u.cycles * ((counters.filter Counter.isDispatchWidth).map (·.value core)).sum := by
    refine sum_filter_changeUnits u tables counters core (fun _ => rfl) ?_
    intro c hc
    rw [(isDispatchWidth_iff c).1 hc]
    rfl
  rw [attributeDispatchWidth, attributeDispatchWidth, hempty]
  split_ifs
  · rfl
  · rw [← List.sum_eq_foldl, ← List.sum_eq_foldl, hstalls, scaled_moveFromBase]

end Ledger

end Contention

/-! ## Runs in other units -/

namespace Run

variable (u : UnitChange) (tables : Tables ℚ) (run : Run ℚ)

lemma counter?_changeUnits (name : String) :
    (run.changeUnits u tables).counter? name
      = (run.counter? name).map (·.map (u.factor tables name (.ofName name) * ·)) :=
  Catalog.get?_mapNamed _ run.counters name

lemma carries_changeUnits (name : String) :
    (run.changeUnits u tables).Carries name ↔ run.Carries name := by
  rw [Carries, counter?_changeUnits, Option.isSome_map, Carries]

lemma value_changeUnits (name : String) (core : ℕ) :
    (run.changeUnits u tables).value name core
      = u.factor tables name (.ofName name) * run.value name core := by
  rw [value, counter?_changeUnits, value]
  cases run.counter? name with
  | none => exact (mul_zero _).symm
  | some values => exact Amount.getAt_map_mul _ values core

lemma classified_changeUnits :
    (run.changeUnits u tables).classified = run.classified.map (·.changeUnits u tables) := by
  rw [classified, changeUnits, Catalog.mapNamed, List.map_map, classified, List.map_map]
  rfl

lemma reported_changeUnits : (run.changeUnits u tables).reported = run.reported := by
  rw [reported, classified_changeUnits, List.filterMap_map]
  rfl

lemma findings_changeUnits :
    (run.changeUnits u tables).findings tables = run.findings tables := by
  rw [findings, classified_changeUnits, List.filterMap_map]
  rfl

/-- A statistic is refused in any units or in none. -/
lemma perCore?_changeUnits (name : String) :
    (run.changeUnits u tables).perCore? name
      = (run.perCore? name).map (·.map (·.map (u.factor tables name (.ofName name) * ·))) := by
  rw [perCore?, counter?_changeUnits, perCore?, Option.map_map, Option.map_map]
  congr 1
  funext values
  simp only [Function.comp_apply, List.length_map, ← List.map_take]
  change (if values.length < run.ncores then _ else _) = _
  split_ifs <;> rfl

/-! ### Statistics -/

/-- Statistics have no role, so their units are told by a table. -/
lemma factor_stat {stat : String} (h : Role.ofName stat = .other) :
    u.factor tables stat (.ofName stat) = (u.statistics.lookup stat).getD 1 := by
  rw [h]
  rfl

lemma instructions_changeUnits : (run.changeUnits u tables).instructions = run.instructions := by
  have hfactor : u.factor tables Stat.instructionCount (.ofName Stat.instructionCount) = 1 :=
    factor_stat u tables (by decide +kernel)
  rw [instructions, perCore?_changeUnits, hfactor, instructions]
  cases run.perCore? Stat.instructionCount with
  | none => rfl
  | some outcome => cases outcome <;> simp [Except.map]

end Run

/-! ## The time basis in other units -/

/-- Cycle counts are times if no elapsed times are reported, and then their scales are one. -/
def UnitChange.FitsTimes (u : UnitChange) (run : Run ℚ) : Prop :=
  run.ReportsTime ∨ u.scale = 1 ∧ u.count = u.time

namespace TimeBasis

variable (u : UnitChange) (tables : Tables ℚ) (basis : TimeBasis ℚ)

lemma maxTime_changeUnits : (basis.changeUnits u).maxTime = u.time * basis.maxTime := by
  have hfold : (basis.times.map (u.time * ·)).foldl max (u.time * 0)
      = u.time * basis.times.foldl max 0 := by
    rw [List.foldl_map]
    refine List.foldl_hom (u.time * ·) ?_
    intro x y
    exact (mul_max_of_nonneg x y u.time_pos.le).symm
  rw [mul_zero] at hfold
  rw [maxTime_eq, maxTime_eq]
  exact hfold

lemma coreCycles_changeUnits (core : ℕ) :
    (basis.changeUnits u).coreCycles core = u.cycles * basis.coreCycles core := by
  rw [coreCycles, maxTime_changeUnits, changeUnits, Amount.getAt_map_mul, coreCycles,
    UnitChange.cycles]
  ring

lemma skip_changeUnits (skipped : List ℚ) :
    (basis.changeUnits u).skip (skipped.map (u.time * ·)) = (basis.skip skipped).changeUnits u := by
  have htime := u.time_pos.ne'
  have hzero (x : ℚ) : Amount.equal (u.time * x) 0 = Amount.equal x 0 := by
    rw [Bool.eq_iff_iff, Amount.equal_iff, Amount.equal_iff]
    exact mul_eq_zero_iff_left htime
  have htimes : (basis.times.map (u.time * ·)).mapIdx (fun core time =>
        time - u.time * Amount.getAt skipped core)
      = (basis.times.mapIdx fun core time => time - Amount.getAt skipped core).map
          (u.time * ·) := by
    refine List.ext_getElem (by simp) ?_
    intro core _ _
    simp only [List.getElem_mapIdx, List.getElem_map, mul_sub]
  rw [skip, skip, changeUnits]
  simp only [Amount.getAt_map_mul, ← mul_sub, hzero, mul_div_mul_left _ _ htime, htimes]
  split_ifs <;> rfl

variable {u} {run : Run ℚ}

lemma reported_changeUnits (h : u.FitsTimes run) :
    reported (run.changeUnits u tables) = (reported run).map (·.changeUnits u) := by
  have helapsed : u.factor tables Stat.elapsedTime (.ofName Stat.elapsedTime) = u.time :=
    Run.factor_stat u tables (by decide +kernel)
  have hscale : u.factor tables Stat.timeToCycles (.ofName Stat.timeToCycles) = u.scale :=
    Run.factor_stat u tables (by decide +kernel)
  have hcount : u.factor tables Stat.cycleCount (.ofName Stat.cycleCount) = u.count :=
    Run.factor_stat u tables (by decide +kernel)
  by_cases htime : run.ReportsTime
  · obtain ⟨times, scale, htimes, hscales, hreported⟩ := reported_of_reportsTime htime
    rw [hreported, reported, Run.perCore?_changeUnits, Run.perCore?_changeUnits, htimes, hscales,
      helapsed, hscale]
    cases times with
    | error e => rfl
    | ok times => cases scale <;> rfl
  · obtain ⟨hone, hsame⟩ := h.resolve_left htime
    have htime' : ¬ (run.changeUnits u tables).ReportsTime := by
      rwa [Run.ReportsTime, Run.carries_changeUnits, Run.carries_changeUnits]
    rw [reported_of_not_reportsTime htime', reported_of_not_reportsTime htime,
      Run.perCore?_changeUnits, hcount, hsame]
    cases run.perCore? Stat.cycleCount with
    | none => rfl
    | some cycles =>
        cases cycles with
        | error e => rfl
        | ok cycles =>
            refine congrArg Except.ok ?_
            simp only [changeUnits, hone, one_mul, List.map_id']
            rfl

lemma ofRun_changeUnits (h : u.FitsTimes run) :
    ofRun (run.changeUnits u tables) = (ofRun run).map (·.changeUnits u) := by
  have hskipped :
      u.factor tables Stat.fastforwardedTime (.ofName Stat.fastforwardedTime) = u.time :=
    Run.factor_stat u tables (by decide +kernel)
  rw [ofRun, ofRun, reported_changeUnits tables h, Run.counter?_changeUnits, hskipped]
  cases reported run with
  | error e => rfl
  | ok basis =>
      cases run.counter? Stat.fastforwardedTime with
      | none => rfl
      | some skipped => exact congrArg Except.ok (basis.skip_changeUnits u skipped)

end TimeBasis

/-! ## Ledgers in other units -/

namespace Run

variable (u : UnitChange) (tables : Tables ℚ) (run : Run ℚ) (core : ℕ)

lemma ofPerCycle_changeUnits (scale : ℚ) :
    Ledger.ofPerCycle (run.changeUnits u tables).classified core (u.scale * scale)
      = (Ledger.ofPerCycle run.classified core scale).scaled u.cycles := by
  have hfold (l : Ledger ℚ) : run.classified.foldl
        (fun l c => (c.changeUnits u tables).bookPerCycle core (u.scale * scale) l)
        (l.scaled u.cycles)
      = (run.classified.foldl (fun l c => c.bookPerCycle core scale l) l).scaled u.cycles := by
    refine List.foldl_hom (Ledger.scaled u.cycles) ?_
    intro l c
    exact c.bookPerCycle_changeUnits u tables core scale l
  rw [Ledger.ofPerCycle, classified_changeUnits, List.foldl_map]
  exact hfold .empty

/-- An idle time is as long as the synchronization that explains it, in any units. -/
lemma bookStart_changeUnits (scale : ℚ) (l : Ledger ℚ) :
    (l.scaled u.cycles).bookStart (run.changeUnits u tables) core (u.scale * scale)
      = (l.bookStart run core scale).scaled u.cycles := by
  have hidle : u.factor tables Stat.idleElapsedTime (.ofName Stat.idleElapsedTime) = u.time :=
    factor_stat u tables (by decide +kernel)
  have hcarried : ((run.changeUnits u tables).counter? Stat.idleElapsedTime).isNone
      = (run.counter? Stat.idleElapsedTime).isNone := by
    rw [counter?_changeUnits, Option.isNone_map]
  have hstart (idle : ℚ) : (l.scaled u.cycles).reconstructedStart (u.scale * scale) (u.time * idle)
      = u.cycles * l.reconstructedStart scale idle := by
    simp only [Ledger.reconstructedStart, Ledger.amount_scaled, UnitChange.cycles]
    ring
  rw [Ledger.bookStart, Ledger.bookStart, Ledger.contains_scaled, hcarried, value_changeUnits,
    hidle, hstart]
  split_ifs
  · rfl
  · exact (Ledger.scaled_insert _ _ _ _).symm

variable {tables}

/-- The contributions that the tables name are in cycles. -/
lemma contributions_changeUnits
    (htables : ∀ name ∈ tables.targets.names, Role.criticalPathStart <+: name.toList) :
    (run.changeUnits u tables).contributions tables core
      = (run.contributions tables core).map fun b => (b.1, u.cycles * b.2) := by
  rw [contributions, contributions, List.map_map]
  simp only [carries_changeUnits]
  refine List.map_congr_left ?_
  intro b hb
  have hname : b.1 ∈ tables.targets.names := List.mem_map_of_mem (List.mem_of_mem_filter hb)
  have hfactor : u.factor tables b.1 (.ofName b.1) = u.cycles := by
    rw [Role.ofName_eq_criticalPath (htables b.1 hname)]
    exact if_pos ((Catalog.mem_names_iff _ _).1 hname)
  rw [value_changeUnits, hfactor, mul_div_assoc]
  rfl

lemma attributeCriticalPath_changeUnits
    (htables : ∀ name ∈ tables.targets.names, Role.criticalPathStart <+: name.toList)
    (l : Ledger ℚ) :
    (l.scaled u.cycles).attributeCriticalPath (run.changeUnits u tables) tables core
      = (l.attributeCriticalPath run tables core).scaled u.cycles := by
  rw [Ledger.attributeCriticalPath_eq, contributions_changeUnits u run core htables,
    List.foldl_map, Ledger.attributeCriticalPath_eq]
  refine List.foldl_hom (Ledger.scaled u.cycles) ?_
  intro l b
  exact (l.scaled_moveFromBase u.cycles b.1 b.2).symm

/-- **A ledger in other units is the multiple of the ledger.** -/
theorem settledLedger_changeUnits
    (htables : ∀ name ∈ tables.targets.names, Role.criticalPathStart <+: name.toList)
    (basis : TimeBasis ℚ) :
    (run.changeUnits u tables).settledLedger tables (basis.changeUnits u) core
      = (run.settledLedger tables basis core).scaled u.cycles := by
  have hscale : Amount.getAt (basis.changeUnits u).scale core
      = u.scale * Amount.getAt basis.scale core := Amount.getAt_map_mul _ _ _
  -- That an amount is a copy of another is seen in cycles, before anything is attributed.
  have hcorrected : (run.changeUnits u tables).correctedLedger (basis.changeUnits u) core
      = (run.correctedLedger basis core).scaled u.cycles := by
    rw [correctedLedger, hscale, ofPerCycle_changeUnits,
      ← Ledger.scaled_clearCopiedMemAccess _ _ u.cycles_pos.ne', bookStart_changeUnits,
      correctedLedger]
  rw [settledLedger, attributedLedger, hcorrected, attributeCriticalPath_changeUnits u run core
    htables, classified_changeUnits, Ledger.attributeUnits_changeUnits,
    Ledger.attributeDispatchWidth_changeUnits, basis.coreCycles_changeUnits,
    ← Ledger.scaled_balance, settledLedger, attributedLedger]

/-- A run is refused in any units or in none, with the same error. -/
theorem reconcile_changeUnits
    (htables : ∀ name ∈ tables.targets.names, Role.criticalPathStart <+: name.toList)
    (h : u.FitsTimes run) :
    (run.changeUnits u tables).reconcile tables
      = (run.reconcile tables).map (·.changeUnits u) := by
  rw [reconcile_eq, reconcile_eq, instructions_changeUnits, TimeBasis.ofRun_changeUnits tables h,
    reported_changeUnits]
  cases run.instructions with
  | error e => rfl
  | ok instructions =>
      cases TimeBasis.ofRun run with
      | error e => rfl
      | ok basis =>
          have hledgers : (List.range (run.changeUnits u tables).ncores).map
                ((run.changeUnits u tables).settledLedger tables (basis.changeUnits u))
              = ((List.range run.ncores).map (run.settledLedger tables basis)).map
                  (Ledger.scaled u.cycles) := by
            rw [List.map_map]
            exact List.map_congr_left fun core _ =>
              run.settledLedger_changeUnits u core htables basis
          simp only [bind, Except.bind, Except.map, hledgers, findings_changeUnits]
          split_ifs <;> rfl

end Run

/-! ## Reports in other units -/

/-- In every view the number for a multiple of the cycles is a multiple of the number. -/
lemma Gauge.project_changeUnits (u : UnitChange) (basis : TimeBasis ℚ) (instructions : List ℚ)
    (view : View) (cycles : ℚ) (core : ℕ) :
    (⟨basis.changeUnits u, instructions⟩ : Gauge ℚ).project view (u.cycles * cycles) core
      = u.shown view * (⟨basis, instructions⟩ : Gauge ℚ).project view cycles core := by
  cases view with
  | cpi =>
      simp only [project, rate, Amount.ratio_eq, UnitChange.shown]
      exact mul_div_assoc _ _ _
  | time =>
      simp only [project, fraction, Amount.ratio_eq, UnitChange.shown, one_mul,
        TimeBasis.referenceCycles, basis.coreCycles_changeUnits]
      exact mul_div_mul_left _ _ u.cycles_pos.ne'
  | absTime =>
      have hscale : Amount.getAt (basis.changeUnits u).scale 0
          = u.scale * Amount.getAt basis.scale 0 := Amount.getAt_map_mul _ _ _
      have htime : u.cycles * cycles / (u.scale * Amount.getAt basis.scale 0)
          = u.time * (cycles / Amount.getAt basis.scale 0) := by
        rw [UnitChange.cycles, mul_comm u.time, mul_assoc, mul_div_mul_left _ _ u.scale_pos.ne',
          mul_div_assoc]
      simp only [project, seconds, Amount.ratio_eq, UnitChange.shown, hscale, htime]
      rw [TimeBasis.changeUnits]
      ring

namespace Tree

lemma shownNames_scaled (tree : Tree ℚ) (c : ℚ) (among : List (Stack ℚ)) :
    tree.shownNames (among.map (Stack.scaled c)) = tree.shownNames among := by
  rw [shownNames, List.flatMap_map]
  simp only [Stack.names_scaled]
  rfl

lemma unusedKeys_scaled (tree : Tree ℚ) (c : ℚ) (books : Books ℚ) :
    tree.unusedKeys (books.scaled c) = tree.unusedKeys books := by
  rw [unusedKeys, unread, Books.categories_scaled, unusedKeys, unread]

end Tree

section Reports

variable (u : UnitChange) (r : Reconciliation ℚ) (ncores : ℕ) (tree : Tree ℚ)
  (options : Options ℚ)

/-- The same cores are selected, and the same count in the summary. -/
lemma Reconciliation.select_changeUnits :
    (r.changeUnits u).select ncores options
      = { r.select ncores options with
          books := (r.select ncores options).books.scaled u.cycles } := by
  have hsummary (cores : List ℕ) :
      (r.changeUnits u).books.summaryCores cores (r.changeUnits u).basis.referenceCycles
          options.minComputeFraction
        = r.books.summaryCores cores r.basis.referenceCycles options.minComputeFraction := by
    have hbudget : (r.changeUnits u).basis.referenceCycles
        = u.cycles * r.basis.referenceCycles := r.basis.coreCycles_changeUnits u 0
    rw [hbudget]
    exact r.books.summaryCores_scaled u.cycles_pos.ne' _ _ _
  rw [select, select, hsummary]
  dsimp only
  split_ifs
  · rw [meanCore, meanCore, Books.scaled_meanOver]
    rfl
  · rfl

namespace Report

lemma stack_seriesAt_changeUnits (core : ℕ) :
    (seriesAt (r.changeUnits u) ncores tree options core).stack
      = (seriesAt r ncores tree options core).stack.scaled u.cycles := by
  rw [seriesAt, r.select_changeUnits]
  exact tree.stackOf_scaled u.cycles_pos _ _ core

lemma names_changeUnits : (ofReconciliation (r.changeUnits u) ncores tree options).names
    = (ofReconciliation r ncores tree options).names := by
  have hstacks : (ofReconciliation (r.changeUnits u) ncores tree options).series.map (·.stack)
      = ((ofReconciliation r ncores tree options).series.map (·.stack)).map
          (Stack.scaled u.cycles) := by
    rw [series_ofReconciliation, series_ofReconciliation, r.select_changeUnits]
    simp only [List.map_map]
    refine List.map_congr_left ?_
    intro core _
    exact stack_seriesAt_changeUnits u r ncores tree options core
  rw [names_ofReconciliation, hstacks, tree.shownNames_scaled, names_ofReconciliation]

lemma gauge_changeUnits : (ofReconciliation (r.changeUnits u) ncores tree options).gauge
    = { (ofReconciliation r ncores tree options).gauge with basis := r.basis.changeUnits u } := by
  rw [ofReconciliation, r.select_changeUnits]
  rfl

lemma seriesAt_changeUnits (core : ℕ) :
    seriesAt (r.changeUnits u) ncores tree options core
      = (seriesAt r ncores tree options core).changeUnits u (u.shown options.view) := by
  have hstack := stack_seriesAt_changeUnits u r ncores tree options core
  have hproject {cycles cycles' : ℚ} (h : cycles' = u.cycles * cycles) :
      (ofReconciliation (r.changeUnits u) ncores tree options).gauge.project options.view
          cycles' core
        = u.shown options.view
          * (ofReconciliation r ncores tree options).gauge.project options.view cycles core := by
    rw [h, gauge_changeUnits]
    exact Gauge.project_changeUnits u r.basis _ options.view cycles core
  have hentry (name : String) :
      ((seriesAt (r.changeUnits u) ncores tree options core).stack.get? name).getD 0
        = u.cycles * ((seriesAt r ncores tree options core).stack.get? name).getD 0 := by
    rw [hstack, Stack.get?_scaled]
    cases (seriesAt r ncores tree options core).stack.get? name with
    | none => exact (mul_zero _).symm
    | some cycles => rfl
  have hvalues : (seriesAt (r.changeUnits u) ncores tree options core).values
      = (seriesAt r ncores tree options core).values.map (u.shown options.view * ·) := by
    rw [seriesAt, seriesAt, names_changeUnits, List.map_map]
    refine List.map_congr_left ?_
    intro name _
    exact hproject (hentry name)
  have htotal : (seriesAt (r.changeUnits u) ncores tree options core).total
      = u.shown options.view * (seriesAt r ncores tree options core).total :=
    hproject (congrArg Stack.total hstack)
  exact Series.ext rfl hstack hvalues htotal

/-- **The report of a reconciliation in other units is the report in other units.** -/
theorem ofReconciliation_changeUnits :
    ofReconciliation (r.changeUnits u) ncores tree options
      = (ofReconciliation r ncores tree options).changeUnits u := by
  have hselect := r.select_changeUnits u ncores options
  have hseries : (ofReconciliation (r.changeUnits u) ncores tree options).series
      = (ofReconciliation r ncores tree options).series.map
          (·.changeUnits u (u.shown options.view)) := by
    rw [series_ofReconciliation, series_ofReconciliation, hselect, List.map_map]
    refine List.map_congr_left ?_
    intro core _
    exact seriesAt_changeUnits u r ncores tree options core
  have hsummary : (ofReconciliation (r.changeUnits u) ncores tree options).summaryCores
      = (ofReconciliation r ncores tree options).summaryCores := by
    rw [ofReconciliation, hselect]
    rfl
  have hdiagnostics : (ofReconciliation (r.changeUnits u) ncores tree options).diagnostics
      = (ofReconciliation r ncores tree options).diagnostics :=
    congrArg (r.diagnostics ++ ·) (tree.unusedKeys_scaled u.cycles r.books)
  exact Report.ext rfl (names_changeUnits u r ncores tree options) hseries hsummary rfl
    (gauge_changeUnits u r ncores tree options) hdiagnostics

end Report

end Reports

/-- **The choice of units is irrelevant.**  In other units a run is refused with the same error, or
has the report in other units: cycles are multiplied by their factor under the same names, fractions
of time are the same, cycles per instruction are multiplied like cycles and seconds like times.  The
names, the cores of the summary, the instruction counts, the factor of fast-forwarding and the
diagnostics stay as they are.  All that is asked of the tables is that they name counters of the
critical path. -/
theorem compute_changeUnits {u : UnitChange} {tables : Tables ℚ} {run : Run ℚ}
    (htables : ∀ name ∈ tables.targets.names, Role.criticalPathStart <+: name.toList)
    (h : u.FitsTimes run) (tree : Tree ℚ) (options : Options ℚ) :
    Report.compute tables (run.changeUnits u tables) tree options
      = (Report.compute tables run tree options).map (·.changeUnits u) :=
  Report.compute_eq_map rfl rfl (run.reconcile_changeUnits u htables h) fun r =>
    Report.ofReconciliation_changeUnits u r run.ncores tree options

/-- Units of which two, three, minus five and seven go into the old ones. -/
def smallUnits : UnitChange where
  time := 2
  scale := 3
  port := -5
  count := 7
  time_pos := by decide +kernel
  scale_pos := by decide +kernel
  port_ne_zero := by decide +kernel

/-- Quarters of cycles, in the place of times. -/
def quarterCycles : UnitChange where
  time := 4
  scale := 1
  port := 1
  count := 4
  time_pos := by decide +kernel
  scale_pos := by decide +kernel
  port_ne_zero := by decide +kernel

/-- A run with elapsed times, contention and a counter of the critical path. -/
def contendedStores : Run ℚ :=
  contendedRun.setCounter "interval_timer.cpContr_store" [200, 300]

/-- Cycles per instruction of a run with elapsed times, and seconds of one with cycle counts. -/
theorem changeUnits_storeTables :
    (∀ name ∈ storeTables.targets.names, Role.criticalPathStart <+: name.toList)
      ∧ (∃ report : Report ℚ,
        smallUnits.FitsTimes contendedStores
          ∧ Report.compute storeTables (contendedStores.changeUnits smallUnits storeTables)
              contendedTree { unfiltered false with view := .cpi } = .ok report
          ∧ report.series.map (fun s => (s.stack.total, s.total))
            = [(6 * 42, 6 * (7 / 5)), (6 * 69, 6 * (23 / 20))])
      ∧ ∃ report : Report ℚ,
        quarterCycles.FitsTimes storingRun
          ∧ Report.compute storeTables (storingRun.changeUnits quarterCycles storeTables)
              contendedTree { unfiltered false with view := .absTime } = .ok report
          ∧ report.series.map (fun s => (s.stack.total, s.total))
            = [(4 * 48, 4 * (48 / 10 ^ 15)), (4 * 37, 4 * (37 / 10 ^ 15))] := by
  have htables : ∀ name ∈ storeTables.targets.names, Role.criticalPathStart <+: name.toList := by
    decide +kernel
  refine ⟨htables, ?_, ?_⟩
  · have hfits : smallUnits.FitsTimes contendedStores := .inl (by decide +kernel)
    obtain ⟨report, hreport, hseries⟩ : ∃ report, Report.compute storeTables contendedStores
          contendedTree { unfiltered false with view := .cpi } = .ok report
        ∧ (report.changeUnits smallUnits).series.map (fun s => (s.stack.total, s.total))
          = [(6 * 42, 6 * (7 / 5)), (6 * 69, 6 * (23 / 20))] := ⟨_, rfl, by decide +kernel⟩
    refine ⟨_, hfits, ?_, hseries⟩
    rw [compute_changeUnits htables hfits, hreport]
    rfl
  · have hfits : quarterCycles.FitsTimes storingRun := .inr ⟨rfl, rfl⟩
    obtain ⟨report, hreport, hseries⟩ : ∃ report, Report.compute storeTables storingRun
          contendedTree { unfiltered false with view := .absTime } = .ok report
        ∧ (report.changeUnits quarterCycles).series.map (fun s => (s.stack.total, s.total))
          = [(4 * 48, 4 * (48 / 10 ^ 15)), (4 * 37, 4 * (37 / 10 ^ 15))] :=
      ⟨_, rfl, by decide +kernel⟩
    refine ⟨_, hfits, ?_, hseries⟩
    rw [compute_changeUnits htables hfits, hreport]
    rfl

end CycleAccounting
