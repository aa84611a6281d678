import CycleAccounting.Proofs.Readings
import CycleAccounting.Proofs.Report

/-!
# Cores by themselves

Cores are reconciled next to each other and share one thing, the longest time.  To say so, a core is
taken out of its run (`Run.only`): the run of that core alone carries the same counters, each with
the core's own value.  It reads there what it read before, so it has the same ledger up to the
balance; which findings there are is told by the names; and the presence of statistics, by which
their source is chosen, is the same too.

**`isolated_core`** puts this together.  Without fast-forwarding, which is corrected by the time of
the first core, the imbalances differ by exactly the time that the core waits for the longest one.
-/

namespace CycleAccounting

/-- The run of one core alone: the same counters, each with the core's own value if it has one. -/
def Run.only {α : Type} (run : Run α) (core : ℕ) : Run α where
  ncores := 1
  config := run.config.insert Stat.totalCores "1"
  counters := run.counters.mapValues fun values => (values[core]?).toList
  ncores_pos := Nat.one_pos

/-- The reconciliation of a core alone holds what another holds of the core: the same findings, its
instruction count and its scale, and its ledger except for the imbalance. -/
structure Reconciliation.Isolates {α : Type} (alone r : Reconciliation α) (core : ℕ) : Prop where
  diagnostics : alone.diagnostics = r.diagnostics
  instructions : ∃ count, r.instructions[core]? = some count ∧ alone.instructions = [count]
  scale : ∃ factor, r.basis.scale[core]? = some factor ∧ alone.basis.scale = [factor]
  ledger : ∃ l l', r.books.cores[core]? = some l ∧ alone.books.cores = [l']
    ∧ Catalog.erase l' Category.imbalance = Catalog.erase l Category.imbalance

namespace Run

/-! ## The counters of a core alone -/

section

variable {α : Type} (run : Run α) (core : ℕ)

lemma counter?_only (name : String) :
    (run.only core).counter? name = (run.counter? name).map fun values => (values[core]?).toList :=
  Catalog.get?_mapValues _ run.counters name

lemma findings_only (tables : Tables α) :
    (run.only core).findings tables = run.findings tables := by
  have hfound : (run.only core).classified.filterMap (·.finding? tables)
      = run.classified.filterMap (·.finding? tables) := by
    simp only [classified, only, Catalog.mapValues, List.map_map, List.filterMap_map]
    rfl
  rw [findings, findings, hfound]

lemma perCore?_only_eq_none (name : String) :
    (run.only core).perCore? name = none ↔ run.perCore? name = none := by
  rw [perCore?, perCore?, Option.map_eq_none_iff, Option.map_eq_none_iff, counter?_only,
    Option.map_eq_none_iff]

variable {run core}

/-- A statistic of all cores is the core's own value for the core alone. -/
lemma perCore?_only {name : String} {values : List α} (h : run.perCore? name = some (.ok values))
    (hcore : core < run.ncores) :
    ∃ x, values[core]? = some x ∧ (run.only core).perCore? name = some (.ok [x]) := by
  rw [perCore?, Option.map_eq_some_iff] at h
  obtain ⟨carried, hcarried, h⟩ := h
  split_ifs at h with hshort
  obtain rfl := Except.ok.inj h
  have hlt : core < carried.length := by omega
  have hx : carried[core]? = some carried[core] := List.getElem?_eq_getElem hlt
  refine ⟨carried[core], ?_, ?_⟩
  · rw [List.getElem?_take_of_lt hcore, hx]
  · rw [perCore?, counter?_only, hcarried, Option.map_some, hx]
    rfl

lemma instructions_only {counts : List α} (h : run.instructions = .ok counts)
    (hcore : core < run.ncores) :
    ∃ count, counts[core]? = some count ∧ (run.only core).instructions = .ok [count] := by
  rw [instructions] at h
  cases hstat : run.perCore? Stat.instructionCount with
  | none =>
      rw [hstat] at h
      cases h
  | some carried =>
      rw [hstat, Option.getD_some] at h
      obtain ⟨count, hcount, halone⟩ := perCore?_only (hstat.trans (congrArg some h)) hcore
      refine ⟨count, hcount, ?_⟩
      rw [instructions, halone]
      rfl

end

section

variable {α : Type} [Amount α] (run : Run α) (core : ℕ)

lemma reading?_only (name : String) :
    (run.only core).reading? 0 name = run.reading? core name := by
  rw [reading?, reading?, counter?_only, Option.map_map]
  congr 1
  funext values
  rw [Function.comp_apply, Amount.getAt, Amount.getAt]
  cases values[core]? <;> rfl

/-- **A core alone reads what it reads in its run.** -/
theorem sameReadings_only (tables : Tables α) :
    run.SameReadings tables core (run.only core) 0 where
  booked name _ := (run.reading?_only core name).symm
  mapped name _ := (run.reading?_only core name).symm
  idle := (run.reading?_only core Stat.idleElapsedTime).symm

end

end Run

/-! ## The time basis of a core alone -/

namespace TimeBasis

variable {α : Type} [Amount α] {run : Run α} {basis : TimeBasis α} {core : ℕ}

lemma reported_only (h : reported run = .ok basis) (hcore : core < run.ncores) :
    ∃ time factor, basis.times[core]? = some time ∧ basis.scale[core]? = some factor
      ∧ reported (run.only core) = .ok ⟨[time], [factor], Amount.ofNat 1⟩ := by
  rw [reported] at h
  split at h
  · next htimes hscale =>
    obtain ⟨times, ht, hrest⟩ := bind_eq_ok.1 h
    obtain ⟨scale, hs, hrest⟩ := bind_eq_ok.1 hrest
    obtain rfl := Except.ok.inj hrest
    subst ht hs
    obtain ⟨time, htime, htimes⟩ := Run.perCore?_only htimes hcore
    obtain ⟨factor, hfactor, hscale⟩ := Run.perCore?_only hscale hcore
    refine ⟨time, factor, htime, hfactor, ?_⟩
    rw [reported, htimes, hscale]
    rfl
  · next hnone =>
    split at h
    · next hcycles =>
      obtain ⟨cycles, rfl, h⟩ := bind_eq_ok.1 h
      obtain rfl := Except.ok.inj h
      obtain ⟨time, htime, hcycles⟩ := Run.perCore?_only hcycles hcore
      refine ⟨time, Amount.ofNat 1, htime, List.getElem?_replicate_of_lt hcore, ?_⟩
      rw [reported]
      split
      · next htimes hscale =>
        -- Both statistics are there for the core alone, so they are there for the run.
        have htimes := Option.ne_none_iff_exists'.1
          (mt (run.perCore?_only_eq_none core Stat.elapsedTime).2 (by simp [htimes]))
        have hscale := Option.ne_none_iff_exists'.1
          (mt (run.perCore?_only_eq_none core Stat.timeToCycles).2 (by simp [hscale]))
        obtain ⟨times, htimes⟩ := htimes
        obtain ⟨scale, hscale⟩ := hscale
        exact absurd hscale (hnone times scale htimes)
      · rw [hcycles]
        rfl
    · cases h

lemma ofRun_only (h : ofRun run = .ok basis) (hcore : core < run.ncores) :
    ∃ alone factor, ofRun (run.only core) = .ok alone
      ∧ basis.scale[core]? = some factor ∧ alone.scale = [factor]
      ∧ (¬ run.Carries Stat.fastforwardedTime →
          ∃ time, basis.times[core]? = some time ∧ alone.times = [time]) := by
  rw [ofRun, bind_eq_ok] at h
  obtain ⟨unskipped, hreported, h⟩ := h
  obtain rfl := Except.ok.inj h
  obtain ⟨time, factor, htime, hfactor, halone⟩ := reported_only hreported hcore
  rw [ofRun, halone, run.counter?_only]
  cases hskipped : run.counter? Stat.fastforwardedTime with
  | none => exact ⟨_, factor, rfl, hfactor, rfl, fun _ => ⟨time, htime, rfl⟩⟩
  | some skipped =>
      refine ⟨_, factor, rfl, ?_, ?_, ?_⟩
      · rw [← hfactor]
        exact congrArg (·[core]?) (scale_skip unskipped skipped)
      · exact scale_skip _ _
      · intro hnone
        simp [Run.Carries, hskipped] at hnone

end TimeBasis

/-! ## The reconciliation of a core alone -/

lemma Amount.getAt_of_getElem? {α : Type} [Amount α] {xs : List α} {i : ℕ} {x : α}
    (h : xs[i]? = some x) : Amount.getAt xs i = x := by
  rw [Amount.getAt, h, Option.getD_some]

namespace Run

variable {α : Type} [Amount α] {run : Run α} {tables : Tables α} {r : Reconciliation α} {core : ℕ}

/-- A core alone has its own scale, and without fast-forwarding its own time. -/
lemma basis_only {alone : Reconciliation α} (h : run.reconcile tables = .ok r)
    (hcore : core < run.ncores) (halone : (run.only core).reconcile tables = .ok alone) :
    ∃ factor, r.basis.scale[core]? = some factor ∧ alone.basis.scale = [factor]
      ∧ (¬ run.Carries Stat.fastforwardedTime →
          ∃ time, r.basis.times[core]? = some time ∧ alone.basis.times = [time]) := by
  obtain ⟨-, hbasis, -⟩ := run.reconcile_eq_ok tables h
  obtain ⟨-, hbasis', -⟩ := (run.only core).reconcile_eq_ok tables halone
  obtain ⟨basis, factor, hb, hown⟩ := TimeBasis.ofRun_only hbasis hcore
  obtain rfl := Except.ok.inj (hb.symm.trans hbasis')
  exact ⟨factor, hown⟩

lemma attributedLedger_only {alone : Reconciliation α} (h : run.reconcile tables = .ok r)
    (hcore : core < run.ncores) (halone : (run.only core).reconcile tables = .ok alone) :
    run.attributedLedger tables r.basis core
      = (run.only core).attributedLedger tables alone.basis 0 := by
  obtain ⟨factor, hfactor, hscale, -⟩ := basis_only h hcore halone
  apply (run.sameReadings_only core tables).attributedLedger_congr
  rw [Amount.getAt_of_getElem? hfactor, hscale]
  rfl

/-- A core alone can be reconciled if its run can, and its own part is the same. -/
lemma reconcile_only (h : run.reconcile tables = .ok r) (hcore : core < run.ncores) :
    ∃ alone, (run.only core).reconcile tables = .ok alone ∧ alone.Isolates r core := by
  obtain ⟨hcounts, hbasis, hreported, -, hdiagnostics⟩ := (run.reconcile_eq_ok_iff tables).1 h
  obtain ⟨count, hcount, hcounts⟩ := instructions_only hcounts hcore
  obtain ⟨basis, factor, hbasis, hfactor, hscale, -⟩ := TimeBasis.ofRun_only hbasis hcore
  rw [(run.sameReadings_only core tables).reported_eq] at hreported
  have halone : (run.only core).reconcile tables
      = .ok ⟨⟨[(run.only core).settledLedger tables basis 0]⟩, basis, [count],
          (run.only core).findings tables⟩ :=
    ((run.only core).reconcile_eq_ok_iff tables).2 ⟨hcounts, hbasis, hreported, rfl, rfl⟩
  refine ⟨_, halone, ?_, ⟨count, hcount, rfl⟩, ⟨factor, hfactor, hscale⟩,
    _, _, cores_reconciled h hcore, rfl, ?_⟩
  · rw [hdiagnostics]
    exact run.findings_only core tables
  · rw [settledLedger, settledLedger, Ledger.erase_balance, Ledger.erase_balance,
      attributedLedger_only h hcore halone]

end Run

/-- **Cores are isolated from each other.**  If a run can be reconciled, so can each of its cores
alone, with the same findings, instruction count, scale and ledger except for the imbalance.
Exactly and without fast-forwarding, the imbalances differ by how much longer than this core the
longest one took, in cycles of this core. -/
theorem isolated_core :
    (∀ {α : Type} [Amount α] {run : Run α} {tables : Tables α} {r : Reconciliation α} {core : ℕ},
      run.reconcile tables = .ok r → core < run.ncores →
      ∃ alone, (run.only core).reconcile tables = .ok alone ∧ alone.Isolates r core)
    ∧ ∀ {run : Run ℚ} {tables : Tables ℚ} {r alone : Reconciliation ℚ} {core : ℕ},
      run.reconcile tables = .ok r → core < run.ncores →
      (run.only core).reconcile tables = .ok alone → ¬ run.Carries Stat.fastforwardedTime →
      r.books.amount core Category.imbalance
        = alone.books.amount 0 Category.imbalance
          + Amount.getAt r.basis.scale core
            * (r.basis.times.foldl max 0 - max 0 (Amount.getAt r.basis.times core)) := by
  refine ⟨fun h hcore => Run.reconcile_only h hcore, ?_⟩
  intro run tables r alone core h hcore halone hskipped
  obtain ⟨factor, hfactor, hscale, hunskipped⟩ := Run.basis_only h hcore halone
  obtain ⟨time, htime, htimes⟩ := hunskipped hskipped
  have hbudget : alone.basis.coreCycles 0 = factor * max 0 time := by
    rw [TimeBasis.coreCycles, TimeBasis.maxTime_eq, hscale, htimes]
    rfl
  rw [amount_reconciled h hcore, amount_reconciled halone Nat.one_pos, Run.settledLedger,
    Run.settledLedger, Ledger.amount_balance_imbalance, Ledger.amount_balance_imbalance,
    Run.attributedLedger_only h hcore halone, hbudget, TimeBasis.coreCycles, TimeBasis.maxTime_eq,
    Amount.getAt_of_getElem? hfactor, Amount.getAt_of_getElem? htime]
  ring

/-- The first core took 100 and waited for the second one, which took 120. -/
theorem isolated_contendedRun : ∃ r alone, contendedRun.reconcile branchTables = .ok r
    ∧ 0 < contendedRun.ncores ∧ (contendedRun.only 0).reconcile branchTables = .ok alone
    ∧ alone.Isolates r 0 ∧ ¬ contendedRun.Carries Stat.fastforwardedTime
    ∧ r.books.amount 0 Category.imbalance = alone.books.amount 0 Category.imbalance + 20 := by
  obtain ⟨r, h, hbasis⟩ := reconcile_contendedRun
  have hcore : 0 < contendedRun.ncores := by decide
  have hskipped : ¬ contendedRun.Carries Stat.fastforwardedTime := by decide
  obtain ⟨alone, halone, hisolates⟩ := isolated_core.1 h hcore
  have hwaited : Amount.getAt ([1, 2] : List ℚ) 0
      * (([100, 120] : List ℚ).foldl max 0 - max 0 (Amount.getAt [100, 120] 0)) = 20 := by
    decide +kernel
  refine ⟨r, alone, h, hcore, halone, hisolates, hskipped, ?_⟩
  rw [isolated_core.2 h hcore halone hskipped, hbasis, hwaited]

end CycleAccounting
