import CycleAccounting.Proofs.Requirement
import CycleAccounting.Proofs.Series
import CycleAccounting.Proofs.TimeBasis

/-!
# Time that was fast-forwarded

Time that was fast-forwarded is taken out of the time of every core, and what is left makes the
budgets.  It is put back in one place only, where cycles are shown in seconds, and there as a factor
that comes from core 0.  Exactly this is no loss on core 0 itself: the factor times what is left of
core 0's time is the time that the run tells (`TimeBasis.fastforwardScale_mul`), unless nothing is
left of it.

**`fastforwarded_ofRun`** says what a time basis holds, and that the seconds of core 0 are all of
its time if it took longest.
-/

namespace CycleAccounting

/-! ## The times of a run -/

namespace Run

variable {α : Type}

/-- The statistic that tells the times of the cores: elapsed times, or else cycle counts. -/
def timeStat (run : Run α) : String :=
  if run.ReportsTime then Stat.elapsedTime else Stat.cycleCount

variable [Amount α] (run : Run α)

/-- The time of a core as the run tells it. -/
def reportedTime (core : ℕ) : α := run.value run.timeStat core

/-- How much of a core's time was fast-forwarded, zero if the run does not tell. -/
def skippedTime (core : ℕ) : α := run.value Stat.fastforwardedTime core

variable {run}

lemma value_eq_getAt {name : String} {values : List α} (h : run.counter? name = some values) :
    run.value name = Amount.getAt values := by
  funext core
  rw [value, h]

/-- A statistic of all cores lists the values of the cores. -/
lemma perCore?_eq_map {name : String} {values : List α}
    (h : run.perCore? name = some (.ok values)) :
    values = (List.range run.ncores).map (run.value name) := by
  obtain ⟨carried, hcarried, hlength, rfl⟩ := perCore?_eq_ok h
  refine List.ext_getElem (by simpa using hlength) ?_
  intro core _ hcore
  rw [List.length_map, List.length_range] at hcore
  rw [List.getElem_take, List.getElem_map, List.getElem_range, value_eq_getAt hcarried,
    Amount.getAt, List.getElem?_eq_getElem (hcore.trans_le hlength)]
  rfl

end Run

namespace TimeBasis

/-- What a run reports is its times, and nothing of them is fast-forwarded yet. -/
lemma times_reported {α : Type} [Amount α] {run : Run α} {basis : TimeBasis α}
    (h : reported run = .ok basis) :
    basis.times = (List.range run.ncores).map run.reportedTime
      ∧ basis.fastforwardScale = Amount.ofNat 1 := by
  by_cases htime : run.ReportsTime
  · obtain ⟨times, scale, htimes, -, hreported⟩ := reported_of_reportsTime htime
    rw [hreported] at h
    obtain ⟨times, rfl, hrest⟩ := bind_eq_ok.1 h
    obtain ⟨scale, -, hrest⟩ := bind_eq_ok.1 hrest
    obtain rfl := Except.ok.inj hrest
    have hstat : run.timeStat = Stat.elapsedTime := if_pos htime
    refine ⟨?_, rfl⟩
    rw [Run.perCore?_eq_map htimes, ← hstat]
    rfl
  · rw [reported_of_not_reportsTime htime] at h
    have hstat : run.timeStat = Stat.cycleCount := if_neg htime
    split at h
    · next hcycles =>
      obtain ⟨cycles, rfl, h⟩ := bind_eq_ok.1 h
      obtain rfl := Except.ok.inj h
      refine ⟨?_, rfl⟩
      rw [Run.perCore?_eq_map hcycles, ← hstat]
      rfl
    · cases h

variable {run : Run ℚ} {basis : TimeBasis ℚ}

lemma getAt_times_zero {f : ℕ → ℚ} (htimes : basis.times = (List.range run.ncores).map f) :
    Amount.getAt basis.times 0 = f 0 := by
  rw [htimes, Amount.getAt, List.getElem?_map, List.getElem?_range run.ncores_pos]
  rfl

/-- Nothing is taken out of the times unless core 0 was fast-forwarded. -/
lemma reported_of_skippedTime_eq_zero (h : ofRun run = .ok basis)
    (hskipped : run.skippedTime 0 = 0) : reported run = .ok basis := by
  obtain ⟨unskipped, hreported, h⟩ := bind_eq_ok.1 h
  obtain rfl := Except.ok.inj h
  rw [hreported]
  cases hcounter : run.counter? Stat.fastforwardedTime with
  | none => rfl
  | some skipped =>
      rw [Run.skippedTime, Run.value_eq_getAt hcounter] at hskipped
      have hfirst : Amount.equal (Amount.getAt skipped 0) 0 = true :=
        (Amount.equal_iff _ _).2 hskipped
      dsimp only
      rw [skip, if_pos hfirst]

/-- Otherwise the time of every core that was fast-forwarded is taken out, and the factor is told by
the times of core 0. -/
lemma ofRun_of_skippedTime_ne_zero (h : ofRun run = .ok basis) (hskipped : run.skippedTime 0 ≠ 0) :
    basis.times = (List.range run.ncores).map (fun core =>
        run.reportedTime core - run.skippedTime core)
      ∧ basis.fastforwardScale = if run.reportedTime 0 - run.skippedTime 0 = 0 then 1
          else run.reportedTime 0 / (run.reportedTime 0 - run.skippedTime 0) := by
  obtain ⟨unskipped, hreported, h⟩ := bind_eq_ok.1 h
  obtain rfl := Except.ok.inj h
  obtain ⟨htimes, hscale⟩ := times_reported hreported
  cases hcounter : run.counter? Stat.fastforwardedTime with
  | none =>
      rw [Run.skippedTime, Run.value, hcounter] at hskipped
      exact absurd rfl hskipped
  | some skipped =>
      have hvalue : run.skippedTime = Amount.getAt skipped := Run.value_eq_getAt hcounter
      have hfirst : ¬ Amount.equal (Amount.getAt skipped 0) 0 = true := by
        rwa [Amount.equal_iff, ← hvalue]
      dsimp only
      rw [skip, if_neg hfirst]
      dsimp only
      rw [getAt_times_zero htimes, htimes, mapIdx_map_range, hscale, hvalue]
      simp

/-- **The factor puts back what was taken out of core 0's time**, if anything is left of it. -/
lemma fastforwardScale_mul (h : ofRun run = .ok basis) (hleft : Amount.getAt basis.times 0 ≠ 0) :
    basis.fastforwardScale * Amount.getAt basis.times 0 = run.reportedTime 0 := by
  by_cases hskipped : run.skippedTime 0 = 0
  · obtain ⟨htimes, hscale⟩ := times_reported (reported_of_skippedTime_eq_zero h hskipped)
    rw [getAt_times_zero htimes, hscale, Amount.ofNat_eq, Nat.cast_one, one_mul]
  · obtain ⟨htimes, hscale⟩ := ofRun_of_skippedTime_ne_zero h hskipped
    have htime := getAt_times_zero htimes
    rw [htime] at hleft ⊢
    rw [hscale, if_neg hleft, div_mul_cancel₀ _ hleft]

/-- A time that is positive and at least any other is the longest. -/
lemma maxTime_eq_of_le {time : ℚ} (hmem : time ∈ basis.times) (hpos : 0 < time)
    (hle : ∀ other ∈ basis.times, other ≤ time) : basis.maxTime = time := by
  have hmax : basis.times.max? = some time := List.max?_eq_some_iff.2 ⟨hmem, hle⟩
  rw [maxTime_eq, List.foldl_max, hmax, Option.getD_some, max_eq_right hpos.le]

end TimeBasis

/-- The seconds of core 0's budget, if core 0 took longest, are its time as the run tells it. -/
lemma Gauge.seconds_coreCycles {run : Run ℚ} {g : Gauge ℚ} (h : TimeBasis.ofRun run = .ok g.basis)
    (hscale : Amount.getAt g.basis.scale 0 ≠ 0) (hpos : 0 < Amount.getAt g.basis.times 0)
    (hle : ∀ time ∈ g.basis.times, time ≤ Amount.getAt g.basis.times 0) :
    g.seconds (g.basis.coreCycles 0) = run.reportedTime 0 / 10 ^ 15 := by
  have hmem : Amount.getAt g.basis.times 0 ∈ g.basis.times := by
    have hlt : 0 < g.basis.times.length := run.ncores_pos.trans_eq (TimeBasis.length_times h).symm
    rw [Amount.getAt, List.getElem?_eq_getElem hlt]
    exact List.getElem_mem hlt
  rw [seconds, TimeBasis.coreCycles, TimeBasis.maxTime_eq_of_le hmem hpos hle, Amount.ratio_eq,
    mul_div_cancel_left₀ _ hscale, TimeBasis.fastforwardScale_mul h hpos.ne', unitsPerSecond,
    Amount.ofNat_eq]
  norm_num

/-- **Fast-forwarded time is taken out of the budgets and put back into the seconds.**  If core 0
was fast-forwarded, the time of each core is what the run tells less what was fast-forwarded of it,
and the factor undoes this on core 0 unless nothing is left; otherwise times are as the run tells
them.  So the total of core 0 in seconds, if no core took longer and the tree reads every category
once, is the time of core 0 as the run tells it, in femtoseconds. -/
theorem fastforwarded_ofRun {run : Run ℚ} {basis : TimeBasis ℚ}
    (h : TimeBasis.ofRun run = .ok basis) :
    (run.skippedTime 0 ≠ 0 →
      basis.times = (List.range run.ncores).map (fun core =>
          run.reportedTime core - run.skippedTime core)
      ∧ (Amount.getAt basis.times 0 ≠ 0 →
          basis.fastforwardScale * Amount.getAt basis.times 0 = run.reportedTime 0)
      ∧ (Amount.getAt basis.times 0 = 0 → basis.fastforwardScale = 1))
    ∧ (run.skippedTime 0 = 0 →
        basis.times = (List.range run.ncores).map run.reportedTime ∧ basis.fastforwardScale = 1)
    ∧ ∀ (tables : Tables ℚ) (tree : Tree ℚ) (options : Options ℚ) (report : Report ℚ),
        Report.compute tables run tree options = .ok report → options.view = .absTime →
        options.aggregate = false → tree.keys.Nodup →
        (∀ k, Diagnostic.unusedKey k ∉ report.diagnostics) →
        0 ∈ options.selectedCores run.ncores → Amount.getAt basis.scale 0 ≠ 0 →
        0 < Amount.getAt basis.times 0 →
        (∀ time ∈ basis.times, time ≤ Amount.getAt basis.times 0) →
        ∃ s, report.core? 0 = some s ∧ s.total = run.reportedTime 0 / 10 ^ 15 := by
  refine ⟨?_, ?_, ?_⟩
  · intro hskipped
    obtain ⟨htimes, hscale⟩ := TimeBasis.ofRun_of_skippedTime_ne_zero h hskipped
    refine ⟨htimes, TimeBasis.fastforwardScale_mul h, ?_⟩
    intro hnothing
    rw [TimeBasis.getAt_times_zero htimes] at hnothing
    rw [hscale, if_pos hnothing]
  · intro hskipped
    exact TimeBasis.times_reported (TimeBasis.reported_of_skippedTime_eq_zero h hskipped)
  · intro tables tree options report hreport hview heach hkeys hunused hselected hscale hpos hle
    obtain ⟨-, -, r, hr, rfl⟩ := Report.compute_eq_ok.1 hreport
    obtain ⟨-, hbasis, -, -⟩ := run.reconcile_eq_ok tables hr
    obtain rfl := Except.ok.inj (h.symm.trans hbasis)
    have hselect := r.select_eq_eachCore run.ncores heach
    have hmem : 0 ∈ (r.select run.ncores options).cores := by
      rw [hselect]
      exact hselected
    refine ⟨_, Report.core?_ofReconciliation hmem, ?_⟩
    have hunread : tree.unread r.books = [] := by
      rw [← Report.unusedCategories_ofReconciliation hr, List.eq_nil_iff_forall_not_mem]
      intro k hk
      exact hunused k (Report.mem_unusedCategories.1 hk)
    have htotal := accounted_core hr hkeys run.ncores_pos options.collapse
    rw [hunread, List.map_nil, List.sum_nil, add_zero] at htotal
    have hshown : (Report.seriesAt r run.ncores tree options 0).total
        = Gauge.seconds ⟨r.basis, r.instructions⟩
          (tree.stackOf options.collapse r.books 0).total := by
      rw [Report.seriesAt, hselect, hview]
      rfl
    rw [hshown, htotal]
    exact Gauge.seconds_coreCycles (g := ⟨r.basis, r.instructions⟩) h hscale hpos hle

/-- A run of two cores of different speed; some of core 0's time was fast-forwarded, and for core 1
there is no value. -/
def skippingRun : Run ℚ where
  ncores := 2
  config := .empty
  counters.toList :=
    [(".cpiBase", [70, 40]), (Stat.fastforwardedTime, [30]), (Stat.timeToCycles, [2, 1]),
      (Stat.elapsedTime, [100, 60]), (Stat.instructionCount, [50, 50])]
  counters.sorted := by decide +kernel
  ncores_pos := Nat.two_pos

/-- One leaf for all that reconciliation books of such a run. -/
def wholeTree : Tree ℚ :=
  ⟨[.leaf "all" 0 (.sum (Category.base :: Category.startTime :: Category.derived))]⟩

/-- Thirty units are taken out of the time of core 0, and its seconds still are all hundred. -/
theorem fastforwarded_skippingRun : ∃ basis report s,
    TimeBasis.ofRun skippingRun = .ok basis ∧ basis.times = [70, 60]
      ∧ Report.compute ⟨.empty, 0⟩ skippingRun wholeTree
          { unfiltered false with view := .absTime } = .ok report
      ∧ report.core? 0 = some s ∧ s.total = 100 / 10 ^ 15 := by
  obtain ⟨basis, hbasis, htimes, hscale⟩ : ∃ basis, TimeBasis.ofRun skippingRun = .ok basis
      ∧ basis.times = [70, 60] ∧ basis.scale = [2, 1] := ⟨_, rfl, by decide +kernel, rfl⟩
  obtain ⟨report, hreport, hfindings⟩ : ∃ report,
      Report.compute ⟨.empty, 0⟩ skippingRun wholeTree
          { unfiltered false with view := .absTime } = .ok report
        ∧ report.diagnostics = [] := ⟨_, rfl, by decide +kernel⟩
  have hfirst : Amount.getAt basis.times 0 = 70 := by
    rw [htimes]
    rfl
  obtain ⟨-, -, htotal⟩ := fastforwarded_ofRun hbasis
  obtain ⟨s, hs, hseconds⟩ := htotal _ _ _ report hreport rfl rfl (by decide) (by simp [hfindings])
    (by decide) (by rw [hscale]; decide) (by rw [hfirst]; norm_num) (by rw [hfirst, htimes]; decide)
  exact ⟨basis, report, s, hbasis, htimes, hreport, hs, hseconds⟩

end CycleAccounting
