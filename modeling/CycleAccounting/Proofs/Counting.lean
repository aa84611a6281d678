import CycleAccounting.Proofs.Requirement
import Mathlib.Algebra.Order.Field.Basic
import Mathlib.Tactic.Linarith

/-!
# The time that a core is measured against

The idle cycles of a core are cycles of its own, but the compute fraction divides them by the budget
of core 0.  So a core counts in the summary if its idle cycles are within what the least compute
fraction leaves of core 0's budget (`Reconciliation.mem_passing_iff`), whereas the core spends that
fraction of its own time computing if they are within the same part of its own budget
(`Reconciliation.Computes`).

The two agree if the clocks of the two cores do, and otherwise unless the idle cycles lie between
the two limits (`Reconciliation.Straddles`).  In **`counts_compute`** this is said of reports.  A
core whose clock is slow enough counts although it never computes.
-/

namespace CycleAccounting

/-- The cycles of a core in the categories that do not count as computing. -/
def Books.idle (books : Books ℚ) (core : ℕ) : ℚ :=
  (Category.nonCompute.map (books.amount core)).sum

namespace Reconciliation

/-- The core spends at least the given fraction of its own budget computing. -/
def Computes (r : Reconciliation ℚ) (least : ℚ) (core : ℕ) : Prop :=
  r.books.idle core ≤ (1 - least) * r.basis.coreCycles core

/-- The idle cycles are above the limit that one of two budgets sets, core 0's and the core's own,
and within the other. -/
def Straddles (r : Reconciliation ℚ) (least : ℚ) (core : ℕ) : Prop :=
  (1 - least) * min r.basis.referenceCycles (r.basis.coreCycles core) < r.books.idle core
    ∧ r.books.idle core ≤ (1 - least) * max r.basis.referenceCycles (r.basis.coreCycles core)

variable {r : Reconciliation ℚ} {least : ℚ} {core : ℕ}

/-- **A core counts if its idle cycles are a small enough part of core 0's budget.** -/
theorem mem_passing_iff {ncores : ℕ} {options : Options ℚ}
    (hleast : options.minComputeFraction = some least) (hpos : 0 < least)
    (hcore : core ∈ options.selectedCores ncores) :
    core ∈ r.passing ncores options
      ↔ r.books.idle core / r.basis.referenceCycles ≤ 1 - least := by
  rw [passing, hleast, Books.summaryCores_some _ _ _ ((Amount.less_iff_lt 0 least).2 hpos),
    List.mem_filter, Amount.atMost_iff, Books.computeFraction, Amount.sum_eq, Amount.ratio_eq,
    Amount.ofNat_eq, Nat.cast_one]
  exact (and_iff_right hcore).trans le_sub_comm

/-- With two positive budgets, to be within one limit is to be within the other, unless the idle
cycles lie between them. -/
lemma within_iff_computes_iff (hleast : least ≤ 1) :
    (r.books.idle core ≤ (1 - least) * r.basis.referenceCycles ↔ r.Computes least core)
      ↔ ¬ r.Straddles least core := by
  have hpart : 0 ≤ 1 - least := sub_nonneg.2 hleast
  rw [Computes, Straddles, mul_min_of_nonneg _ _ hpart, mul_max_of_nonneg _ _ hpart, min_lt_iff,
    le_max_iff]
  grind

/-- A core that is idle for a whole positive budget does not compute for any part of it. -/
lemma not_computes_of_idle (hpos : 0 < least) (hbudget : 0 < r.basis.coreCycles core)
    (hidle : r.books.idle core = r.basis.coreCycles core) : ¬ r.Computes least core := by
  intro h
  rw [Computes, hidle] at h
  nlinarith

end Reconciliation

namespace Options

variable {options : Options ℚ} {least : ℚ}

lemma isFraction_iff (least : ℚ) : isFraction least = true ↔ least ≤ 1 := by
  rw [isFraction, Bool.and_eq_true, Bool.not_eq_true', ← Bool.not_eq_true, Amount.less_iff_lt,
    not_lt]
  exact and_iff_right rfl

/-- Valid options require no more than all of the time. -/
lemma le_one_of_validate (hvalid : options.validate = .ok ())
    (hleast : options.minComputeFraction = some least) : least ≤ 1 := by
  refine (isFraction_iff least).1 ?_
  by_contra hnot
  rw [Bool.not_eq_true] at hnot
  rw [validate, hleast] at hvalid
  simp [hnot] at hvalid

end Options

/-- Which selected cores count in a report of each core. -/
lemma Report.mem_summaryCores_iff {r : Reconciliation ℚ} {ncores core : ℕ} {tree : Tree ℚ}
    {options : Options ℚ} {least : ℚ} (heach : options.aggregate = false)
    (hleast : options.minComputeFraction = some least) (hpos : 0 < least)
    (hcore : core ∈ options.selectedCores ncores) :
    core ∈ (ofReconciliation r ncores tree options).summaryCores
      ↔ r.books.idle core / r.basis.referenceCycles ≤ 1 - least := by
  rw [ofReconciliation, r.select_eq_eachCore ncores heach]
  exact Reconciliation.mem_passing_iff hleast hpos hcore

/-- **Cores are measured against the budget of core 0.**  For a core with the clock of core 0 that
is its own budget; any other core may count without computing for the required part of its own time,
or the other way round, if its idle cycles lie between the two limits. -/
theorem counts_compute {tables : Tables ℚ} {run : Run ℚ} {tree : Tree ℚ} {options : Options ℚ}
    {report : Report ℚ} {least : ℚ} (h : Report.compute tables run tree options = .ok report)
    (heach : options.aggregate = false) (hleast : options.minComputeFraction = some least)
    (hpos : 0 < least) :
    ∃ r, run.reconcile tables = .ok r
      ∧ ∀ core ∈ options.selectedCores run.ncores, 0 < r.basis.coreCycles core →
        (Amount.getAt r.basis.scale core = Amount.getAt r.basis.scale 0 →
          (core ∈ report.summaryCores ↔ r.Computes least core)
            ∧ (r.books.idle core = r.basis.coreCycles core → core ∉ report.summaryCores))
        ∧ (0 < r.basis.referenceCycles →
          ((core ∈ report.summaryCores ↔ r.Computes least core) ↔ ¬ r.Straddles least core)
            ∧ (r.books.idle core = r.basis.coreCycles core → (core ∈ report.summaryCores
              ↔ r.basis.coreCycles core ≤ (1 - least) * r.basis.referenceCycles)))
        ∧ (r.basis.referenceCycles = 0 → core ∈ report.summaryCores)
        ∧ (r.basis.referenceCycles < 0 → (core ∈ report.summaryCores
          ↔ (1 - least) * r.basis.referenceCycles ≤ r.books.idle core)) := by
  obtain ⟨hvalid, -, r, hr, rfl⟩ := Report.compute_eq_ok.1 h
  have hle : least ≤ 1 := Options.le_one_of_validate hvalid hleast
  refine ⟨r, hr, ?_⟩
  intro core hcore hbudget
  have hcounts : core ∈ (Report.ofReconciliation r run.ncores tree options).summaryCores
      ↔ r.books.idle core / r.basis.referenceCycles ≤ 1 - least :=
    Report.mem_summaryCores_iff heach hleast hpos hcore
  refine ⟨?_, ?_, ?_, ?_⟩
  · intro hclock
    have hequal : r.basis.referenceCycles = r.basis.coreCycles core := by
      rw [TimeBasis.referenceCycles, TimeBasis.coreCycles, TimeBasis.coreCycles, hclock]
    have hcomputes : core ∈ (Report.ofReconciliation r run.ncores tree options).summaryCores
        ↔ r.Computes least core := by
      rw [hcounts, hequal, div_le_iff₀ hbudget]
      rfl
    refine ⟨hcomputes, ?_⟩
    intro hidle hmem
    exact Reconciliation.not_computes_of_idle hpos hbudget hidle (hcomputes.1 hmem)
  · intro href
    rw [hcounts, div_le_iff₀ href]
    refine ⟨Reconciliation.within_iff_computes_iff hle, ?_⟩
    intro hidle
    rw [hidle]
  · intro href
    rw [hcounts, href, div_zero]
    exact sub_nonneg.2 hle
  · intro href
    rw [hcounts]
    exact div_le_iff_of_neg href

/-- The second core has a clock four times as slow as the first, and nothing to do. -/
def dozingRun : Run ℚ where
  ncores := 2
  config := .empty
  counters.toList :=
    [(".cpiBase", [90, 0]), (Stat.timeToCycles, [1, 1 / 4]), (Stat.elapsedTime, [120, 120]),
      (Stat.instructionCount, [10, 10])]
  counters.sorted := by decide +kernel
  ncores_pos := Nat.two_pos

/-- Computing and idle cycles. -/
def dozingTree : Tree ℚ :=
  ⟨[.leaf "base" 0 (.category Category.base), .leaf "idle" 0 (.category Category.imbalance)]⟩

lemma compute_dozingRun : ∃ r : Reconciliation ℚ, dozingRun.reconcile ⟨.empty, 1⟩ = .ok r
    ∧ r.basis.referenceCycles = 120 ∧ r.basis.coreCycles 1 = 30 ∧ r.books.idle 1 = 30
    ∧ ∀ least ≤ 1,
      Report.compute ⟨.empty, 1⟩ dozingRun dozingTree (Options.standard.requiring (some least))
        = .ok (.ofReconciliation r 2 dozingTree (Options.standard.requiring (some least))) := by
  refine ⟨_, rfl, by decide +kernel, by decide +kernel, by decide +kernel, ?_⟩
  intro least hle
  have hvalid : (Options.standard.requiring (some least)).validate = .ok () := by
    simp [Options.validate, Options.requiring, Options.standard,
      (Options.isFraction_iff least).2 hle]
  exact Report.compute_eq_ok.2 ⟨hvalid, rfl, _, rfl, rfl⟩

/-- The slow core counts if half of the time is required, and does not if four fifths are. -/
theorem counts_dozingRun : ∃ report report' : Report ℚ,
    Report.compute ⟨.empty, 1⟩ dozingRun dozingTree (Options.standard.requiring (some (1 / 2)))
        = .ok report
      ∧ Report.compute ⟨.empty, 1⟩ dozingRun dozingTree (Options.standard.requiring (some (4 / 5)))
        = .ok report'
      ∧ 1 ∈ report.summaryCores ∧ 1 ∉ report'.summaryCores := by
  obtain ⟨r, hr, hfast, hslow, hidle, hreport⟩ := compute_dozingRun
  have hmem {least : ℚ} (hpos : 0 < least) (hle : least ≤ 1) :
      1 ∈ (Report.ofReconciliation r 2 dozingTree
        (Options.standard.requiring (some least))).summaryCores ↔ 30 ≤ (1 - least) * 120 := by
    obtain ⟨r', hr', hcounts⟩ := counts_compute (hreport least hle) rfl rfl hpos
    obtain rfl := Except.ok.inj (hr.symm.trans hr')
    have hcore : 1 ∈ (Options.standard.requiring (some least)).selectedCores dozingRun.ncores :=
      List.mem_range.2 Nat.one_lt_two
    obtain ⟨-, habove, -, -⟩ := hcounts 1 hcore (by rw [hslow]; norm_num)
    obtain ⟨-, hwhole⟩ := habove (by rw [hfast]; norm_num)
    rw [← hslow, ← hfast]
    exact hwhole (hidle.trans hslow.symm)
  refine ⟨_, _, hreport (1 / 2) (by norm_num), hreport (4 / 5) (by norm_num), ?_, ?_⟩
  · rw [hmem] <;> norm_num
  · rw [hmem] <;> norm_num

/-- If half of the time is required the slow core counts, though its whole budget is idle. -/
theorem idle_core_counts : ∃ (r : Reconciliation ℚ) (report : Report ℚ),
    dozingRun.reconcile ⟨.empty, 1⟩ = .ok r
      ∧ Report.compute ⟨.empty, 1⟩ dozingRun dozingTree (Options.standard.requiring (some (1 / 2)))
        = .ok report
      ∧ 1 ∈ (Options.standard.requiring (some (1 / 2 : ℚ))).selectedCores 2
      ∧ r.basis.coreCycles 1 = 30 ∧ r.books.idle 1 = 30
      ∧ ¬ r.Computes (1 / 2) 1 ∧ 1 ∈ report.summaryCores := by
  obtain ⟨r, hr, hfast, hslow, hidle, hreport⟩ := compute_dozingRun
  have hcore : 1 ∈ (Options.standard.requiring (some (1 / 2 : ℚ))).selectedCores 2 :=
    List.mem_range.2 Nat.one_lt_two
  refine ⟨r, _, hr, hreport (1 / 2) (by norm_num), hcore, hslow, hidle, ?_, ?_⟩
  · refine Reconciliation.not_computes_of_idle ?_ ?_ (hidle.trans hslow.symm)
    · norm_num
    · rw [hslow]
      norm_num
  · rw [Report.mem_summaryCores_iff rfl rfl (by norm_num) hcore, hidle, hfast]
    norm_num

end CycleAccounting
