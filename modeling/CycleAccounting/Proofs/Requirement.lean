import CycleAccounting.Proofs.Order
import CycleAccounting.Proofs.Views

/-!
# The least compute fraction

The least compute fraction is asked for in the last place: a report of each core is the same
whatever it is, but for the cores that count in the summary (`Report.compute_requiring_eq`).  Which
cores count is decided for each core by itself and by one comparison, so that requiring more leaves
fewer of them (`Books.summaryCores_antitone`).  That needs of the amounts only that they are ordered
(`Amount.Ordered`), and it is true of cores whose compute fraction is not a number, or not between
zero and one, like of any other.

**`compute_requiring`** compares two reports of a run that require a different fraction.
-/

namespace CycleAccounting

variable {α : Type}

/-- The options with another least compute fraction, or with none. -/
def Options.requiring (least : Option α) (options : Options α) : Options α :=
  { options with minComputeFraction := least }

/-- The report with another choice of the cores that count in the summary. -/
def Report.counting (cores : List ℕ) (report : Report α) : Report α :=
  { report with summaryCores := cores }

variable [Amount α]

/-- What is required is at most something else; to require nothing is below every number. -/
def RequiresAtMost (low high : Option α) : Prop :=
  ∀ x ∈ low, ∃ y ∈ high, Amount.atMost x y = true

/-- What is required is nothing or not positive. -/
def RequiresNothing (least : Option α) : Prop := ∀ x ∈ least, Amount.atMost x 0 = true

/-! ## The cores that count -/

namespace Books

variable (books : Books α) (cores : List ℕ) (budget : α)

lemma summaryCores_some {least : α} (h : Amount.less 0 least = true) :
    books.summaryCores cores budget (some least)
      = cores.filter fun core => Amount.atMost least (books.computeFraction core budget) :=
  if_pos h

variable [Amount.Ordered α]

lemma summaryCores_of_requiresNothing {least : Option α} (h : RequiresNothing least) :
    books.summaryCores cores budget least = cores := by
  cases least with
  | none => rfl
  | some x => exact if_neg (Amount.not_less_of_atMost (h x rfl))

/-- **Requiring more leaves fewer cores.**  A positive fraction is still positive if it grows, so
that no requirement is dropped. -/
theorem summaryCores_antitone {low high : Option α} (h : RequiresAtMost low high) :
    (books.summaryCores cores budget high).Sublist (books.summaryCores cores budget low) := by
  cases low with
  | none => exact books.summaryCores_sublist cores budget high
  | some x =>
      obtain ⟨y, rfl, hle⟩ := h x rfl
      by_cases hx : Amount.less 0 x = true
      · have hy : Amount.less 0 y = true := Amount.less_of_less_of_atMost hx hle
        rw [summaryCores_some _ _ _ hx, summaryCores_some _ _ _ hy]
        refine List.monotone_filter_right cores ?_
        intro core hcore
        exact Amount.Ordered.atMost_trans hle hcore
      · have hall : books.summaryCores cores budget (some x) = cores := if_neg hx
        rw [hall]
        exact books.summaryCores_sublist cores budget (some y)

end Books

/-! ## Reports that require more or less -/

/-- Without a mean the selected cores are shown, and those that pass the filter count. -/
lemma Reconciliation.select_eq_eachCore (r : Reconciliation α) (ncores : ℕ) {options : Options α}
    (heach : options.aggregate = false) :
    r.select ncores options
      = r.eachCore (options.selectedCores ncores) (r.passing ncores options) := by
  rw [select, heach]
  rfl

namespace Report

/-- Valid options for the same cores fail alike, or report on the same reconciliation. -/
lemma compute_error_or_ok (tables : Tables α) (run : Run α) (tree : Tree α)
    {options options' : Options α} (hvalid : options.validate = .ok ())
    (hvalid' : options'.validate = .ok ()) (hcores : options'.cores = options.cores) :
    (∃ e, compute tables run tree options = .error e ∧ compute tables run tree options' = .error e)
    ∨ ∃ r, compute tables run tree options = .ok (ofReconciliation r run.ncores tree options)
      ∧ compute tables run tree options' = .ok (ofReconciliation r run.ncores tree options') := by
  rw [compute, compute, hvalid, hvalid', Options.validateCores.eq_def options', hcores,
    ← Options.validateCores.eq_def]
  cases options.validateCores run.ncores with
  | error e => exact .inl ⟨_, rfl, rfl⟩
  | ok _ =>
      cases run.reconcile tables with
      | error e => exact .inl ⟨_, rfl, rfl⟩
      | ok r => exact .inr ⟨r, rfl, rfl⟩

/-- The report of each core depends on the least compute fraction in the cores that count only. -/
lemma ofReconciliation_requiring (r : Reconciliation α) (ncores : ℕ) (tree : Tree α)
    {options : Options α} (heach : options.aggregate = false) (least : Option α) :
    ofReconciliation r ncores tree (options.requiring least)
      = (ofReconciliation r ncores tree options).counting
          (r.passing ncores (options.requiring least)) := by
  have hselect : r.select ncores (options.requiring least) = { r.select ncores options with
      summaryCores := r.passing ncores (options.requiring least) } := by
    have heach' : (options.requiring least).aggregate = false := heach
    rw [r.select_eq_eachCore ncores heach, r.select_eq_eachCore ncores heach']
    rfl
  rw [ofReconciliation, ofReconciliation, hselect]
  rfl

/-- The text of a report does not tell which cores count. -/
lemma render_counting [DecimalText α] (report : Report α) (cores : List ℕ) :
    (report.counting cores).render = report.render := by
  rw [render_eq, render_eq]
  rfl

end Report

/-- **A higher requirement leaves fewer cores in the summary and touches nothing else**, on doubles
as on exact amounts.  All selected cores count if none is required, or one that is not positive. -/
theorem compute_requiring [Amount.Ordered α] (tables : Tables α) (run : Run α) (tree : Tree α)
    (options : Options α) (heach : options.aggregate = false) {low high : Option α}
    (hlow : (options.requiring low).validate = .ok ())
    (hhigh : (options.requiring high).validate = .ok ()) (hle : RequiresAtMost low high) :
    (∃ e, Report.compute tables run tree (options.requiring low) = .error e
      ∧ Report.compute tables run tree (options.requiring high) = .error e)
    ∨ ∃ r r', Report.compute tables run tree (options.requiring low) = .ok r
      ∧ Report.compute tables run tree (options.requiring high) = .ok r'
      ∧ r' = r.counting r'.summaryCores ∧ (∀ [DecimalText α], r'.render = r.render)
      ∧ r.summaryCores.Sublist (options.selectedCores run.ncores)
      ∧ r'.summaryCores.Sublist (options.selectedCores run.ncores)
      ∧ r'.summaryCores.Sublist r.summaryCores
      ∧ (RequiresNothing low → r.summaryCores = options.selectedCores run.ncores)
      ∧ (RequiresNothing high → r'.summaryCores = options.selectedCores run.ncores) := by
  rcases Report.compute_error_or_ok tables run tree hlow hhigh rfl with hfail | ⟨r, hr, hr'⟩
  · exact .inl hfail
  · rw [Report.ofReconciliation_requiring r _ _ heach] at hr hr'
    refine .inr ⟨_, _, hr, hr', rfl, ?_, ?_, ?_, ?_, ?_, ?_⟩
    · intro _
      rw [Report.render_counting, Report.render_counting]
    · exact r.passing_sublist run.ncores (options.requiring low)
    · exact r.passing_sublist run.ncores (options.requiring high)
    · exact r.books.summaryCores_antitone _ _ hle
    · exact r.books.summaryCores_of_requiresNothing _ _
    · exact r.books.summaryCores_of_requiresNothing _ _

/-- Four cores with budgets of 120 cycles: one computes for half of them, one waits for ever, one
computes for more cycles than there are, and one for less than none. -/
def erraticRun : Run Double where
  ncores := 4
  config := .empty
  counters.toList :=
    [(".cpiBase", [Amount.ofNat 60, 0, Amount.ofNat 300, Double.negate (Amount.ofNat 120)]),
      (".cpiRecv", [0, .infinite false, 0, 0]),
      (Stat.cycleCount, List.replicate 4 (Amount.ofNat 120)),
      (Stat.instructionCount, List.replicate 4 (Amount.ofNat 50))]
  counters.sorted := by decide +kernel
  ncores_pos := by decide

/-- Half of the time, as a fraction. -/
def halfTime : Double := Amount.ofNat 1 / Amount.ofNat 2

def erraticTree : Tree Double := ⟨[.leaf "base" 0 (.category Category.base)]⟩

/-- The core that waits for ever has no compute fraction, and counts as long as none is required. -/
theorem requiring_erraticRun :
    (∃ reconciled : Reconciliation Double, erraticRun.reconcile ⟨.empty, 0⟩ = .ok reconciled
      ∧ (List.range 4).map (fun core =>
          (reconciled.books.computeFraction core reconciled.basis.referenceCycles).isNaN)
        = [false, true, false, false])
    ∧ ∃ r r' : Report Double,
      Report.compute ⟨.empty, 0⟩ erraticRun erraticTree
          (Options.standard.requiring (some 0)) = .ok r
        ∧ Report.compute ⟨.empty, 0⟩ erraticRun erraticTree
          (Options.standard.requiring (some halfTime)) = .ok r'
        ∧ r' = r.counting r'.summaryCores
        ∧ r.summaryCores = [0, 1, 2, 3] ∧ r'.summaryCores = [0, 2] := by
  have hcounting : (Report.compute ⟨.empty, 0⟩ erraticRun erraticTree
      (Options.standard.requiring (some halfTime))).toOption.map (·.summaryCores)
        = some [0, 2] := by
    decide +kernel
  constructor
  · have hfraction : (erraticRun.reconcile ⟨.empty, 0⟩).toOption.map (fun reconciled =>
        (List.range 4).map fun core =>
          (reconciled.books.computeFraction core reconciled.basis.referenceCycles).isNaN)
        = some [false, true, false, false] := by
      decide +kernel
    exact exists_ok_of_toOption hfraction
  · have hvalid {x : Double} (hx : Options.isFraction x = true) :
        (Options.standard.requiring (some x)).validate = .ok () := by
      simp [Options.validate, Options.requiring, Options.standard, hx]
    have hle : RequiresAtMost (some (0 : Double)) (some halfTime) := by
      rintro x ⟨⟩
      exact ⟨halfTime, rfl, by decide +kernel⟩
    rcases compute_requiring ⟨.empty, 0⟩ erraticRun erraticTree Options.standard rfl
      (hvalid (by decide +kernel)) (hvalid (by decide +kernel)) hle with
      ⟨e, -, he⟩ | ⟨r, r', hr, hr', hsame, -, -, -, -, hall, -⟩
    · rw [he] at hcounting
      cases hcounting
    · rw [hr'] at hcounting
      refine ⟨r, r', hr, hr', hsame, hall ?_, Option.some.inj hcounting⟩
      rintro x ⟨⟩
      decide +kernel

end CycleAccounting
