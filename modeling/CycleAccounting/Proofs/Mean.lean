import CycleAccounting.Proofs.Series

/-!
# The mean of several cores

A report can average the ledgers of its cores before it puts them through the tree, or show each
core and average the rows afterwards.  Both ways give the same, as far as everything between the
ledgers and the rows is linear:

* **Totals** are sums of categories (`Tree.total_stack`), so the total of the mean ledger is the
  mean of the totals (`total_stack_meanOver`).
* **Entries** are sums of categories too, as long as nothing is collapsed: it is the same leaves
  that are shown for every ledger (`getD_stack_meanOver`).
* **Views** of time multiply by a factor that all cores share (`Gauge.exists_factor`).  Cycles per
  instruction do not, and there the mean core has a quotient of sums instead of a mean of quotients.

**`mean_compute`** states this of two reports whose options differ in nothing else.
-/

namespace CycleAccounting

/-! ## Means of linear functions -/

lemma averaged_mul (cores : List ℕ) (f : ℕ → ℚ) (factor : ℚ) :
    averaged cores (fun core => f core * factor) = averaged cores f * factor := by
  rw [averaged, List.sum_map_mul_right, mul_div_right_comm]
  rfl

lemma averaged_zero (cores : List ℕ) : averaged cores (fun _ => 0) = 0 := by
  simp [averaged]

lemma mean_map (cores : List ℕ) (f : ℕ → ℚ) : Amount.mean (cores.map f) = averaged cores f := by
  rw [Amount.mean_eq, List.length_map]
  rfl

/-- A quotient of means over the same cores is the quotient of the sums. -/
lemma averaged_div_averaged (cores : List ℕ) (f g : ℕ → ℚ) :
    averaged cores f / averaged cores g = (cores.map f).sum / (cores.map g).sum := by
  rw [averaged, averaged]
  by_cases hlength : (cores.length : ℚ) = 0
  · have hcores : cores = [] := by simpa using hlength
    simp [hcores]
  · exact div_div_div_cancel_right₀ hlength _ _

/-- The views of time multiply by one factor, which the instruction counts have no part in. -/
lemma Gauge.exists_factor (basis : TimeBasis ℚ) {view : View} (h : view ≠ .cpi) :
    ∃ factor, ∀ instructions cycles core,
      (⟨basis, instructions⟩ : Gauge ℚ).project view cycles core = cycles * factor := by
  cases view with
  | cpi => exact absurd rfl h
  | time =>
      refine ⟨basis.referenceCycles⁻¹, ?_⟩
      intro _ cycles _
      rw [project, fraction, Amount.ratio_eq, div_eq_mul_inv]
  | absTime =>
      refine ⟨basis.fastforwardScale * (Amount.getAt basis.scale 0)⁻¹ / unitsPerSecond, ?_⟩
      intro _ cycles _
      simp only [project, seconds, Amount.ratio_eq]
      ring

/-! ## The stack of the mean ledger -/

/-- The mean ledger holds the mean of every category. -/
lemma Books.amount_meanOver (books : Books ℚ) (cores : List ℕ) :
    (books.meanOver cores).amount 0 = fun k => averaged cores (books.amount · k) :=
  funext fun k => books.amount_meanLedger cores k

lemma Node.cycles_averaged (n : Node ℚ) (cores : List ℕ) (lookup : ℕ → String → ℚ) :
    n.cycles (fun k => averaged cores (lookup · k))
      = averaged cores fun core => n.cycles (lookup core) :=
  sum_map_averaged n.keys cores lookup

lemma Lineage.cycles_averaged (l : Lineage ℚ) (cores : List ℕ) (lookup : ℕ → String → ℚ) :
    l.cycles (fun k => averaged cores (lookup · k))
      = averaged cores fun core => l.cycles (lookup core) := by
  rw [cycles]
  cases hlast : l.getLast? with
  | none => simp [cycles, hlast, averaged_zero]
  | some n => simp [cycles, hlast, n.cycles_averaged]

/-- Looking up among values that are computed by position is looking up the position. -/
lemma lookup_map_pair {β : Type} (f : β → String) (g : β → ℚ) (name : String) (xs : List β) :
    (xs.map fun x => (f x, g x)).lookup name = (xs.find? (name == f ·)).map g := by
  induction xs with
  | nil => rfl
  | cons x rest ih =>
      rw [List.map_cons, List.lookup_cons, List.find?_cons, ih]
      cases name == f x <;> rfl

namespace Tree

variable (tree : Tree ℚ) (books : Books ℚ) (cores : List ℕ)

/-- **The total of the mean is the mean of the totals**, whatever is collapsed. -/
theorem total_stack_meanOver (collapse : Bool) :
    (tree.stackOf collapse (books.meanOver cores) 0).total
      = averaged cores fun core => (tree.stackOf collapse books core).total := by
  simp only [stackOf, total_stack, books.amount_meanOver]
  exact sum_map_averaged tree.keys cores books.amount

/-- **Every entry of the mean is the mean of the entries**, if nothing is collapsed. -/
theorem getD_stack_meanOver (name : String) :
    ((tree.stackOf false (books.meanOver cores) 0).get? name).getD 0
      = averaged cores fun core => ((tree.stackOf false books core).get? name).getD 0 := by
  simp only [stackOf, Stack.get?, entries_stack_false, lookup_map_pair, books.amount_meanOver]
  cases tree.leaves.find? (name == ·.fullPath) with
  | none => simp [averaged_zero]
  | some l => simp [l.cycles_averaged]

lemma names_stackOf_false (core : ℕ) :
    (tree.stackOf false books core).names = tree.leaves.map Lineage.fullPath := by
  rw [Stack.names, stackOf, entries_stack_false, List.map_map]
  rfl

/-- Where every stack shows the same names, those are shown, in the order of the tree. -/
lemma shownNames_of_forall {among : List (Stack ℚ)} (hamong : among ≠ []) {shown : List String}
    (h : ∀ s ∈ among, s.names = shown) :
    tree.shownNames among = tree.names.filter shown.contains := by
  rw [shownNames]
  refine List.filter_congr ?_
  intro name _
  rw [Bool.eq_iff_iff, List.contains_iff_mem, List.contains_iff_mem, List.mem_flatMap]
  constructor
  · rintro ⟨s, hs, hname⟩
    rwa [← h s hs]
  · intro hname
    obtain ⟨s, hs⟩ := List.exists_mem_of_ne_nil among hamong
    exact ⟨s, hs, (h s hs).symm ▸ hname⟩

end Tree

/-! ## Rows -/

/-- Valid options select at least one core. -/
lemma Options.selectedCores_ne_nil {α : Type} [Amount α] {options : Options α} {ncores : ℕ}
    (hncores : 0 < ncores) (hvalid : options.validate = .ok ())
    (hcores : options.validateCores ncores = .ok ()) : options.selectedCores ncores ≠ [] := by
  rw [selectedCores]
  cases hfilter : options.cores with
  | none => simpa using hncores.ne'
  | some filter =>
      cases filter with
      | nil =>
          rw [validate, hfilter] at hvalid
          split at hvalid
          · split_ifs at hvalid with hfraction hnone
            exact absurd rfl hnone
          · cases hvalid
      | cons core rest =>
          rw [validateCores, hfilter] at hcores
          have hlt : core < ncores := by
            by_contra hle
            simp [Nat.not_lt.1 hle] at hcores
          intro hnil
          exact List.filter_eq_nil_iff.1 hnil core (List.mem_range.2 hlt) (by simp)

namespace Report

section Compared

variable (r : Reconciliation ℚ) (ncores : ℕ) (tree : Tree ℚ) (options : Options ℚ)

lemma select_mean : r.select ncores { options with aggregate := true }
    = r.meanCore (r.passing ncores options) := rfl

/-- The series of a core if each is shown. -/
def eachSeries (core : ℕ) : Series ℚ :=
  seriesAt r ncores tree { options with aggregate := false } core

/-- The only series if the mean is shown. -/
def meanSeries : Series ℚ := seriesAt r ncores tree { options with aggregate := true } 0

lemma stack_eachSeries (core : ℕ) : (eachSeries r ncores tree options core).stack
    = tree.stackOf options.collapse r.books core := rfl

lemma stack_meanSeries : (meanSeries r ncores tree options).stack
    = tree.stackOf options.collapse (r.books.meanOver (r.passing ncores options)) 0 := rfl

lemma mean_map_eachSeries (f : Series ℚ → ℚ) :
    Amount.mean (((r.passing ncores options).map (eachSeries r ncores tree options)).map f)
      = averaged (r.passing ncores options) fun core =>
          f (eachSeries r ncores tree options core) := by
  rw [List.map_map, ← mean_map]
  rfl

/-- The total of the mean core is the mean of the totals. -/
lemma total_stack_meanSeries : (meanSeries r ncores tree options).stack.total
    = averaged (r.passing ncores options) fun core =>
        (eachSeries r ncores tree options core).stack.total := by
  simp only [stack_meanSeries, stack_eachSeries]
  exact tree.total_stack_meanOver r.books _ options.collapse

/-- So is the projected total, in the views of time. -/
lemma total_meanSeries (hview : options.view ≠ .cpi) : (meanSeries r ncores tree options).total
    = averaged (r.passing ncores options) fun core =>
        (eachSeries r ncores tree options core).total := by
  obtain ⟨factor, hfactor⟩ := Gauge.exists_factor r.basis hview
  have hmean : (meanSeries r ncores tree options).total
      = (meanSeries r ncores tree options).stack.total * factor := hfactor _ _ _
  have heach (core : ℕ) : (eachSeries r ncores tree options core).total
      = (eachSeries r ncores tree options core).stack.total * factor := hfactor _ _ _
  simp only [hmean, heach, averaged_mul, total_stack_meanSeries]

/-- Without collapsing, a report lists the leaves, whichever ledgers it shows. -/
lemma names_ofReconciliation_false (hcollapse : options.collapse = false)
    (hcores : (r.select ncores options).cores ≠ []) :
    (ofReconciliation r ncores tree options).names
      = tree.names.filter (tree.leaves.map Lineage.fullPath).contains := by
  rw [names_ofReconciliation, series_ofReconciliation, List.map_map]
  refine tree.shownNames_of_forall (by simpa using hcores) ?_
  intro s hs
  obtain ⟨core, -, rfl⟩ := List.mem_map.1 hs
  rw [Function.comp_apply, seriesAt, hcollapse]
  exact tree.names_stackOf_false _ core

variable {options}

/-- Without collapsing, what the mean core has under a name is the mean of what the cores have. -/
lemma getD_meanSeries (hcollapse : options.collapse = false) (name : String) :
    ((meanSeries r ncores tree options).stack.get? name).getD 0
      = averaged (r.passing ncores options) fun core =>
          ((eachSeries r ncores tree options core).stack.get? name).getD 0 := by
  simp only [stack_meanSeries, stack_eachSeries, hcollapse]
  exact tree.getD_stack_meanOver r.books _ name

/-- Both reports list the leaves, as each core that is shown has all of them. -/
lemma names_mean_eq_names_each (hcollapse : options.collapse = false)
    (hselected : options.selectedCores ncores ≠ []) :
    (ofReconciliation r ncores tree { options with aggregate := true }).names
      = (ofReconciliation r ncores tree { options with aggregate := false }).names := by
  rw [names_ofReconciliation_false r ncores tree { options with aggregate := true } hcollapse
      (List.cons_ne_nil _ _),
    names_ofReconciliation_false r ncores tree { options with aggregate := false } hcollapse
      hselected]

/-- In the views of time, the values of the mean core are the means of the values. -/
lemma values_meanSeries (hcollapse : options.collapse = false) (hview : options.view ≠ .cpi)
    (hnames : (ofReconciliation r ncores tree { options with aggregate := true }).names
      = (ofReconciliation r ncores tree { options with aggregate := false }).names) :
    (meanSeries r ncores tree options).values
      = (ofReconciliation r ncores tree { options with aggregate := false }).summaryRow := by
  obtain ⟨factor, hfactor⟩ := Gauge.exists_factor r.basis hview
  rw [summaryRow_ofReconciliation, ← hnames]
  refine List.map_congr_left ?_
  intro name _
  have hmean := getD_meanSeries r ncores tree hcollapse name
  calc _ = ((meanSeries r ncores tree options).stack.get? name).getD 0 * factor := hfactor _ _ _
    _ = averaged (r.passing ncores options) fun core =>
          ((eachSeries r ncores tree options core).stack.get? name).getD 0 * factor := by
        rw [hmean, averaged_mul]
    _ = _ := by
        rw [← mean_map]
        refine congrArg Amount.mean (List.map_congr_left ?_)
        intro core _
        exact (hfactor _ _ _).symm

/-- Per instruction, the mean core has the cycles of all cores by the instructions of all. -/
lemma values_meanSeries_cpi (hcollapse : options.collapse = false) (hview : options.view = .cpi) :
    (meanSeries r ncores tree options).values
      = (ofReconciliation r ncores tree { options with aggregate := true }).names.map fun name =>
          Amount.ratio
            (((r.passing ncores options).map (eachSeries r ncores tree options)).map fun t =>
              (t.stack.get? name).getD 0).sum
            ((r.passing ncores options).map (Amount.getAt r.instructions)).sum := by
  refine List.map_congr_left ?_
  intro name _
  have hmean := getD_meanSeries r ncores tree hcollapse name
  have hinstructions : (ofReconciliation r ncores tree { options with aggregate := true }).gauge
        = ⟨r.basis, [averaged (r.passing ncores options) (Amount.getAt r.instructions)]⟩ := by
    rw [← mean_map]
    rfl
  rw [hinstructions]
  calc _ = ((meanSeries r ncores tree options).stack.get? name).getD 0
          / averaged (r.passing ncores options) (Amount.getAt r.instructions) := by
        rw [hview]
        exact Amount.ratio_eq _ _
    _ = _ := by
        rw [hmean, averaged_div_averaged, Amount.ratio_eq, List.map_map]
        rfl

/-- The summary row of a report of the mean is its only series. -/
lemma summaryRow_mean :
    (ofReconciliation r ncores tree { options with aggregate := true }).summaryRow
      = (meanSeries r ncores tree options).values := by
  rw [summaryRow_ofReconciliation]
  refine List.map_congr_left ?_
  intro name _
  rw [select_mean]
  simp only [Reconciliation.meanCore, List.map_singleton, Amount.mean_eq, List.sum_singleton,
    List.length_singleton, Nat.cast_one, div_one]
  rfl

end Compared

end Report

/-- **The mean core agrees with the mean of the cores.**  Of two reports that differ only in whether
they average, let `summary` be the series of the cores that count in the summary of the first.  The
total of the mean core is the mean of their totals, also after projection if the view is one of
time.  Without collapsing both reports list the same names, and in the views of time the values of
the mean core are the summary row of the first; per instruction they are the cycles of all these
cores by the instructions of all of them.  Over no cores the means are zero. -/
theorem mean_compute {tables : Tables ℚ} {run : Run ℚ} {tree : Tree ℚ} {options : Options ℚ}
    {r a : Report ℚ}
    (hr : Report.compute tables run tree { options with aggregate := false } = .ok r)
    (ha : Report.compute tables run tree { options with aggregate := true } = .ok a) :
    ∃ (summary : List (Series ℚ)) (s : Series ℚ),
      (∀ t ∈ summary, t ∈ r.series) ∧ summary.map (·.core) = r.summaryCores
      ∧ a.series = [s] ∧ a.summaryRow = s.values
      ∧ s.stack.total = Amount.mean (summary.map (·.stack.total))
      ∧ (options.view ≠ .cpi → s.total = Amount.mean (summary.map (·.total)))
      ∧ (options.collapse = false →
          a.names = r.names
          ∧ (options.view ≠ .cpi → s.values = r.summaryRow)
          ∧ (options.view = .cpi → s.values = r.names.map fun name =>
              Amount.ratio (summary.map fun t => (t.stack.get? name).getD 0).sum
                (r.summaryCores.map (Amount.getAt r.gauge.instructions)).sum)) := by
  obtain ⟨hvalid, hcores, rec, hrec, rfl⟩ := Report.compute_eq_ok.1 hr
  obtain ⟨-, -, rec', hrec', rfl⟩ := Report.compute_eq_ok.1 ha
  obtain rfl := Except.ok.inj (hrec.symm.trans hrec')
  have hselected := Options.selectedCores_ne_nil run.ncores_pos hvalid hcores
  refine ⟨(rec.passing run.ncores options).map (Report.eachSeries rec run.ncores tree options),
    Report.meanSeries rec run.ncores tree options, ?_, ?_, ?_, ?_, ?_, ?_, ?_⟩
  · intro t ht
    obtain ⟨core, hcore, rfl⟩ := List.mem_map.1 ht
    rw [Report.series_ofReconciliation]
    exact List.mem_map_of_mem (Reconciliation.mem_selectedCores_of_mem_passing hcore)
  · rw [List.map_map]
    exact List.map_id' _
  · rw [Report.series_ofReconciliation]
    rfl
  · exact Report.summaryRow_mean rec run.ncores tree
  · rw [Report.mean_map_eachSeries]
    exact Report.total_stack_meanSeries rec run.ncores tree options
  · intro hview
    rw [Report.mean_map_eachSeries]
    exact Report.total_meanSeries rec run.ncores tree options hview
  · intro hcollapse
    have hnames := Report.names_mean_eq_names_each rec run.ncores tree hcollapse hselected
    refine ⟨hnames, ?_, ?_⟩
    · intro hview
      exact Report.values_meanSeries rec run.ncores tree hcollapse hview hnames
    · intro hview
      rw [← hnames]
      exact Report.values_meanSeries_cpi rec run.ncores tree hcollapse hview

/-- Options that show everything, in a view and with a filter on the compute fraction. -/
def uncollapsed (view : View) (least : Option ℚ) : Options ℚ :=
  { unfiltered false with view, collapse := false, minComputeFraction := least }

lemma compute_uncollapsed (view : View) (least : Option ℚ) (aggregate : Bool)
    (h : (uncollapsed view least).validate = .ok ()) : ∃ report : Report ℚ,
    Report.compute ⟨.empty, 1⟩ branchingRun ⟨hyphenatedRoots⟩
      { uncollapsed view least with aggregate } = .ok report :=
  ⟨_, Report.compute_eq_ok.2 ⟨h, rfl, _, rfl, rfl⟩⟩

/-- In the view of time, and per instruction where no core computes for all of the time. -/
theorem mean_branchingRun :
    (∃ (r a : Report ℚ) (s : Series ℚ),
      Report.compute ⟨.empty, 1⟩ branchingRun ⟨hyphenatedRoots⟩
          { uncollapsed .time none with aggregate := false } = .ok r
        ∧ Report.compute ⟨.empty, 1⟩ branchingRun ⟨hyphenatedRoots⟩
          { uncollapsed .time none with aggregate := true } = .ok a
        ∧ a.series = [s] ∧ s.values = [5 / 12, 13 / 24, 1 / 24])
      ∧ ∃ (r a : Report ℚ) (s : Series ℚ),
        Report.compute ⟨.empty, 1⟩ branchingRun ⟨hyphenatedRoots⟩
            { uncollapsed .cpi (some 1) with aggregate := false } = .ok r
          ∧ Report.compute ⟨.empty, 1⟩ branchingRun ⟨hyphenatedRoots⟩
            { uncollapsed .cpi (some 1) with aggregate := true } = .ok a
          ∧ a.series = [s] ∧ s.stack.total = 0 ∧ s.values = [0, 0, 0] := by
  constructor
  · obtain ⟨r, hr, hrow⟩ : ∃ r, Report.compute ⟨.empty, 1⟩ branchingRun ⟨hyphenatedRoots⟩
        { uncollapsed .time none with aggregate := false } = .ok r
          ∧ r.summaryRow = [5 / 12, 13 / 24, 1 / 24] := ⟨_, rfl, by decide +kernel⟩
    obtain ⟨a, ha⟩ := compute_uncollapsed .time none true rfl
    obtain ⟨_, s, _, _, hs, _, _, _, hvalues⟩ := mean_compute hr ha
    obtain ⟨-, htime, -⟩ := hvalues rfl
    exact ⟨r, a, s, hr, ha, hs, (htime (by decide)).trans hrow⟩
  · obtain ⟨r, hr, hnames, hnone⟩ :
        ∃ r, Report.compute ⟨.empty, 1⟩ branchingRun ⟨hyphenatedRoots⟩
          { uncollapsed .cpi (some 1) with aggregate := false } = .ok r
          ∧ r.names.length = 3 ∧ r.summaryCores = [] := ⟨_, rfl, by decide +kernel⟩
    obtain ⟨a, ha⟩ := compute_uncollapsed .cpi (some 1) true rfl
    obtain ⟨summary, s, -, hcores, hs, -, htotal, -, hvalues⟩ := mean_compute hr ha
    obtain ⟨-, -, hcpi⟩ := hvalues rfl
    have hsummary : summary = [] := by simpa [hnone] using hcores
    refine ⟨r, a, s, hr, ha, hs, ?_, ?_⟩
    · simpa [hsummary] using htotal
    · rw [hcpi rfl, hsummary, hnone]
      simp [hnames]

end CycleAccounting
