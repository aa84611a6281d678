import CycleAccounting.Proofs.Series

/-!
# Core filters

A core filter decides what is shown of a report and nothing else.  `Report.restrict` takes from a
report the series of some cores, the names that these show, and the cores of the summary among them,
and **`compute_showing`** says that the report with a filter is what the filter leaves of the report
without one: budgets, instruction counts and diagnostics stay those of the whole run, and every
value stays as it was.  Whether a filter lists its cores in order, or more than once, makes no
difference.
-/

namespace CycleAccounting

variable {α : Type}

/-! ## Restricted reports -/

/-- The series of some cores. -/
def Report.seriesOf (cores : List ℕ) (report : Report α) : List (Series α) :=
  report.series.filter (cores.contains ·.core)

/-- The names that the stacks of some cores show. -/
def Report.namesOf (cores : List ℕ) (report : Report α) : List String :=
  (report.seriesOf cores).flatMap (·.stack.names)

/-- What a report shows of some cores: their series, with the values of the names that they show. -/
def Report.restrict (cores : List ℕ) (report : Report α) : Report α :=
  { report with
    names := report.names.filter (report.namesOf cores).contains
    series := (report.seriesOf cores).map fun s =>
      { s with
        values := ((report.names.zip s.values).filter ((report.namesOf cores).contains ·.1)).map
          (·.2) }
    summaryCores := report.summaryCores.filter cores.contains }

/-- Each of the cores that a filter lets through is shown, all of them if there is none. -/
def Options.showing (filter : Option (List ℕ)) (options : Options α) : Options α :=
  { options with aggregate := false, cores := filter }

/-- Values that are computed from names are left out with their names. -/
lemma map_snd_filter_zip_map {β γ : Type} (f : β → γ) (p : β → Bool) (xs : List β) :
    ((xs.zip (xs.map f)).filter (p ·.1)).map (·.2) = (xs.filter p).map f := by
  induction xs with
  | nil => rfl
  | cons x rest ih =>
      rw [List.map_cons, List.zip_cons_cons, List.filter_cons, List.filter_cons]
      split_ifs
      · rw [List.map_cons, ih, List.map_cons]
      · exact ih

/-- The names that some of several stacks show are among those that all of them show. -/
lemma Tree.shownNames_of_subset (tree : Tree α) {some all : List (Stack α)} (h : some ⊆ all) :
    tree.shownNames some = (tree.shownNames all).filter (some.flatMap (·.names)).contains := by
  rw [shownNames, shownNames, List.filter_filter]
  refine List.filter_congr ?_
  intro name _
  rw [Bool.eq_iff_iff, Bool.and_eq_true, List.contains_iff_mem, List.contains_iff_mem]
  constructor
  · intro hname
    obtain ⟨s, hs, hin⟩ := List.mem_flatMap.1 hname
    exact ⟨hname, List.mem_flatMap.2 ⟨s, h hs, hin⟩⟩
  · exact And.left

variable [Amount α]

/-- Whether a core counts in the summary is decided for each by itself. -/
lemma Books.summaryCores_filter (books : Books α) (cores : List ℕ) (budget : α)
    (least : Option α) (p : ℕ → Bool) :
    books.summaryCores (cores.filter p) budget least
      = (books.summaryCores cores budget least).filter p := by
  rw [summaryCores.eq_def, summaryCores.eq_def]
  split
  · split_ifs
    · exact List.filter_comm ..
    · rfl
  · rfl

namespace Report

section Restricted

variable (r : Reconciliation α) (ncores : ℕ) (tree : Tree α) (options : Options α)
  (filter : List ℕ)

lemma passing_showing : r.passing ncores (options.showing (some filter))
    = (r.passing ncores (options.showing none)).filter filter.contains :=
  r.books.summaryCores_filter (List.range ncores) _ _ _

/-- The series that a filter keeps. -/
lemma seriesOf_showing : (ofReconciliation r ncores tree (options.showing none)).seriesOf filter
    = ((List.range ncores).filter filter.contains).map
        (seriesAt r ncores tree (options.showing none)) := by
  rw [seriesOf, series_ofReconciliation, List.filter_map]
  rfl

lemma names_showing : (ofReconciliation r ncores tree (options.showing (some filter))).names
    = (ofReconciliation r ncores tree (options.showing none)).names.filter
        ((ofReconciliation r ncores tree (options.showing none)).namesOf filter).contains := by
  have hstacks : (ofReconciliation r ncores tree (options.showing (some filter))).series.map
        (·.stack)
      = ((ofReconciliation r ncores tree (options.showing none)).seriesOf filter).map
          (·.stack) := by
    rw [seriesOf_showing, series_ofReconciliation, List.map_map, List.map_map]
    rfl
  have hsubset : (ofReconciliation r ncores tree (options.showing none)).seriesOf filter
      ⊆ (ofReconciliation r ncores tree (options.showing none)).series := by
    intro s hs
    exact List.mem_of_mem_filter hs
  rw [names_ofReconciliation, hstacks, tree.shownNames_of_subset (List.map_subset _ hsubset),
    ← names_ofReconciliation, List.flatMap_map, namesOf]

/-- The values of the names that a filter keeps. -/
lemma values_seriesAt_showing (core : ℕ) :
    (seriesAt r ncores tree (options.showing (some filter)) core).values
      = (((ofReconciliation r ncores tree (options.showing none)).names.zip
          (seriesAt r ncores tree (options.showing none) core).values).filter
            (((ofReconciliation r ncores tree (options.showing none)).namesOf filter).contains
              ·.1)).map (·.2) := by
  -- Stack and gauge are the same with the filter and without it; only the list of names differs.
  rw [seriesAt, seriesAt, names_showing]
  exact (map_snd_filter_zip_map _ _ _).symm

/-- **The report with a filter is what the filter leaves of the report without one.** -/
theorem ofReconciliation_showing :
    ofReconciliation r ncores tree (options.showing (some filter))
      = (ofReconciliation r ncores tree (options.showing none)).restrict filter := by
  have hseries : (ofReconciliation r ncores tree (options.showing (some filter))).series
      = ((ofReconciliation r ncores tree (options.showing none)).restrict filter).series := by
    rw [series_ofReconciliation, restrict]
    dsimp only
    rw [seriesOf_showing, List.map_map]
    refine List.map_congr_left ?_
    intro core _
    exact Series.ext rfl rfl (values_seriesAt_showing r ncores tree options filter core) rfl
  exact Report.ext rfl (names_showing r ncores tree options filter) hseries
    (passing_showing r ncores options filter) rfl rfl rfl

variable {r ncores tree options filter}

/-- A core has the same value with the filter and without it. -/
lemma value?_showing {core : ℕ} (hcore : core ∈ (List.range ncores).filter filter.contains)
    {name : String}
    (hname : name ∈ (ofReconciliation r ncores tree (options.showing (some filter))).names) :
    ∃ value,
      (ofReconciliation r ncores tree (options.showing (some filter))).value? core name
          = some value
        ∧ (ofReconciliation r ncores tree (options.showing none)).value? core name
          = some value := by
  have hall : name ∈ (ofReconciliation r ncores tree (options.showing none)).names := by
    rw [names_showing] at hname
    exact List.mem_of_mem_filter hname
  have hseries : seriesAt r ncores tree (options.showing (some filter)) core
      ∈ (ofReconciliation r ncores tree (options.showing (some filter))).series := by
    rw [series_ofReconciliation]
    exact List.mem_map_of_mem hcore
  have hseries' : seriesAt r ncores tree (options.showing none) core
      ∈ (ofReconciliation r ncores tree (options.showing none)).series := by
    rw [series_ofReconciliation]
    exact List.mem_map_of_mem (List.mem_of_mem_filter hcore)
  exact ⟨_, value?_ofReconciliation hseries hname, value?_ofReconciliation hseries' hall⟩

end Restricted

omit [Amount α] in
lemma restrict_congr {cores cores' : List ℕ} (h : ∀ core, core ∈ cores ↔ core ∈ cores') :
    (restrict cores : Report α → Report α) = restrict cores' := by
  have hcontains (core : ℕ) : cores.contains core = cores'.contains core := by
    rw [Bool.eq_iff_iff, List.contains_iff_mem, List.contains_iff_mem, h core]
  funext report
  simp only [restrict, namesOf, seriesOf, hcontains, funext hcontains]

end Report

namespace Options

variable {options : Options α} {filter : List ℕ}

lemma validate_showing (h : filter ≠ []) :
    (options.showing (some filter)).validate = (options.showing none).validate := by
  cases hleast : options.minComputeFraction with
  | none => simp [validate, showing, hleast, h]
  | some fraction => simp [validate, showing, hleast, h]

omit [Amount α] in
lemma validateCores_showing {ncores : ℕ} (h : ∀ core ∈ filter, core < ncores) :
    (options.showing (some filter)).validateCores ncores
      = (options.showing none).validateCores ncores := by
  have hnone : filter.find? (ncores ≤ ·) = none := by
    rw [List.find?_eq_none]
    intro core hcore
    simpa using h core hcore
  rw [validateCores, validateCores]
  simp only [showing, Option.getD_some, hnone]
  rfl

end Options

/-- A filter of cores that the run has is no reason for an error. -/
lemma Report.compute_showing_eq {tables : Tables α} {run : Run α} {tree : Tree α}
    {options : Options α} {filter : List ℕ} (hfilter : filter ≠ [])
    (hrange : ∀ core ∈ filter, core < run.ncores) :
    compute tables run tree (options.showing (some filter))
      = (compute tables run tree (options.showing none)).map (·.restrict filter) := by
  have hsame : run.reconcile tables = (run.reconcile tables).map id := by
    cases run.reconcile tables <;> rfl
  exact compute_eq_map (Options.validate_showing hfilter) (Options.validateCores_showing hrange)
    hsame fun r => ofReconciliation_showing r run.ncores tree options filter

/-- **A core filter is a restriction.**  With a filter of cores that the run has, there is a report
if there is one without it, and it is what the filter leaves of that one: the series of the cores of
the filter, in increasing order, with the same stacks and totals; the names that they show; the same
values; the same cores of the summary as far as they are in the filter; and the same basis,
instruction counts and diagnostics.  Filters of the same cores give the same report. -/
theorem compute_showing (tables : Tables α) {run : Run α} (tree : Tree α) (options : Options α)
    {filter : List ℕ} (hfilter : filter ≠ []) (hrange : ∀ core ∈ filter, core < run.ncores) :
    Report.compute tables run tree (options.showing (some filter))
        = (Report.compute tables run tree (options.showing none)).map (·.restrict filter)
      ∧ (∀ r all,
        Report.compute tables run tree (options.showing (some filter)) = .ok r →
        Report.compute tables run tree (options.showing none) = .ok all →
        r.series.map (·.core) = (List.range run.ncores).filter filter.contains
          ∧ r.series.map (fun s => (s.core, s.stack, s.total))
            = (all.seriesOf filter).map (fun s => (s.core, s.stack, s.total))
          ∧ r.names = all.names.filter (all.namesOf filter).contains
          ∧ (∀ core ∈ filter, ∀ name ∈ r.names, ∃ value,
            r.value? core name = some value ∧ all.value? core name = some value)
          ∧ r.summaryCores = all.summaryCores.filter filter.contains
          ∧ r.gauge = all.gauge ∧ r.diagnostics = all.diagnostics)
      ∧ ∀ filter', (∀ core, core ∈ filter' ↔ core ∈ filter) →
        Report.compute tables run tree (options.showing (some filter'))
          = Report.compute tables run tree (options.showing (some filter)) := by
  refine ⟨Report.compute_showing_eq hfilter hrange, ?_, ?_⟩
  · intro r all hr hall
    obtain ⟨-, -, reconciled, hreconciled, rfl⟩ := Report.compute_eq_ok.1 hall
    obtain ⟨-, -, reconciled', hreconciled', rfl⟩ := Report.compute_eq_ok.1 hr
    obtain rfl := Except.ok.inj (hreconciled.symm.trans hreconciled')
    have hrestrict := Report.ofReconciliation_showing reconciled run.ncores tree options filter
    refine ⟨Report.cores_ofReconciliation .., ?_, ?_, ?_, ?_, rfl, rfl⟩
    · rw [hrestrict, Report.restrict, List.map_map]
      rfl
    · rw [hrestrict]
      rfl
    · intro core hcore name hname
      refine Report.value?_showing ?_ hname
      exact List.mem_filter.2 ⟨List.mem_range.2 (hrange core hcore), by simpa using hcore⟩
    · rw [hrestrict]
      rfl
  · intro filter' hsame
    have hfilter' : filter' ≠ [] := by
      obtain ⟨core, hcore⟩ := List.exists_mem_of_ne_nil filter hfilter
      exact List.ne_nil_of_mem ((hsame core).2 hcore)
    have hrange' : ∀ core ∈ filter', core < run.ncores := by
      intro core hcore
      exact hrange core ((hsame core).1 hcore)
    rw [Report.compute_showing_eq hfilter' hrange', Report.compute_showing_eq hfilter hrange,
      Report.restrict_congr hsame]

/-- The first core does not have the remainder of the branch, so that it is left out with the second
core. -/
theorem showing_branchingRun :
    [0, 0] ≠ [] ∧ (∀ core ∈ [0, 0], core < branchingRun.ncores)
      ∧ ∃ r all : Report ℚ,
        Report.compute ⟨.empty, 1⟩ branchingRun ⟨hyphenatedRoots⟩
            ((unfiltered false).showing (some [0, 0])) = .ok r
          ∧ Report.compute ⟨.empty, 1⟩ branchingRun ⟨hyphenatedRoots⟩
            ((unfiltered false).showing none) = .ok all
          ∧ all.names = ["stall-base", "stall-idle", "stall-other"]
          ∧ r.names = ["stall-base", "stall-idle"]
          ∧ r.value? 0 "stall-idle" = all.value? 0 "stall-idle"
          ∧ Report.compute ⟨.empty, 1⟩ branchingRun ⟨hyphenatedRoots⟩
            ((unfiltered false).showing (some [0])) = .ok r := by
  have hnonempty : [0, 0] ≠ [] := List.cons_ne_nil _ _
  have hrange : ∀ core ∈ [0, 0], core < branchingRun.ncores := by decide
  obtain ⟨all, hall, hnames, hshown⟩ : ∃ all : Report ℚ,
      Report.compute ⟨.empty, 1⟩ branchingRun ⟨hyphenatedRoots⟩ ((unfiltered false).showing none)
          = .ok all
        ∧ all.names = ["stall-base", "stall-idle", "stall-other"]
        ∧ all.names.filter (all.namesOf [0, 0]).contains = ["stall-base", "stall-idle"] :=
    ⟨_, rfl, by decide +kernel, by decide +kernel⟩
  obtain ⟨hrestrict, hparts, hsame⟩ :=
    compute_showing ⟨.empty, 1⟩ ⟨hyphenatedRoots⟩ (unfiltered false) hnonempty hrange
  rw [hall] at hrestrict
  obtain ⟨-, -, hrnames, hvalues, -⟩ := hparts _ all hrestrict hall
  rw [hshown] at hrnames
  obtain ⟨value, hvalue, hvalue'⟩ :=
    hvalues 0 List.mem_cons_self "stall-idle" (by rw [hrnames]; decide)
  refine ⟨hnonempty, hrange, _, all, hrestrict, hall, hnames, hrnames, ?_, ?_⟩
  · rw [hvalue, hvalue']
  · rw [hsame [0] (by simp)]
    exact hrestrict

end CycleAccounting
