import CycleAccounting.Proofs.Reconciliation
import CycleAccounting.Proofs.Stack
import CycleAccounting.Report.Basic

/-!
# What a report accounts for

A report is the composition of reconciliation, selection and aggregation, and each of them keeps
cycles.  A settled ledger adds up to the budget of its core (`total_settledLedger`), a tree reads
some of the categories and the diagnostics name the others (`sum_read_unused`), and the entries of
a stack add up to what its tree reads (`sum_entries`).

**`accounted_compute`** puts these together: in every series the entries and the unused categories
add up to the budget of the core, and in the mean of several cores to the mean of their budgets.
-/

namespace CycleAccounting

/-! ## Unused categories -/

/-- The category of a diagnostic about one that no node reads. -/
def Diagnostic.unusedCategory? : Diagnostic → Option String
  | unusedKey category => some category
  | _ => none

/-- The categories that a report says are unused. -/
def Report.unusedCategories {α : Type} (report : Report α) : List String :=
  report.diagnostics.filterMap (·.unusedCategory?)

lemma Report.mem_unusedCategories {α : Type} {report : Report α} {k : String} :
    k ∈ report.unusedCategories ↔ .unusedKey k ∈ report.diagnostics := by
  rw [unusedCategories, List.mem_filterMap]
  constructor
  · rintro ⟨d, hd, hcategory⟩
    cases d with
    | unusedKey category => exact Option.some.inj hcategory ▸ hd
    | unmappedCounter => cases hcategory
    | unknownUnit => cases hcategory
  · intro h
    exact ⟨_, h, rfl⟩

section Unused

variable {α : Type}

/-- What is found on a counter is about that counter. -/
lemma Counter.finding?_cases {c : Counter α} {tables : Tables α} {d : Diagnostic}
    (h : c.finding? tables = some d) :
    d = .unmappedCounter c.name ∨ ∃ unit, d = .unknownUnit c.name unit := by
  rw [finding?] at h
  split at h
  · split_ifs at h
    exact .inl (Option.some.inj h).symm
  · split at h
    · exact .inr ⟨_, (Option.some.inj h).symm⟩
    · split_ifs at h
      exact .inl (Option.some.inj h).symm
  · cases h

lemma Run.mem_findings_iff (run : Run α) (tables : Tables α) (d : Diagnostic) :
    d ∈ run.findings tables ↔ ∃ c ∈ run.classified, c.finding? tables = some d := by
  rw [findings, List.mem_append, List.mem_filter, List.mem_filter, ← List.mem_filterMap]
  cases d.isUnmapped <;> simp

lemma Run.filterMap_findings (run : Run α) (tables : Tables α) :
    (run.findings tables).filterMap (·.unusedCategory?) = [] := by
  refine List.filterMap_eq_nil_iff.2 ?_
  intro d hd
  obtain ⟨c, -, hc⟩ := (run.mem_findings_iff tables d).1 hd
  rcases Counter.finding?_cases hc with rfl | ⟨unit, rfl⟩ <;> rfl

lemma Tree.filterMap_unusedKeys (tree : Tree α) (books : Books α) :
    (tree.unusedKeys books).filterMap (·.unusedCategory?) = tree.unread books := by
  rw [unusedKeys, List.filterMap_map]
  exact List.filterMap_some

lemma Report.diagnostics_ofReconciliation [Amount α] {run : Run α} {tables : Tables α}
    {r : Reconciliation α} (h : run.reconcile tables = .ok r) (ncores : ℕ) (tree : Tree α)
    (options : Options α) :
    (ofReconciliation r ncores tree options).diagnostics
      = run.findings tables ++ tree.unusedKeys r.books := by
  obtain ⟨-, -, -, hfindings⟩ := run.reconcile_eq_ok tables h
  rw [← hfindings]
  rfl

/-- **The diagnostics of a report name exactly the categories that its tree does not read.** -/
theorem Report.unusedCategories_ofReconciliation [Amount α] {run : Run α} {tables : Tables α}
    {r : Reconciliation α} (h : run.reconcile tables = .ok r) (tree : Tree α)
    (options : Options α) :
    (ofReconciliation r run.ncores tree options).unusedCategories = tree.unread r.books := by
  rw [unusedCategories, diagnostics_ofReconciliation h, List.filterMap_append,
    run.filterMap_findings, tree.filterMap_unusedKeys, List.nil_append]

end Unused

/-- **What a tree reads and what it does not read make up a core**, if it reads nothing twice. -/
theorem Tree.sum_read_unused {tree : Tree ℚ} (hkeys : tree.keys.Nodup) (books : Books ℚ)
    (core : ℕ) :
    ((tree.keys ++ tree.unread books).map (books.amount core)).sum = books.total core := by
  have hnodup : (tree.keys ++ tree.unread books).Nodup := by
    refine hkeys.append ((Catalog.nodup_unionNames _).filter _) ?_
    intro k hk hunread
    have hnot := List.of_mem_filter hunread
    simp [hk] at hnot
  rw [Books.total]
  cases hl : books.cores[core]? with
  | none =>
      have hzero : books.amount core = fun _ => 0 := by
        funext k
        rw [Books.amount, hl]
      rw [hzero]
      simp
  | some l =>
      have hamount : books.amount core = l.amount := by
        funext k
        rw [Books.amount, hl]
      rw [hamount]
      refine l.sum_map_amount hnodup ?_
      intro k hk
      have hcategory : k ∈ books.categories :=
        (Catalog.mem_unionNames _ k).2 ⟨l, List.mem_of_getElem? hl, hk⟩
      by_cases hread : k ∈ tree.keys
      · exact List.mem_append_left _ hread
      · exact List.mem_append_right _ (List.mem_filter.2 ⟨hcategory, by simpa using hread⟩)

/-! ## Budgets -/

section Budgets

variable {α : Type} {run : Run α}

lemma Run.length_perCore? {name : String} {values : List α}
    (h : run.perCore? name = some (.ok values)) : values.length = run.ncores := by
  rw [perCore?, Option.map_eq_some_iff] at h
  obtain ⟨carried, -, h⟩ := h
  split_ifs at h with hshort
  rw [← Except.ok.inj h, List.length_take]
  omega

variable [Amount α]

lemma TimeBasis.length_scale_reported {basis : TimeBasis α} (h : reported run = .ok basis) :
    basis.scale.length = run.ncores := by
  rw [reported] at h
  split at h
  · next htimes hscale =>
      obtain ⟨times, -, h⟩ := bind_eq_ok.1 h
      obtain ⟨scale, rfl, h⟩ := bind_eq_ok.1 h
      rw [← Except.ok.inj h]
      exact Run.length_perCore? hscale
  · split at h
    · obtain ⟨cycles, -, h⟩ := bind_eq_ok.1 h
      rw [← Except.ok.inj h]
      exact List.length_replicate
    · cases h

lemma TimeBasis.scale_skip (basis : TimeBasis α) (skipped : List α) :
    (basis.skip skipped).scale = basis.scale := by
  rw [skip]
  split_ifs <;> rfl

/-- Every core of a run has its own scale. -/
lemma TimeBasis.length_scale {basis : TimeBasis α} (h : ofRun run = .ok basis) :
    basis.scale.length = run.ncores := by
  rw [ofRun, bind_eq_ok] at h
  obtain ⟨unskipped, hreported, h⟩ := h
  rw [← Except.ok.inj h, ← length_scale_reported hreported]
  split
  · rw [scale_skip]
  · rfl

end Budgets

/-- The budget of a core is the longest time in its cycles. -/
lemma TimeBasis.coreCycles_eq {run : Run ℚ} {basis : TimeBasis ℚ} (h : ofRun run = .ok basis)
    {core : ℕ} (hcore : core < run.ncores) : ∃ factor, basis.scale[core]? = some factor
      ∧ basis.coreCycles core = factor * basis.times.foldl max 0 := by
  have hlt : core < basis.scale.length := hcore.trans_eq (length_scale h).symm
  refine ⟨basis.scale[core], List.getElem?_eq_getElem hlt, ?_⟩
  rw [coreCycles, maxTime_eq, Amount.getAt, List.getElem?_eq_getElem hlt]
  rfl

/-! ## The way of a report -/

lemma mapError_eq_ok {ε ε' β : Type} {f : ε → ε'} {x : Except ε β} {b : β} :
    x.mapError f = .ok b ↔ x = .ok b := by
  cases x <;> simp [Except.mapError]

/-- A report is the one of a reconciliation, if the options stand their checks. -/
lemma Report.compute_eq_ok {α : Type} [Amount α] {tables : Tables α} {run : Run α} {tree : Tree α}
    {options : Options α} {report : Report α} :
    compute tables run tree options = .ok report
      ↔ options.validate = .ok () ∧ options.validateCores run.ncores = .ok ()
        ∧ ∃ r, run.reconcile tables = .ok r
          ∧ report = ofReconciliation r run.ncores tree options := by
  simp only [compute, bind_eq_ok, mapError_eq_ok]
  constructor
  · rintro ⟨⟨⟩, hoptions, ⟨⟩, hcores, r, hr, hreport⟩
    exact ⟨hoptions, hcores, r, hr, (Except.ok.inj hreport).symm⟩
  · rintro ⟨hoptions, hcores, r, hr, rfl⟩
    exact ⟨_, hoptions, _, hcores, r, hr, rfl⟩

/-- A report is transformed if the reconciliation it comes from is, and the checks of the options
come out the same. -/
lemma Report.compute_eq_map {α : Type} [Amount α] {tables : Tables α} {run run' : Run α}
    {tree : Tree α} {options options' : Options α} {f : Reconciliation α → Reconciliation α}
    {g : Report α → Report α} (hoptions : options'.validate = options.validate)
    (hcores : options'.validateCores run'.ncores = options.validateCores run.ncores)
    (hreconciled : run'.reconcile tables = (run.reconcile tables).map f)
    (hreport : ∀ r, ofReconciliation (f r) run'.ncores tree options'
      = g (ofReconciliation r run.ncores tree options)) :
    compute tables run' tree options' = (compute tables run tree options).map g := by
  rw [compute, compute, hoptions, hcores, hreconciled]
  cases options.validate with
  | error e => rfl
  | ok _ =>
      cases options.validateCores run.ncores with
      | error e => rfl
      | ok _ =>
          cases run.reconcile tables with
          | error e => rfl
          | ok r => exact congrArg Except.ok (hreport r)

lemma Options.lt_of_mem_selectedCores {α : Type} {options : Options α} {ncores core : ℕ}
    (h : core ∈ options.selectedCores ncores) : core < ncores := by
  rw [selectedCores] at h
  split at h
  · exact List.mem_range.1 (List.mem_of_mem_filter h)
  · exact List.mem_range.1 h

/-- The filter keeps the order of the cores. -/
lemma Books.summaryCores_sublist {α : Type} [Amount α] (books : Books α) (cores : List ℕ)
    (budget : α) (least : Option α) :
    (books.summaryCores cores budget least).Sublist cores := by
  rw [summaryCores.eq_def]
  split
  · split_ifs
    · exact List.filter_sublist
    · exact List.Sublist.refl _
  · exact List.Sublist.refl _

/-- The selected cores that pass the filter on the compute fraction. -/
def Reconciliation.passing {α : Type} [Amount α] (r : Reconciliation α) (ncores : ℕ)
    (options : Options α) : List ℕ :=
  r.books.summaryCores (options.selectedCores ncores) r.basis.referenceCycles
    options.minComputeFraction

lemma Reconciliation.passing_sublist {α : Type} [Amount α] (r : Reconciliation α) (ncores : ℕ)
    (options : Options α) : (r.passing ncores options).Sublist (options.selectedCores ncores) :=
  r.books.summaryCores_sublist _ _ _

lemma Reconciliation.mem_selectedCores_of_mem_passing {α : Type} [Amount α]
    {r : Reconciliation α} {ncores : ℕ} {options : Options α} {core : ℕ}
    (h : core ∈ r.passing ncores options) : core ∈ options.selectedCores ncores :=
  (r.passing_sublist ncores options).subset h

lemma Reconciliation.lt_of_mem_passing {α : Type} [Amount α] {r : Reconciliation α} {ncores : ℕ}
    {options : Options α} {core : ℕ} (h : core ∈ r.passing ncores options) : core < ncores :=
  Options.lt_of_mem_selectedCores (mem_selectedCores_of_mem_passing h)

/-- The mean of an amount over some cores, of no cores zero. -/
def averaged (cores : List ℕ) (amount : ℕ → ℚ) : ℚ := (cores.map amount).sum / cores.length

lemma averaged_add (cores : List ℕ) (f g : ℕ → ℚ) :
    averaged cores (fun core => f core + g core) = averaged cores f + averaged cores g := by
  rw [averaged, List.sum_map_add, add_div]
  rfl

/-- The mean of sums is the sum of the means. -/
lemma sum_map_averaged (names : List String) (cores : List ℕ) (amount : ℕ → String → ℚ) :
    (names.map fun k => averaged cores (amount · k)).sum
      = averaged cores fun core => (names.map (amount core)).sum := by
  induction names with
  | nil => simp [averaged]
  | cons k rest ih =>
      simp only [List.map_cons, List.sum_cons]
      rw [averaged_add, ih]

section Accounted

variable {tables : Tables ℚ} {run : Run ℚ} {tree : Tree ℚ} {options : Options ℚ}
  {r : Reconciliation ℚ}

/-- The ledger of every core of a run adds up to its budget. -/
lemma total_reconciled (h : run.reconcile tables = .ok r) {core : ℕ} (hcore : core < run.ncores) :
    r.books.total core = r.basis.coreCycles core := by
  rw [Books.total, cores_reconciled h hcore]
  exact run.total_settledLedger tables r.basis core

/-- **A core is accounted for**: its stack and what the tree does not read make up its budget. -/
lemma accounted_core (h : run.reconcile tables = .ok r) (hkeys : tree.keys.Nodup) {core : ℕ}
    (hcore : core < run.ncores) (collapse : Bool) :
    (tree.stackOf collapse r.books core).total
        + ((tree.unread r.books).map (r.books.amount core)).sum
      = r.basis.coreCycles core := by
  rw [← total_reconciled h hcore, ← tree.sum_read_unused hkeys r.books core, List.map_append,
    List.sum_append, Tree.stackOf, Tree.total_stack]
  rfl

/-- **The mean of some cores is accounted for**, with the mean of what is not read. -/
lemma accounted_mean (h : run.reconcile tables = .ok r) (hkeys : tree.keys.Nodup) {cores : List ℕ}
    (hcores : ∀ core ∈ cores, core < run.ncores) (collapse : Bool) :
    (tree.stackOf collapse (r.books.meanOver cores) 0).total
        + ((tree.unread r.books).map fun k => averaged cores (r.books.amount · k)).sum
      = averaged cores r.basis.coreCycles := by
  have hamount : (r.books.meanOver cores).amount 0
      = fun k => averaged cores (r.books.amount · k) :=
    funext fun k => r.books.amount_meanLedger cores k
  have hbudgets : cores.map (fun core =>
        ((tree.keys ++ tree.unread r.books).map (r.books.amount core)).sum)
      = cores.map r.basis.coreCycles := by
    refine List.map_congr_left ?_
    intro core hcore
    rw [tree.sum_read_unused hkeys, total_reconciled h (hcores core hcore)]
  rw [Tree.stackOf, Tree.total_stack, Tree.cycles, hamount, ← List.sum_append, ← List.map_append,
    sum_map_averaged, averaged, hbudgets]
  rfl

/-- **A report accounts for every cycle.**  In the series of each core the entries add up to the
total, and the total and the categories reported as unused to the core's budget, the longest time
in its cycles.  The series of a mean has the mean of the budgets, over the cores that pass the
filter. -/
theorem accounted_compute {report : Report ℚ}
    (h : Report.compute tables run tree options = .ok report) (hkeys : tree.keys.Nodup) :
    ∃ r, run.reconcile tables = .ok r ∧ report.gauge.basis = r.basis
      ∧ (options.aggregate = false →
          report.series.map (·.core) = options.selectedCores run.ncores
          ∧ ∀ s ∈ report.series,
            (s.stack.entries.map (·.2)).sum = s.stack.total
            ∧ s.stack.total + (report.unusedCategories.map (r.books.amount s.core)).sum
              = r.basis.coreCycles s.core
            ∧ ∃ factor, r.basis.scale[s.core]? = some factor
              ∧ r.basis.coreCycles s.core = factor * r.basis.times.foldl max 0)
      ∧ (options.aggregate = true →
          ∃ s, report.series = [s]
            ∧ (s.stack.entries.map (·.2)).sum = s.stack.total
            ∧ s.stack.total + (report.unusedCategories.map fun k =>
                averaged (r.passing run.ncores options) (r.books.amount · k)).sum
              = averaged (r.passing run.ncores options) r.basis.coreCycles) := by
  obtain ⟨-, -, r, hr, rfl⟩ := Report.compute_eq_ok.1 h
  obtain ⟨-, hbasis, -, -⟩ := run.reconcile_eq_ok tables hr
  have hentries (books : Books ℚ) (core : ℕ) :
      ((tree.stackOf options.collapse books core).entries.map (·.2)).sum
        = (tree.stackOf options.collapse books core).total :=
    (tree.sum_entries _ _).trans (tree.total_stack _ _).symm
  rw [Report.unusedCategories_ofReconciliation hr]
  refine ⟨r, hr, rfl, ?_, ?_⟩
  · intro heach
    have hselect : r.select run.ncores options
        = r.eachCore (options.selectedCores run.ncores) (r.passing run.ncores options) := by
      rw [Reconciliation.select, heach]
      rfl
    rw [Report.ofReconciliation, hselect]
    dsimp only [Reconciliation.eachCore]
    simp only [List.map_map]
    refine ⟨List.map_id' _, ?_⟩
    intro s hs
    obtain ⟨core, hcore, rfl⟩ := List.mem_map.1 hs
    have hlt := Options.lt_of_mem_selectedCores hcore
    exact ⟨hentries _ _, accounted_core hr hkeys hlt _, TimeBasis.coreCycles_eq hbasis hlt⟩
  · intro hmean
    have hselect : r.select run.ncores options = r.meanCore (r.passing run.ncores options) := by
      rw [Reconciliation.select, hmean]
      rfl
    rw [Report.ofReconciliation, hselect]
    exact ⟨_, rfl, hentries _ _,
      accounted_mean hr hkeys (fun _ => Reconciliation.lt_of_mem_passing) _⟩

/-- A tree that reads two of the categories of `contendedRun`. -/
def contendedTree : Tree ℚ :=
  ⟨[.leaf "base" (1 / 100) (.category Category.base),
    .leaf "issue" (1 / 2) (.category Category.issue)]⟩

/-- Options without a filter on the compute fraction. -/
def unfiltered (aggregate : Bool) : Options ℚ :=
  { (Options.standard : Options ℚ) with minComputeFraction := none, aggregate }

lemma compute_contendedRun : ∃ r, contendedRun.reconcile branchTables = .ok r
    ∧ r.basis = ⟨[100, 120], [1, 2], 1⟩
    ∧ ∀ aggregate, ∃ report,
      Report.compute branchTables contendedRun contendedTree (unfiltered aggregate)
        = .ok report := by
  obtain ⟨r, hr, hbasis⟩ := reconcile_contendedRun
  refine ⟨r, hr, hbasis, ?_⟩
  intro aggregate
  exact ⟨_, Report.compute_eq_ok.2 ⟨rfl, rfl, r, hr, rfl⟩⟩

/-- The budgets of the two cores are 120 and 240 cycles, and their mean is 180. -/
theorem accounted_contendedRun : ∃ r : Reconciliation ℚ,
    contendedRun.reconcile branchTables = .ok r ∧ contendedTree.keys.Nodup
      ∧ (∃ report : Report ℚ,
        Report.compute branchTables contendedRun contendedTree (unfiltered false) = .ok report
          ∧ report.series.map (·.core) = [0, 1]
          ∧ ∀ s ∈ report.series,
            s.stack.total + (report.unusedCategories.map (r.books.amount s.core)).sum
              = if s.core = 0 then 120 else 240)
      ∧ ∃ (report : Report ℚ) (s : Series ℚ),
        Report.compute branchTables contendedRun contendedTree (unfiltered true) = .ok report
          ∧ report.series = [s]
          ∧ s.stack.total
              + (report.unusedCategories.map fun k => averaged [0, 1] (r.books.amount · k)).sum
            = 180 := by
  have hkeys : contendedTree.keys.Nodup := by decide
  obtain ⟨r, hr, hbasis, hcompute⟩ := compute_contendedRun
  refine ⟨r, hr, hkeys, ?_, ?_⟩
  · obtain ⟨report, h⟩ := hcompute false
    obtain ⟨r', hr', -, heach, -⟩ := accounted_compute h hkeys
    obtain rfl := Except.ok.inj (hr.symm.trans hr')
    obtain ⟨hcores, hseries⟩ := heach rfl
    have hselected : (unfiltered false).selectedCores contendedRun.ncores = [0, 1] := rfl
    rw [hselected] at hcores
    refine ⟨report, h, hcores, ?_⟩
    intro s hs
    obtain ⟨-, htotal, -⟩ := hseries s hs
    have hcore : s.core = 0 ∨ s.core = 1 := by
      have hmem : s.core ∈ [0, 1] := hcores ▸ List.mem_map_of_mem hs
      simpa using hmem
    rw [htotal, hbasis]
    rcases hcore with hcore | hcore <;> rw [hcore] <;> decide +kernel
  · obtain ⟨report, h⟩ := hcompute true
    obtain ⟨r', hr', -, -, hmean⟩ := accounted_compute h hkeys
    obtain rfl := Except.ok.inj (hr.symm.trans hr')
    obtain ⟨s, hs, -, htotal⟩ := hmean rfl
    have hpassing : r.passing contendedRun.ncores (unfiltered true) = [0, 1] := rfl
    rw [hpassing, hbasis] at htotal
    refine ⟨report, s, h, hs, htotal.trans ?_⟩
    decide +kernel

end Accounted

end CycleAccounting
