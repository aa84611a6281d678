import CycleAccounting.Proofs.Mean
import CycleAccounting.Proofs.TimeBasis

/-!
# Indices in range

Lists are read by the index of a core or of a name, and where that happens there is always a value:
a statistic is cut off only where it is long enough, a time basis has a time and a scale for every
core of its run (`TimeBasis.Covers`), and the lists of a report fit together (`Report.InRange`).  So
a report has a value for each of its names on each of its cores, and its summary row leaves out none
of the cores that count (**`inRange_compute`**).
-/

namespace CycleAccounting

variable {α : Type}

/-- Whether a time basis has a time and a scale for every core of a run. -/
structure TimeBasis.Covers (basis : TimeBasis α) (run : Run α) : Prop where
  times : basis.times.length = run.ncores
  scale : basis.scale.length = run.ncores

namespace Report

/-- Whether the lists of a report fit together and fit a run. -/
structure InRange (report : Report α) (run : Run α) : Prop where
  basis : report.gauge.basis.Covers run
  /-- The mean of several cores has one instruction count. -/
  instructions : report.gauge.instructions.length = if report.aggregated then 1 else run.ncores
  series_ne_nil : report.series ≠ []
  increasing : (report.series.map (·.core)).Pairwise (· < ·)
  core_lt : ∀ s ∈ report.series, s.core < report.gauge.instructions.length
  values : ∀ s ∈ report.series, s.values.length = report.names.length
  summary : report.summaryCores.Sublist (report.series.map (·.core))

/-! ## Reading a report -/

namespace InRange

variable {report : Report α} {run : Run α} (h : report.InRange run)
include h

lemma nodup_cores : (report.series.map (·.core)).Nodup := h.increasing.imp Nat.ne_of_lt

/-- There is a value for every name on every core of the report, and for nothing else. -/
lemma isSome_value?_iff (core : ℕ) (name : String) :
    (report.value? core name).isSome = true
      ↔ name ∈ report.names ∧ core ∈ report.series.map (·.core) := by
  constructor
  · intro hsome
    obtain ⟨value, hvalue⟩ := Option.isSome_iff_exists.1 hsome
    obtain ⟨i, hi, hrest⟩ := Option.bind_eq_some_iff.1 hvalue
    obtain ⟨s, hs, -⟩ := Option.bind_eq_some_iff.1 hrest
    constructor
    · by_contra hname
      cases hi.symm.trans (List.idxOf?_eq_none_iff.2 hname)
    · rw [core?] at hs
      have hcore : s.core = core := by simpa using List.find?_some hs
      exact List.mem_map.2 ⟨s, List.mem_of_find?_eq_some hs, hcore⟩
  · rintro ⟨hname, hcore⟩
    obtain ⟨s, hs, rfl⟩ := List.mem_map.1 hcore
    obtain ⟨i, hi, hget⟩ := exists_idxOf? hname
    have hlt : i < s.values.length := by
      rw [h.values s hs]
      exact (List.getElem?_eq_some_iff.1 hget).1
    rw [value?, hi, core?_of_mem h.nodup_cores hs]
    simp [hlt]

/-- A core of the summary has a series in the report, which is found by its index. -/
lemma exists_core? {core : ℕ} (hcore : core ∈ report.summaryCores) :
    ∃ s ∈ report.series, s.core = core ∧ report.core? core = some s := by
  obtain ⟨s, hs, rfl⟩ := List.mem_map.1 (h.summary.subset hcore)
  exact ⟨s, hs, rfl, core?_of_mem h.nodup_cores hs⟩

/-- No core of the summary is left out. -/
lemma map_core_summary :
    (report.summaryCores.filterMap report.core?).map (·.core) = report.summaryCores := by
  have hfound : ∀ core ∈ report.summaryCores, (report.core? core).map (·.core) = some core := by
    intro core hcore
    obtain ⟨s, -, rfl, hs⟩ := h.exists_core? hcore
    rw [hs]
    rfl
  rw [List.map_filterMap, List.filterMap_congr hfound, List.filterMap_some]

variable [Amount α] {index : ℕ}

lemma getElem?_values {s : Series α} (hs : s ∈ report.series)
    (hindex : index < report.names.length) :
    s.values[index]? = some (Amount.getAt s.values index) := by
  have hlt : index < s.values.length := hindex.trans_eq (h.values s hs).symm
  rw [Amount.getAt, List.getElem?_eq_getElem hlt]
  rfl

/-- **The summary row has the mean of a value of each core in the summary**, for every name. -/
lemma exists_summaryRow (hindex : index < report.names.length) : ∃ values : List α,
    values.length = report.summaryCores.length
      ∧ report.summaryCores.map (fun core => (report.core? core).bind (·.values[index]?))
        = values.map some
      ∧ report.summaryRow[index]? = some (Amount.mean values) := by
  have hread : ∀ core ∈ report.summaryCores, (report.core? core).bind (·.values[index]?)
      = (report.core? core).map fun s => Amount.getAt s.values index := by
    intro core hcore
    obtain ⟨s, hs, -, hfound⟩ := h.exists_core? hcore
    rw [hfound, Option.bind_some, Option.map_some]
    exact h.getElem?_values hs hindex
  have hsome : ∀ value ∈ report.summaryCores.map fun core => (report.core? core).map fun s =>
      Amount.getAt s.values index, value.isSome = true := by
    intro value hvalue
    obtain ⟨core, hcore, rfl⟩ := List.mem_map.1 hvalue
    obtain ⟨s, -, -, hfound⟩ := h.exists_core? hcore
    rw [hfound]
    rfl
  refine ⟨(report.summaryCores.filterMap report.core?).map fun s =>
    Amount.getAt s.values index, ?_, ?_, ?_⟩
  · have hcount := congrArg List.length h.map_core_summary
    rwa [List.length_map] at hcount ⊢
  · rw [List.map_congr_left hread, List.map_filterMap,
      List.map_filterMap_some_eq_filter_map_isSome, List.filter_eq_self.2 hsome]
  · rw [summaryRow, List.getElem?_map, List.getElem?_range hindex]
    rfl

end InRange

end Report

/-! ## Reading a run -/

variable [Amount α] {run : Run α}

namespace TimeBasis

lemma covers_reported {basis : TimeBasis α} (h : reported run = .ok basis) : basis.Covers run :=
  ⟨length_times_reported h, length_scale_reported h⟩

lemma covers_ofRun {basis : TimeBasis α} (h : ofRun run = .ok basis) : basis.Covers run :=
  ⟨length_times h, length_scale h⟩

end TimeBasis

/-! ## The lists of a report -/

omit [Amount α] in
lemma Run.length_instructions {counts : List α} (h : run.instructions = .ok counts) :
    counts.length = run.ncores := by
  rw [instructions] at h
  cases houtcome : run.perCore? Stat.instructionCount with
  | none =>
      rw [houtcome] at h
      cases h
  | some outcome =>
      rw [houtcome, Option.getD_some] at h
      rw [h] at houtcome
      exact Run.length_perCore? houtcome

namespace Report

variable {tables : Tables α} {r : Reconciliation α} {tree : Tree α} {options : Options α}

lemma length_instructions_select (h : r.instructions.length = run.ncores) :
    (r.select run.ncores options).instructions.length
      = if options.aggregate then 1 else run.ncores := by
  rw [Reconciliation.select]
  split_ifs
  · rfl
  · exact h

lemma lt_length_instructions (h : r.instructions.length = run.ncores) {core : ℕ}
    (hcore : core ∈ (r.select run.ncores options).cores) :
    core < (r.select run.ncores options).instructions.length := by
  rw [Reconciliation.select] at hcore ⊢
  split_ifs at hcore ⊢
  · rw [List.mem_singleton.1 hcore]
    exact Nat.one_pos
  · exact (Options.lt_of_mem_selectedCores hcore).trans_eq h.symm

lemma cores_select_ne_nil {ncores : ℕ} (h : options.selectedCores ncores ≠ []) :
    (r.select ncores options).cores ≠ [] := by
  rw [Reconciliation.select]
  split_ifs
  · exact List.cons_ne_nil _ _
  · exact h

/-- The lists of a report fit together, if there are cores to show. -/
lemma inRange_ofReconciliation (hr : run.reconcile tables = .ok r)
    (hselected : options.selectedCores run.ncores ≠ []) :
    (ofReconciliation r run.ncores tree options).InRange run := by
  obtain ⟨hinstructions, hbasis, -, -⟩ := run.reconcile_eq_ok tables hr
  have hlength := Run.length_instructions hinstructions
  have hcores := cores_ofReconciliation r run.ncores tree options
  constructor
  case basis => exact TimeBasis.covers_ofRun hbasis
  case instructions => exact length_instructions_select hlength
  case series_ne_nil =>
    intro hnil
    rw [hnil, List.map_nil] at hcores
    exact cores_select_ne_nil hselected hcores.symm
  case increasing =>
    rw [hcores]
    exact pairwise_select r run.ncores options
  case core_lt =>
    intro s hs
    exact lt_length_instructions hlength (hcores ▸ List.mem_map_of_mem hs)
  case values =>
    intro s hs
    rw [series_ofReconciliation] at hs
    obtain ⟨core, -, rfl⟩ := List.mem_map.1 hs
    exact List.length_map _
  case summary =>
    rw [hcores]
    exact summaryCores_select_sublist r run.ncores options

end Report

/-- **No index is out of range.**  Of a statistic that is cut off there are as many values as cores,
and a time basis has a time and a scale for each of them, before and after fast-forwarded time is
taken out.  The lists of a report fit together.  So its values are found for all its names on all
its cores and for nothing else, and its summary row has for each name the mean of as many values as
there are cores in the summary, one read from the series of each. -/
theorem inRange_compute (tables : Tables α) (run : Run α) (tree : Tree α) (options : Options α) :
    (∀ name values, run.perCore? name = some (.ok values) → ∃ carried,
        run.counter? name = some carried ∧ run.ncores ≤ carried.length
          ∧ values = carried.take run.ncores)
      ∧ (∀ basis, TimeBasis.reported run = .ok basis ∨ TimeBasis.ofRun run = .ok basis →
        basis.Covers run ∧ 0 < basis.times.length
          ∧ ∀ core < run.ncores, core < basis.scale.length)
      ∧ ∀ report, Report.compute tables run tree options = .ok report →
        report.InRange run
          ∧ (∀ core name, (report.value? core name).isSome = true
            ↔ name ∈ report.names ∧ core ∈ report.series.map (·.core))
          ∧ (report.summaryCores.filterMap report.core?).map (·.core) = report.summaryCores
          ∧ (∀ s ∈ report.summaryCores.filterMap report.core?, s ∈ report.series
            ∧ ∀ index < report.names.length,
              s.values[index]? = some (Amount.getAt s.values index))
          ∧ report.summaryRow.length = report.names.length
          ∧ ∀ index < report.names.length, ∃ values : List α,
            values.length = report.summaryCores.length
              ∧ report.summaryCores.map
                  (fun core => (report.core? core).bind (·.values[index]?)) = values.map some
              ∧ report.summaryRow[index]? = some (Amount.mean values) := by
  refine ⟨fun _ _ => Run.perCore?_eq_ok, ?_, ?_⟩
  · intro basis hbasis
    have hcovers : basis.Covers run := hbasis.elim TimeBasis.covers_reported TimeBasis.covers_ofRun
    refine ⟨hcovers, run.ncores_pos.trans_eq hcovers.times.symm, ?_⟩
    intro core hcore
    exact hcore.trans_eq hcovers.scale.symm
  · intro report hreport
    obtain ⟨hvalid, hcores, r, hr, rfl⟩ := Report.compute_eq_ok.1 hreport
    have hselected := Options.selectedCores_ne_nil run.ncores_pos hvalid hcores
    have hrange : (Report.ofReconciliation r run.ncores tree options).InRange run :=
      Report.inRange_ofReconciliation hr hselected
    refine ⟨hrange, hrange.isSome_value?_iff, hrange.map_core_summary, ?_, ?_, ?_⟩
    · intro s hs
      obtain ⟨core, -, hfound⟩ := List.mem_filterMap.1 hs
      have hmem := List.mem_of_find?_eq_some hfound
      exact ⟨hmem, fun index => hrange.getElem?_values hmem⟩
    · rw [Report.summaryRow, List.length_map, List.length_range]
    · intro index
      exact hrange.exists_summaryRow

/-- A report of the second core, though it is asked for twice, has nothing on the first.  If the
first is asked for in between, the summary row is the mean of both. -/
theorem inRange_contendedRun : ∃ (basis : TimeBasis ℚ) (report both : Report ℚ),
    TimeBasis.reported contendedRun = .ok basis ∧ basis.Covers contendedRun
      ∧ Report.compute branchTables contendedRun contendedTree
          { unfiltered false with cores := some [1, 1] } = .ok report
      ∧ report.InRange contendedRun ∧ (report.value? 1 "base").isSome = true
      ∧ ¬ (report.value? 0 "base").isSome = true
      ∧ Report.compute branchTables contendedRun contendedTree
          { unfiltered false with cores := some [1, 0, 1] } = .ok both
      ∧ both.summaryCores = [0, 1] ∧ both.summaryRow.length = 2
      ∧ both.summaryRow[0]? = some (Amount.mean [13 / 40, 8 / 15]) := by
  obtain ⟨basis, hbasis⟩ : ∃ basis, TimeBasis.reported contendedRun = .ok basis := ⟨_, rfl⟩
  have hlists : (Report.compute branchTables contendedRun contendedTree
        { unfiltered false with cores := some [1, 1] }).toOption.map
          (fun report => (report.names, report.series.map (·.core)))
      = some (["base", "other"], [1]) := by
    decide +kernel
  obtain ⟨report, hreport, hlists⟩ := exists_ok_of_toOption hlists
  obtain ⟨hnames, hcores⟩ := Prod.mk.inj hlists
  have hreads : (Report.compute branchTables contendedRun contendedTree
        { unfiltered false with cores := some [1, 0, 1] }).toOption.map
          (fun both => (both.names, both.summaryCores,
            [0, 1].map fun core => (both.core? core).bind (·.values[0]?)))
      = some (["base", "other"], [0, 1], [some (13 / 40), some (8 / 15)]) := by
    decide +kernel
  obtain ⟨both, hboth, hreads⟩ := exists_ok_of_toOption hreads
  obtain ⟨hboths, hreads⟩ := Prod.mk.inj hreads
  obtain ⟨hsummary, hread⟩ := Prod.mk.inj hreads
  obtain ⟨-, hbases, hreports⟩ := inRange_compute branchTables contendedRun contendedTree
    { unfiltered false with cores := some [1, 1] }
  obtain ⟨hrange, hvalue, -⟩ := hreports report hreport
  obtain ⟨-, -, hrows⟩ := inRange_compute branchTables contendedRun contendedTree
    { unfiltered false with cores := some [1, 0, 1] }
  obtain ⟨-, -, -, -, hrow, hmeans⟩ := hrows both hboth
  rw [hboths] at hrow hmeans
  obtain ⟨values, -, hvalues, hmean⟩ := hmeans 0 Nat.two_pos
  rw [hsummary, hread] at hvalues
  obtain rfl : [13 / 40, 8 / 15] = values :=
    List.map_injective_iff.2 (Option.some_injective ℚ) hvalues
  refine ⟨basis, report, both, hbasis, (hbases basis (.inl hbasis)).1, hreport, hrange,
    ?_, ?_, hboth, hsummary, hrow, hmean⟩
  · rw [hvalue, hcores, hnames]
    exact ⟨List.mem_cons_self, List.mem_singleton_self 1⟩
  · rw [hvalue, hcores]
    simp

end CycleAccounting
