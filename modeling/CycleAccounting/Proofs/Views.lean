import CycleAccounting.Proofs.Mean
import CycleAccounting.Report.Text
import Mathlib.Tactic.FieldSimp

/-!
# Views

A view is the last step on the way to a report, and everything before it is the same in every view.
`Report.inView` projects the stacks of a report anew, and it makes of the report in one view the
report in another (`ofReconciliation_inView`).  The text of a report shows cycles in all three views
at once: it is made from the stacks (`Report.render_eq`), so that it does not depend on the view
either.

Exactly, a projected value tells the cycles that it stands for, unless the view divides by zero
(`Gauge.tells_project`), and as a projection is linear (`Gauge.exists_factor_on`) the values of a
series add up to its projected total (`sum_values_seriesAt`).  **`compute_inView`** states all of
this of the reports of a run.
-/

namespace CycleAccounting

/-! ## Reports in another view -/

/-- The options with another view. -/
def Options.inView {α : Type} (view : View) (options : Options α) : Options α :=
  { options with view }

section Projected

variable {α : Type} [Amount α]

/-- The report with its stacks projected into another view. -/
def Report.inView (view : View) (report : Report α) : Report α :=
  { report with
    view
    series := report.series.map fun s =>
      { s with
        values := (s.stack.aligned report.names).map (report.gauge.project view · s.core)
        total := report.gauge.project view s.stack.total s.core } }

omit [Amount α] in
/-- Two reports that show the same cycles of the same cores, in views that may differ. -/
structure Report.SameCycles (r r' : Report α) : Prop where
  names : r'.names = r.names
  shown : r'.series.map (fun s => (s.core, s.stack)) = r.series.map (fun s => (s.core, s.stack))
  summaryCores : r'.summaryCores = r.summaryCores
  aggregated : r'.aggregated = r.aggregated
  basis : r'.gauge.basis = r.gauge.basis
  instructions : r'.gauge.instructions = r.gauge.instructions
  diagnostics : r'.diagnostics = r.diagnostics

namespace Report

lemma sameCycles_inView (view : View) (report : Report α) :
    report.SameCycles (report.inView view) where
  names := rfl
  shown := by simp [inView, Function.comp_def]
  summaryCores := rfl
  aggregated := rfl
  basis := rfl
  instructions := rfl
  diagnostics := rfl

lemma ofReconciliation_inView (r : Reconciliation α) (ncores : ℕ) (tree : Tree α)
    (options : Options α) (view : View) :
    ofReconciliation r ncores tree (options.inView view)
      = (ofReconciliation r ncores tree options).inView view := by
  have hselect : r.select ncores (options.inView view) = r.select ncores options := rfl
  simp only [ofReconciliation, inView, hselect, List.map_map]
  rfl

/-- **Another view projects the same report anew**, or fails in the same way. -/
theorem compute_inView_eq (tables : Tables α) (run : Run α) (tree : Tree α) (options : Options α)
    (view : View) :
    compute tables run tree (options.inView view)
      = (compute tables run tree options).map (·.inView view) := by
  refine compute_eq_map rfl rfl (f := id) ?_ ?_
  · cases run.reconcile tables <;> rfl
  · intro r
    exact ofReconciliation_inView r run.ncores tree options view

/-! ## The text of a report -/

variable [DecimalText α]

/-- The lines of one core of a report, told from its stack. -/
def stackLines (gauge : Gauge α) (aggregated : Bool) (shown : ℕ × Stack α) : List String :=
  (if aggregated then [] else [s!"Core {shown.1}"])
    ++ blockLines gauge { core := shown.1, stack := shown.2, values := [], total := 0 }

/-- The text is made from the stacks, and not from what they are projected to. -/
lemma render_eq (report : Report α) : report.render = String.join
    ((header :: (report.series.map fun s => (s.core, s.stack)).flatMap
      (stackLines report.gauge report.aggregated)).map (· ++ "\n")) := by
  rw [render, lines, List.flatMap_map]
  rfl

/-- **Reports of the same cycles have the same text.** -/
theorem SameCycles.render_eq {r r' : Report α} (h : r.SameCycles r') : r'.render = r.render := by
  have hgauge : r'.gauge = r.gauge := by
    rw [Gauge.mk.injEq]
    exact ⟨h.basis, h.instructions⟩
  rw [Report.render_eq, Report.render_eq, h.shown, h.aggregated, hgauge]

end Report

end Projected

/-! ## What a projected value tells -/

namespace Gauge

/-- What a projected value tells about cycles of a core: how many they are, unless the view divides
by zero, where it is zero.  Seconds tell the cycles only if the fast-forward scale is not zero. -/
def Tells (g : Gauge ℚ) (core : ℕ) (cycles value : ℚ) : View → Prop
  | .cpi =>
    (Amount.getAt g.instructions core ≠ 0 → cycles = value * Amount.getAt g.instructions core)
      ∧ (Amount.getAt g.instructions core = 0 → value = 0)
  | .time =>
    (g.basis.referenceCycles ≠ 0 → cycles = value * g.basis.referenceCycles)
      ∧ (g.basis.referenceCycles = 0 → value = 0)
  | .absTime =>
    (Amount.getAt g.basis.scale 0 ≠ 0 → g.basis.fastforwardScale ≠ 0 →
        cycles = value * 10 ^ 15 * Amount.getAt g.basis.scale 0 / g.basis.fastforwardScale)
      ∧ (Amount.getAt g.basis.scale 0 = 0 → value = 0)

/-- **A projection tells the cycles it is of.** -/
theorem tells_project (g : Gauge ℚ) (view : View) (cycles : ℚ) (core : ℕ) :
    g.Tells core cycles (g.project view cycles core) view := by
  cases view with
  | cpi =>
      rw [Tells, project, rate, Amount.ratio_eq]
      exact ⟨fun h => (div_mul_cancel₀ cycles h).symm, fun h => by rw [h, div_zero]⟩
  | time =>
      rw [Tells, project, fraction, Amount.ratio_eq]
      exact ⟨fun h => (div_mul_cancel₀ cycles h).symm, fun h => by rw [h, div_zero]⟩
  | absTime =>
      have hunits : (unitsPerSecond : ℚ) = 10 ^ 15 := by
        rw [unitsPerSecond, Amount.ofNat_eq]
        norm_num
      rw [Tells, project, seconds, Amount.ratio_eq, hunits]
      constructor
      · intro hscale hforward
        field_simp
      · intro hscale
        rw [hscale, div_zero, mul_zero, zero_div]

/-- On each core a projection multiplies by one factor. -/
lemma exists_factor_on (g : Gauge ℚ) (view : View) (core : ℕ) :
    ∃ factor, ∀ cycles, g.project view cycles core = cycles * factor := by
  by_cases hview : view = .cpi
  · refine ⟨(Amount.getAt g.instructions core)⁻¹, ?_⟩
    intro cycles
    rw [hview, project, rate, Amount.ratio_eq, div_eq_mul_inv]
  · obtain ⟨factor, hfactor⟩ := exists_factor g.basis hview
    exact ⟨factor, fun cycles => hfactor g.instructions cycles core⟩

end Gauge

namespace Report

/-- The stack of a core is aligned to the names of the report. -/
lemma isAligned_seriesAt (r : Reconciliation ℚ) (ncores : ℕ) {tree : Tree ℚ}
    (hnames : tree.names.Nodup) (options : Options ℚ) {core : ℕ}
    (hcore : core ∈ (r.select ncores options).cores) :
    (seriesAt r ncores tree options core).stack.IsAligned
      (ofReconciliation r ncores tree options).names
      ((seriesAt r ncores tree options core).stack.aligned
        (ofReconciliation r ncores tree options).names) := by
  have hmem : seriesAt r ncores tree options core
      ∈ (ofReconciliation r ncores tree options).series := by
    rw [series_ofReconciliation]
    exact List.mem_map_of_mem hcore
  have hsub : (seriesAt r ncores tree options core).stack.names.Sublist tree.names :=
    tree.names_stack_sublist _ _
  rw [names_ofReconciliation]
  exact Stack.isAligned_aligned (tree.shownNames_sublist.nodup hnames)
    (tree.names_sublist_shownNames (List.mem_map_of_mem hmem) hsub)

/-- **The values of a series add up to its projected total**: alignment loses no entry, the entries
add up to the total, and a projection is linear. -/
theorem sum_values_seriesAt (r : Reconciliation ℚ) (ncores : ℕ) {tree : Tree ℚ}
    (hnames : tree.names.Nodup) (options : Options ℚ) {core : ℕ}
    (hcore : core ∈ (r.select ncores options).cores) :
    (seriesAt r ncores tree options core).values.sum
      = (seriesAt r ncores tree options core).total := by
  obtain ⟨factor, hfactor⟩ := (ofReconciliation r ncores tree options).gauge.exists_factor_on
    options.view core
  have haligned := (isAligned_seriesAt r ncores hnames options hcore).sum_eq (· * factor)
    (zero_mul _)
  have hentries : ((seriesAt r ncores tree options core).stack.entries.map (·.2)).sum
      = (seriesAt r ncores tree options core).stack.total :=
    (tree.sum_entries _ _).trans (tree.total_stack _ _).symm
  have hvalues : (seriesAt r ncores tree options core).values
      = ((seriesAt r ncores tree options core).stack.aligned
          (ofReconciliation r ncores tree options).names).map (· * factor) := by
    rw [Stack.aligned, List.map_map]
    exact List.map_congr_left fun name _ => hfactor _
  calc (seriesAt r ncores tree options core).values.sum
      = ((seriesAt r ncores tree options core).stack.entries.map fun e => e.2 * factor).sum := by
        rw [hvalues, haligned]
    _ = (seriesAt r ncores tree options core).stack.total * factor := by
        rw [List.sum_map_mul_right, hentries]
    _ = (seriesAt r ncores tree options core).total := (hfactor _).symm

end Report

/-- **The view changes nothing but the projected numbers.**  In two views there is the same error,
or there are two reports of the same cycles, also in their texts.  Exactly, every value of a report
tells the cycles that it is the projection of, as does every total, and the values of a series add
up to its total. -/
theorem compute_inView :
    (∀ {α : Type} [Amount α] (tables : Tables α) (run : Run α) (tree : Tree α)
      (options : Options α) (view : View),
      (∃ e, Report.compute tables run tree options = .error e
        ∧ Report.compute tables run tree (options.inView view) = .error e)
      ∨ ∃ r r', Report.compute tables run tree options = .ok r
        ∧ Report.compute tables run tree (options.inView view) = .ok r'
        ∧ r.view = options.view ∧ r'.view = view ∧ r.SameCycles r'
        ∧ ∀ [DecimalText α], r'.render = r.render)
    ∧ ∀ {roots : List (Node ℚ)} {tree : Tree ℚ}, Tree.ofRoots roots = .ok tree →
      ∀ (tables : Tables ℚ) (run : Run ℚ) (options : Options ℚ) (report : Report ℚ),
        Report.compute tables run tree options = .ok report →
        ∀ s ∈ report.series,
          (∀ name ∈ report.names, ∃ value, report.value? s.core name = some value
            ∧ report.gauge.Tells s.core ((s.stack.get? name).getD 0) value options.view)
          ∧ report.gauge.Tells s.core s.stack.total s.total options.view
          ∧ s.values.sum = s.total := by
  constructor
  · intro α _ tables run tree options view
    have hview := Report.compute_inView_eq tables run tree options view
    cases houtcome : Report.compute tables run tree options with
    | error e =>
        rw [houtcome] at hview
        exact .inl ⟨e, rfl, hview⟩
    | ok r =>
        rw [houtcome] at hview
        have hsame := r.sameCycles_inView view
        obtain ⟨-, -, reconciled, -, rfl⟩ := Report.compute_eq_ok.1 houtcome
        exact .inr ⟨_, _, rfl, hview, rfl, rfl, hsame, hsame.render_eq⟩
  · intro roots tree haccepted tables run options report hreport s hs
    obtain ⟨-, hnames⟩ := Tree.ofRoots_eq_ok haccepted
    obtain ⟨-, -, r, -, rfl⟩ := Report.compute_eq_ok.1 hreport
    refine ⟨?_, ?_⟩
    · intro name hname
      exact ⟨_, Report.value?_ofReconciliation hs hname, Gauge.tells_project _ _ _ _⟩
    · rw [Report.series_ofReconciliation] at hs
      obtain ⟨core, hcore, rfl⟩ := List.mem_map.1 hs
      exact ⟨Gauge.tells_project _ _ _ _, Report.sum_values_seriesAt r _ hnames options hcore⟩

lemma compute_branchingRun_inView (view : View) : ∃ report : Report ℚ,
    Report.compute ⟨.empty, 1⟩ branchingRun ⟨hyphenatedRoots⟩
        ((uncollapsed .cpi none).inView view) = .ok report
      ∧ "stall-branch" ∈ report.names
      ∧ (1, some 10) ∈ report.series.map (fun s => (s.core, s.stack.get? "stall-branch"))
      ∧ report.gauge.instructions = [30, 60]
      ∧ report.gauge.basis.scale = [1, 1] ∧ report.gauge.basis.fastforwardScale = 1 := by
  refine ⟨_, rfl, ?_, ?_, rfl, ?_, ?_⟩ <;> cases view <;> decide +kernel

/-- The second core has 10 cycles of branches, which the view of seconds tells as well as the one
for each of its 60 instructions. -/
theorem inView_branchingRun : Tree.ofRoots hyphenatedRoots = .ok ⟨hyphenatedRoots⟩
    ∧ ∃ r r' : Report ℚ,
      Report.compute ⟨.empty, 1⟩ branchingRun ⟨hyphenatedRoots⟩
          ((uncollapsed .cpi none).inView .cpi) = .ok r
        ∧ Report.compute ⟨.empty, 1⟩ branchingRun ⟨hyphenatedRoots⟩
          ((uncollapsed .cpi none).inView .absTime) = .ok r'
        ∧ r.SameCycles r'
        ∧ (∃ value, r.value? 1 "stall-branch" = some value ∧ 10 = value * 60)
        ∧ ∃ value, r'.value? 1 "stall-branch" = some value ∧ 10 = value * 10 ^ 15 := by
  obtain ⟨r, hr, hname, hcycles, hinstructions, -⟩ := compute_branchingRun_inView .cpi
  obtain ⟨r', hr', hname', hcycles', -, hscale, hforward⟩ := compute_branchingRun_inView .absTime
  obtain ⟨hviews, htold⟩ := compute_inView
  obtain ⟨s, hs, hentry⟩ := List.mem_map.1 hcycles
  obtain ⟨s', hs', hentry'⟩ := List.mem_map.1 hcycles'
  obtain ⟨hcore, hten⟩ := Prod.mk.inj hentry
  obtain ⟨hcore', hten'⟩ := Prod.mk.inj hentry'
  refine ⟨ofRoots_hyphenatedRoots, r, r', hr, hr', ?_, ?_, ?_⟩
  · rcases hviews ⟨.empty, 1⟩ branchingRun ⟨hyphenatedRoots⟩ ((uncollapsed .cpi none).inView .cpi)
      .absTime with ⟨e, he, -⟩ | ⟨t, t', ht, ht', -, -, hsame, -⟩
    · cases hr.symm.trans he
    · obtain rfl := Except.ok.inj (hr.symm.trans ht)
      obtain rfl := Except.ok.inj (hr'.symm.trans ht')
      exact hsame
  · obtain ⟨hvalues, -⟩ := htold ofRoots_hyphenatedRoots _ _ _ r hr s hs
    obtain ⟨value, hvalue, htells, -⟩ := hvalues _ hname
    rw [hcore, hinstructions] at htells
    rw [hcore] at hvalue
    rw [hten] at htells
    exact ⟨value, hvalue, htells (by decide +kernel)⟩
  · obtain ⟨hvalues, -⟩ := htold ofRoots_hyphenatedRoots _ _ _ r' hr' s' hs'
    obtain ⟨value, hvalue, htells, -⟩ := hvalues _ hname'
    rw [hscale, hforward, hten'] at htells
    rw [hcore'] at hvalue
    refine ⟨value, hvalue, (htells (by decide +kernel) one_ne_zero).trans ?_⟩
    rw [div_one]
    exact mul_one _

end CycleAccounting
