import CycleAccounting.Proofs.Names
import CycleAccounting.Proofs.Report

/-!
# The series of a report

A report has one series for each selected core, in increasing order of the cores
(`series_ofReconciliation`), so a core is looked up without ambiguity (`core?_of_mem`), and a name
is looked up in the place that all series share (`value?_of_mem`).  The summary row is made of means
over the cores that count in the summary (`summaryRow_ofReconciliation`).

**`aligned_shownNames`** is what an accepted tree gives to every report: no name stands for two
things, the listed names are the emitted ones in the order of the tree, and the value found for a
core and a name is that core's entry of the name, or zero where it has none.
-/

namespace CycleAccounting

attribute [ext] Series Report

/-! ## Selected cores -/

lemma Options.pairwise_selectedCores {α : Type} (options : Options α) (ncores : ℕ) :
    (options.selectedCores ncores).Pairwise (· < ·) := by
  rw [selectedCores]
  split
  · exact List.pairwise_lt_range.filter _
  · exact List.pairwise_lt_range

namespace Report

variable {α : Type}

/-- The series of a core in the report of a reconciliation. -/
def seriesAt [Amount α] (r : Reconciliation α) (ncores : ℕ) (tree : Tree α) (options : Options α)
    (core : ℕ) : Series α :=
  let report := ofReconciliation r ncores tree options
  let stack := tree.stackOf options.collapse (r.select ncores options).books core
  { core
    stack
    values := report.names.map fun name =>
      report.gauge.project options.view ((stack.get? name).getD 0) core
    total := report.gauge.project options.view stack.total core }

section Selected

variable [Amount α] (r : Reconciliation α) (ncores : ℕ) (tree : Tree α) (options : Options α)

/-- The cores that are shown are in increasing order, also if there is only the mean. -/
lemma pairwise_select : (r.select ncores options).cores.Pairwise (· < ·) := by
  rw [Reconciliation.select]
  split_ifs
  · exact List.pairwise_singleton _ _
  · exact options.pairwise_selectedCores ncores

/-- Only cores that are shown count in the summary, in the same order. -/
lemma summaryCores_select_sublist :
    (r.select ncores options).summaryCores.Sublist (r.select ncores options).cores := by
  rw [Reconciliation.select]
  split_ifs
  · exact List.Sublist.refl _
  · exact r.passing_sublist ncores options

/-- **A report has one series for each core it shows.** -/
theorem series_ofReconciliation :
    (ofReconciliation r ncores tree options).series
      = (r.select ncores options).cores.map (seriesAt r ncores tree options) := by
  have hvalues (names : List String) (gauge : Gauge α) (core : ℕ) (stack : Stack α) :
      (stack.aligned names).map (gauge.project options.view · core)
        = names.map fun name =>
            gauge.project options.view ((stack.get? name).getD 0) core := List.map_map
  rw [ofReconciliation]
  dsimp only
  rw [List.map_map]
  refine List.map_congr_left ?_
  intro core _
  rw [Function.comp_apply, hvalues]
  rfl

lemma cores_ofReconciliation : (ofReconciliation r ncores tree options).series.map (·.core)
    = (r.select ncores options).cores := by
  rw [series_ofReconciliation, List.map_map]
  exact List.map_id' _

lemma nodup_cores_ofReconciliation :
    ((ofReconciliation r ncores tree options).series.map (·.core)).Nodup := by
  rw [cores_ofReconciliation]
  exact (pairwise_select r ncores options).imp Nat.ne_of_lt

/-- The listed names are those that the stacks of the series show. -/
lemma names_ofReconciliation :
    (ofReconciliation r ncores tree options).names
      = tree.shownNames ((ofReconciliation r ncores tree options).series.map (·.stack)) := by
  rw [series_ofReconciliation, ofReconciliation]
  dsimp only
  rw [List.map_map, List.map_map]
  rfl

end Selected

/-! ## Looking up -/

lemma find?_core_of_mem {series : List (Series α)} (h : (series.map (·.core)).Nodup)
    {s : Series α} (hs : s ∈ series) : series.find? (·.core = s.core) = some s := by
  induction series with
  | nil => cases hs
  | cons t rest ih =>
      obtain ⟨hnew, hrest⟩ := List.nodup_cons.1 h
      rcases List.mem_cons.1 hs with rfl | hmem
      · rw [List.find?_cons_of_pos (by simp)]
      · have hne : t.core ≠ s.core := by
          intro same
          exact hnew (List.mem_map.2 ⟨s, hmem, same.symm⟩)
        rw [List.find?_cons_of_neg (by simpa using hne), ih hrest hmem]

/-- Where cores are distinct, each is found. -/
lemma core?_of_mem {r : Report α} (h : (r.series.map (·.core)).Nodup) {s : Series α}
    (hs : s ∈ r.series) : r.core? s.core = some s :=
  find?_core_of_mem h hs

lemma exists_idxOf? {names : List String} {name : String} (h : name ∈ names) :
    ∃ i, names.idxOf? name = some i ∧ names[i]? = some name := by
  cases hi : names.idxOf? name with
  | none => exact absurd h (List.idxOf?_eq_none_iff.1 hi)
  | some i =>
      obtain ⟨hlt, hname, -⟩ := List.idxOf?_eq_some_iff.1 hi
      exact ⟨i, rfl, by rw [List.getElem?_eq_getElem hlt, hname]⟩

/-- A value is found in the place of its name. -/
lemma value?_of_mem {r : Report α} (h : (r.series.map (·.core)).Nodup) {s : Series α}
    (hs : s ∈ r.series) {f : String → α} (hvalues : s.values = r.names.map f) {name : String}
    (hname : name ∈ r.names) : r.value? s.core name = some (f name) := by
  obtain ⟨i, hi, hget⟩ := exists_idxOf? hname
  rw [value?, hi, core?_of_mem h hs]
  simp [hvalues, hget]

section Reconciled

variable [Amount α] {r : Reconciliation α} {ncores : ℕ} {tree : Tree α} {options : Options α}

lemma core?_ofReconciliation {core : ℕ} (h : core ∈ (r.select ncores options).cores) :
    (ofReconciliation r ncores tree options).core? core
      = some (seriesAt r ncores tree options core) := by
  have hmem : seriesAt r ncores tree options core
      ∈ (ofReconciliation r ncores tree options).series := by
    rw [series_ofReconciliation]
    exact List.mem_map_of_mem h
  exact core?_of_mem (nodup_cores_ofReconciliation r ncores tree options) hmem

/-- **The value of a listed name on a core** is the projection of what the stack of the core has
under the name. -/
theorem value?_ofReconciliation {s : Series α}
    (hs : s ∈ (ofReconciliation r ncores tree options).series) {name : String}
    (hname : name ∈ (ofReconciliation r ncores tree options).names) :
    (ofReconciliation r ncores tree options).value? s.core name
      = some ((ofReconciliation r ncores tree options).gauge.project options.view
          ((s.stack.get? name).getD 0) s.core) := by
  have hvalues : s.values = (ofReconciliation r ncores tree options).names.map fun name =>
      (ofReconciliation r ncores tree options).gauge.project options.view
        ((s.stack.get? name).getD 0) s.core := by
    rw [series_ofReconciliation] at hs
    obtain ⟨core, -, rfl⟩ := List.mem_map.1 hs
    rfl
  exact value?_of_mem (nodup_cores_ofReconciliation r ncores tree options) hs hvalues hname

/-! ## The summary row -/

/-- Every core that counts in the summary has a series. -/
lemma summary_ofReconciliation :
    (ofReconciliation r ncores tree options).summaryCores.filterMap
        (ofReconciliation r ncores tree options).core?
      = (r.select ncores options).summaryCores.map (seriesAt r ncores tree options) := by
  rw [← List.filterMap_eq_map]
  refine List.filterMap_congr ?_
  intro core hcore
  exact core?_ofReconciliation ((summaryCores_select_sublist r ncores options).subset hcore)

/-- **The summary row** has for each name the mean of its values on the cores of the summary. -/
theorem summaryRow_ofReconciliation :
    (ofReconciliation r ncores tree options).summaryRow
      = (ofReconciliation r ncores tree options).names.map fun name =>
          Amount.mean ((r.select ncores options).summaryCores.map fun core =>
            (ofReconciliation r ncores tree options).gauge.project options.view
              (((seriesAt r ncores tree options core).stack.get? name).getD 0) core) := by
  rw [summaryRow, summary_ofReconciliation]
  refine List.ext_getElem (by simp) ?_
  intro i hi _
  have hlt : i < (ofReconciliation r ncores tree options).names.length := by simpa using hi
  simp only [List.getElem_map, List.getElem_range, List.map_map]
  refine congrArg Amount.mean (List.map_congr_left ?_)
  intro core _
  rw [Function.comp_apply, Amount.getAt, seriesAt, List.getElem?_map, List.getElem?_eq_getElem hlt]
  rfl

end Reconciled

end Report

/-! ## What an accepted tree gives to a report -/

/-- **Names never clash, and alignment loses nothing.**  In every stack of an accepted tree the
names are distinct and in the order of the tree.  The names that some stacks show are each listed
once, in that order too, the remainder of the whole tree last, and every one of the stacks is
aligned to them.  So the value that a report has for a core and a listed name is the projection of
that one entry, or of zero where the core has no such entry. -/
theorem aligned_shownNames {α : Type} [Amount α] {roots : List (Node α)} {tree : Tree α}
    (h : Tree.ofRoots roots = .ok tree) :
    (∀ collapse books core, (tree.stackOf collapse books core).names.Sublist tree.names
      ∧ (tree.stackOf collapse books core).names.Nodup)
    ∧ (∀ among : List (Stack α),
        (∀ s ∈ among, ∃ collapse books core, s = tree.stackOf collapse books core) →
        (tree.shownNames among).Sublist tree.names
        ∧ (tree.shownNames among).Nodup
        ∧ (∀ name, name ∈ tree.shownNames among ↔ ∃ s ∈ among, name ∈ s.names)
        ∧ (remainderName ∈ tree.shownNames among →
            (tree.shownNames among).getLast? = some remainderName)
        ∧ ∀ s ∈ among, s.IsAligned (tree.shownNames among) (s.aligned (tree.shownNames among)))
    ∧ ∀ tables run options report, Report.compute tables run tree options = .ok report →
        report.names = tree.shownNames (report.series.map (·.stack))
        ∧ ∀ s ∈ report.series, ∀ name ∈ report.names,
          (∀ cycles, (name, cycles) ∈ s.stack.entries →
            report.value? s.core name = some (report.gauge.project report.view cycles s.core))
          ∧ (name ∉ s.stack.names →
            report.value? s.core name = some (report.gauge.project report.view 0 s.core)) := by
  obtain ⟨-, hnames⟩ := Tree.ofRoots_eq_ok h
  refine ⟨?_, ?_, ?_⟩
  · intro collapse books core
    have hsub := tree.names_stack_sublist (books.amount core) collapse
    exact ⟨hsub, hsub.nodup hnames⟩
  · intro among hamong
    have hsub : ∀ s ∈ among, s.names.Sublist tree.names := by
      intro s hs
      obtain ⟨collapse, books, core, rfl⟩ := hamong s hs
      exact tree.names_stack_sublist _ _
    have hshown : (tree.shownNames among).Nodup := tree.shownNames_sublist.nodup hnames
    refine ⟨tree.shownNames_sublist, hshown, tree.mem_shownNames_iff hsub,
      tree.getLast?_shownNames, ?_⟩
    intro s hs
    exact Stack.isAligned_aligned hshown (tree.names_sublist_shownNames hs (hsub s hs))
  · intro tables run options report hreport
    obtain ⟨-, -, r, -, rfl⟩ := Report.compute_eq_ok.1 hreport
    refine ⟨Report.names_ofReconciliation r _ tree options, ?_⟩
    intro s hs name hname
    rw [Report.value?_ofReconciliation hs hname]
    have hnodup : s.stack.names.Nodup := by
      rw [Report.series_ofReconciliation] at hs
      obtain ⟨core, -, rfl⟩ := List.mem_map.1 hs
      exact (tree.names_stack_sublist _ _).nodup hnames
    constructor
    · intro cycles hentry
      rw [(Stack.get?_eq_some_iff hnodup name cycles).2 hentry]
      rfl
    · intro habsent
      rw [Stack.get?_eq_none habsent]
      rfl

/-- Two cores, of which only the second one has cycles of branches. -/
def branchingRun : Run ℚ where
  ncores := 2
  config := .empty
  counters.toList :=
    [(".cpiBase", [60, 40]), (".cpiBranch", [0, 10]), (Stat.cycleCount, [100, 120]),
      (Stat.instructionCount, [30, 60])]
  counters.sorted := by decide +kernel
  ncores_pos := Nat.two_pos

/-- The name of the first leaf looks like a path below the branch that follows it. -/
def hyphenatedRoots : List (Node ℚ) :=
  [.leaf "stall-base" (1 / 100) (.category Category.base),
   .branch "stall" (1 / 100)
     [.leaf "idle" (1 / 2) (.category Category.imbalance),
      .leaf "branch" (1 / 2) (.category "Branch")]]

lemma ofRoots_hyphenatedRoots : Tree.ofRoots hyphenatedRoots = .ok ⟨hyphenatedRoots⟩ :=
  Tree.ofRoots_of_isNone (by decide +kernel) (by decide +kernel)

/-- The cycles of branches are too few to be shown but in a remainder. -/
lemma compute_branchingRun : ∃ report : Report ℚ,
    Report.compute ⟨.empty, 1⟩ branchingRun ⟨hyphenatedRoots⟩ (unfiltered false) = .ok report
      ∧ report.names = ["stall-base", "stall-idle", "stall-other"]
      ∧ report.series.map (fun s => (s.core, s.stack.entries))
          = [(0, [("stall-base", 60), ("stall-idle", 60)]),
             (1, [("stall-base", 40), ("stall-idle", 70), ("stall-other", 10)])]
      ∧ report.gauge.project report.view 10 1 = 1 / 12
      ∧ report.gauge.project report.view 0 0 = 0 :=
  ⟨_, rfl, by decide +kernel⟩

theorem aligned_hyphenatedRoots :
    Tree.ofRoots hyphenatedRoots = .ok ⟨hyphenatedRoots⟩
      ∧ ∃ report : Report ℚ,
        Report.compute ⟨.empty, 1⟩ branchingRun ⟨hyphenatedRoots⟩ (unfiltered false) = .ok report
          ∧ report.value? 1 "stall-other" = some (1 / 12)
          ∧ report.value? 0 "stall-other" = some 0 := by
  obtain ⟨report, hreport, hnames, hseries, hten, hnone⟩ := compute_branchingRun
  obtain ⟨-, -, hvalues⟩ := aligned_shownNames ofRoots_hyphenatedRoots
  obtain ⟨-, hvalues⟩ := hvalues _ _ _ _ hreport
  have hlisted : "stall-other" ∈ report.names := by simp [hnames]
  have hshown : ∀ x ∈ report.series.map fun s => (s.core, s.stack.entries),
      ∃ s ∈ report.series, (s.core, s.stack.entries) = x := fun x => List.mem_map.1
  rw [hseries, List.forall_mem_cons, List.forall_mem_cons] at hshown
  obtain ⟨⟨s, hs, hfirst⟩, ⟨t, ht, hsecond⟩, -⟩ := hshown
  obtain ⟨hcore, hentries⟩ := Prod.mk.inj hfirst
  obtain ⟨hcore', hentries'⟩ := Prod.mk.inj hsecond
  refine ⟨ofRoots_hyphenatedRoots, report, hreport, ?_, ?_⟩
  · rw [← hten, ← hcore']
    exact (hvalues t ht _ hlisted).1 10 (by simp [hentries'])
  · rw [← hnone, ← hcore]
    exact (hvalues s hs _ hlisted).2 (by simp [Stack.names, hentries])

end CycleAccounting
