import CycleAccounting.Proofs.Groups
import CycleAccounting.Proofs.Series
import CycleAccounting.Proofs.Validity

/-!
# Built-in trees

The built-in trees arrange the same categories in eight ways.  Each of them reads what
`TreeVariant.readKeys` lists, once (`TreeVariant.perm_keys`): the two levels of detail move
categories between nodes of the memory hierarchy, and simplifying gathers whole roots.  So totals
and diagnostics do not depend on which of them is chosen.

Reconciliation books what the counters report and, by itself, a few categories that it knows
(`Tables.created`).  With the standard tables the built-in trees read all of these, so a category
that they do not read has been reported by a counter (`Run.mem_reported_of_mem_unread`).
**`covering_builtIn`** puts this together.

The built-in trees are not checked when they are made, and need not be
(**`TreeVariant.ofRoots_tree`**).
-/

namespace CycleAccounting

/-! ## What reconciliation books by itself -/

lemma Catalog.mem_values_foldl_insert {β : Type} {bs : List (String × β)} {m : Catalog β} {x : β}
    (h : x ∈ (bs.foldl (fun m b => m.insert b.1 b.2) m).values) :
    x ∈ m.values ∨ x ∈ bs.map (·.2) := by
  induction bs generalizing m with
  | nil => exact .inl h
  | cons b rest ih =>
      rcases ih h with h | h
      · obtain ⟨c, hc, rfl⟩ := List.mem_map.1 h
        rcases mem_place hc with rfl | hc
        · exact .inr List.mem_cons_self
        · exact .inl (List.mem_map_of_mem hc)
      · exact .inr (List.mem_cons_of_mem _ h)

/-- A catalog made of bindings has no other values. -/
lemma Catalog.mem_of_mem_values_ofList {β : Type} {bs : List (String × β)} {x : β}
    (h : x ∈ (ofList bs).values) : x ∈ bs.map (·.2) :=
  (mem_values_foldl_insert h).resolve_left List.not_mem_nil

section Created

variable {α : Type}

/-- The categories that are booked whether a counter reports them or not: the start time that is
made up, those of the base and of the dispatch width, what is booked anew and the targets of the
critical path. -/
def Tables.created (tables : Tables α) : List String :=
  Category.startTime :: Category.base :: Category.issue :: Category.derived
    ++ tables.targets.values

variable [Amount α] {run : Run α} {tables : Tables α}

/-- **A ledger has categories that are reported and categories that reconciliation creates.** -/
lemma Run.mem_reported_or_created {basis : TimeBasis α} {core : ℕ} {k : String}
    (h : (run.settledLedger tables basis core).contains k = true) :
    k ∈ run.reported ∨ k ∈ tables.created := by
  have hnone {k : String} (h : k ∈ Category.startTime :: Category.base :: Category.issue
      :: Category.derived) : k ∈ tables.created := List.mem_append_left _ h
  rw [settledLedger, Ledger.contains_balance, contains_attributedLedger] at h
  rcases h with (hreported | rfl | ⟨u, rfl⟩ | ⟨b, hb, -, rfl⟩ | ⟨rfl, -⟩) | rfl
  · rw [correctedCategories] at hreported
    split_ifs at hreported
    · rcases Finset.mem_insert.1 hreported with rfl | hreported
      · exact .inr (hnone List.mem_cons_self)
      · exact .inl hreported
    · exact .inl hreported
  · exact .inr (hnone (by simp))
  · have hunit : u.category ∈ Category.derived :=
      List.mem_cons_of_mem _ (List.mem_map_of_mem (FunctionalUnit.mem_all u))
    exact .inr (hnone (by simp [hunit]))
  · exact .inr (List.mem_append_right _ (List.mem_map_of_mem hb))
  · exact .inr (hnone (by simp))
  · exact .inr (hnone (by simp [Category.derived]))

/-- If a tree reads all that reconciliation creates, what it does not read has been reported. -/
lemma Run.mem_reported_of_mem_unread {r : Reconciliation α} (h : run.reconcile tables = .ok r)
    {tree : Tree α} (hcreated : ∀ k ∈ tables.created, k ∈ tree.keys) {k : String}
    (hk : k ∈ tree.unread r.books) : k ∈ run.reported := by
  obtain ⟨hcategory, hunread⟩ := List.mem_filter.1 hk
  obtain ⟨l, hl, hk⟩ := (Catalog.mem_unionNames _ k).1 hcategory
  obtain ⟨-, -, hbooks, -⟩ := run.reconcile_eq_ok tables h
  rw [hbooks] at hl
  obtain ⟨core, -, rfl⟩ := List.mem_map.1 hl
  refine (mem_reported_or_created hk).resolve_right ?_
  intro hk
  simp [hcreated k hk] at hunread

end Created

/-! ## What trees have in common that read the same -/

lemma Tree.unusedKeys_congr {α : Type} {tree tree' : Tree α} (h : tree'.keys.Perm tree.keys)
    (books : Books α) : tree'.unusedKeys books = tree.unusedKeys books := by
  have hread : tree'.keys.contains = tree.keys.contains := by
    funext k
    rw [Bool.eq_iff_iff, List.contains_iff_mem, List.contains_iff_mem]
    exact h.mem_iff
  rw [unusedKeys, unusedKeys, unread, unread, hread]

lemma Tree.total_stackOf_congr {tree tree' : Tree ℚ} (h : tree'.keys.Perm tree.keys)
    (books : Books ℚ) (collapse collapse' : Bool) (core : ℕ) :
    (tree'.stackOf collapse' books core).total = (tree.stackOf collapse books core).total := by
  rw [stackOf, stackOf, total_stack, total_stack]
  exact (h.map _).sum_eq

/-! ## The categories of the built-in trees -/

namespace TreeVariant

/-- The categories that the built-in trees read. -/
def readKeys : List String := (fullTree .cacheLevel .flat : Tree ℚ).keys

lemma nodup_readKeys : readKeys.Nodup := by decide +kernel

lemma perm_keys_fullTree (memory : MemoryDetail) (sync : SyncDetail) :
    (fullTree memory sync : Tree ℚ).keys.Perm readKeys := by
  cases memory <;> cases sync <;> decide +kernel

variable {α : Type} [Amount α]

/-- The categories of a full tree do not depend on what amounts it is for. -/
lemma keys_fullTree (memory : MemoryDetail) (sync : SyncDetail) :
    (fullTree memory sync : Tree α).keys = (fullTree memory sync : Tree ℚ).keys := by
  cases memory <;> cases sync <;> rfl

/-- **The built-in trees read the same categories**, each as often. -/
theorem perm_keys (v : TreeVariant) : (v.tree : Tree α).keys.Perm readKeys := by
  have hfull : (fullTree v.memory v.sync : Tree α).keys.Perm readKeys := by
    rw [keys_fullTree]
    exact perm_keys_fullTree v.memory v.sync
  rw [tree]
  split_ifs
  · exact (Tree.perm_keys_simplify _ _).trans hfull
  · exact hfull

/-- The built-in trees read all that reconciliation creates. -/
lemma mem_readKeys_of_created {k : String} (h : k ∈ (Tables.standard : Tables α).created) :
    k ∈ readKeys := by
  have hknown : ∀ k ∈ Category.startTime :: Category.base :: Category.issue :: Category.derived,
      k ∈ readKeys := by
    decide +kernel
  have htargets : ∀ k ∈ Tables.standardTargets.map (·.2), k ∈ readKeys := by decide +kernel
  rcases List.mem_append.1 h with h | h
  · exact hknown k h
  · have hvalue := Catalog.mem_of_mem_values_ofList h
    rw [List.map_map] at hvalue
    exact htargets k hvalue

lemma mem_keys_of_created (v : TreeVariant) {k : String}
    (h : k ∈ (Tables.standard : Tables α).created) : k ∈ (v.tree : Tree α).keys :=
  v.perm_keys.mem_iff.2 (mem_readKeys_of_created h)

/-! ## Checks that are left out -/

lemma ofRoots_fullTree (memory : MemoryDetail) (sync : SyncDetail) :
    Tree.ofRoots (fullTree memory sync : Tree Double).roots = .ok (fullTree memory sync) := by
  cases memory <;> cases sync <;>
    exact Tree.ofRoots_of_isNone (by decide +kernel) (by decide +kernel)

/-- **The built-in trees would be accepted**, the simplified ones too. -/
theorem ofRoots_tree (v : TreeVariant) :
    Tree.ofRoots (v.tree : Tree Double).roots = .ok v.tree := by
  have hfull := ofRoots_fullTree v.memory v.sync
  rw [tree]
  split_ifs
  · exact Tree.ofRoots_simplify rfl hfull (by decide) (by decide) (by decide)
  · exact hfull

end TreeVariant

/-! ## Reports under the built-in trees -/

/-- The total of every series is the projected total of its stack. -/
lemma Report.totals_ofReconciliation {α : Type} [Amount α] (r : Reconciliation α) (ncores : ℕ)
    (tree : Tree α) (options : Options α) : (ofReconciliation r ncores tree options).totals
      = (r.select ncores options).cores.map fun core =>
          Gauge.project ⟨r.basis, (r.select ncores options).instructions⟩ options.view
            (tree.stackOf options.collapse (r.select ncores options).books core).total core := by
  rw [totals, series_ofReconciliation, List.map_map]
  rfl

/-- **The built-in trees agree and leave out nothing that reconciliation creates.**  None of them
reads a category twice, and each of them reads all categories that reconciliation creates with the
standard tables.  The reports of a run under two of them have the same diagnostics, whatever the
options, and a category that is reported as unused is one that a per-cycle counter of the run
reports.  Exactly, the stacks of all cores have the same totals, collapsed or not, and so have the
series of the reports. -/
theorem covering_builtIn :
    (∀ {α : Type} [Amount α] (v : TreeVariant), (v.tree : Tree α).keys.Nodup
      ∧ ∀ k ∈ (Tables.standard : Tables α).created, k ∈ (v.tree : Tree α).keys)
    ∧ (∀ {α : Type} [Amount α] {run : Run α} {v v' : TreeVariant} {options options' : Options α}
        {report report' : Report α},
        Report.compute .standard run v.tree options = .ok report →
        Report.compute .standard run v'.tree options' = .ok report' →
        report'.diagnostics = report.diagnostics
        ∧ ∀ k, .unusedKey k ∈ report.diagnostics → ∃ c ∈ run.classified, c.role = .perCycle k)
    ∧ (∀ (books : Books ℚ) (v v' : TreeVariant) (collapse collapse' : Bool) (core : ℕ),
        (v'.tree.stackOf collapse' books core).total = (v.tree.stackOf collapse books core).total)
    ∧ ∀ {run : Run ℚ} {v v' : TreeVariant} {options : Options ℚ} {collapse : Bool}
        {report report' : Report ℚ},
        Report.compute .standard run v.tree options = .ok report →
        Report.compute .standard run v'.tree { options with collapse } = .ok report' →
        report'.totals = report.totals := by
  have hperm {α : Type} [Amount α] (v v' : TreeVariant) :
      (v'.tree : Tree α).keys.Perm (v.tree : Tree α).keys := v'.perm_keys.trans v.perm_keys.symm
  have htotal (books : Books ℚ) (v v' : TreeVariant) (collapse collapse' : Bool) (core : ℕ) :
      (v'.tree.stackOf collapse' books core).total = (v.tree.stackOf collapse books core).total :=
    Tree.total_stackOf_congr (hperm v v') books collapse collapse' core
  refine ⟨?_, ?_, htotal, ?_⟩
  · intro α _ v
    exact ⟨v.perm_keys.nodup_iff.2 TreeVariant.nodup_readKeys, fun k => v.mem_keys_of_created⟩
  · intro α _ run v v' options options' report report' h h'
    obtain ⟨-, -, r, hr, rfl⟩ := Report.compute_eq_ok.1 h
    obtain ⟨-, -, r', hr', rfl⟩ := Report.compute_eq_ok.1 h'
    obtain rfl := Except.ok.inj (hr.symm.trans hr')
    constructor
    · rw [Report.diagnostics_ofReconciliation hr, Report.diagnostics_ofReconciliation hr,
        Tree.unusedKeys_congr (hperm v v')]
    · intro k hk
      rw [← Report.mem_unusedCategories, Report.unusedCategories_ofReconciliation hr] at hk
      rw [← run.mem_reported_iff]
      exact Run.mem_reported_of_mem_unread hr (fun k => v.mem_keys_of_created) hk
  · intro run v v' options collapse report report' h h'
    obtain ⟨-, -, r, hr, rfl⟩ := Report.compute_eq_ok.1 h
    obtain ⟨-, -, r', hr', rfl⟩ := Report.compute_eq_ok.1 h'
    obtain rfl := Except.ok.inj (hr.symm.trans hr')
    rw [Report.totals_ofReconciliation, Report.totals_ofReconciliation]
    simp only [htotal _ v v' options.collapse]
    rfl

/-- One core that reports a category of no built-in tree, next to one of the memory hierarchy and
one of the critical path. -/
def prefetchingRun : Run ℚ where
  ncores := 1
  config := .empty
  counters.toList :=
    [(".cpiBase", [50]), (".cpiDataCacheL1_S", [4]), (".cpiPrefetch", [8]),
      ("interval_timer.cpContr_load_l2", [3000000]), (Stat.cycleCount, [100]),
      (Stat.instructionCount, [30])]
  counters.sorted := by decide +kernel
  ncores_pos := Nat.one_pos

/-- The categories of the cache and of the critical path are read, whichever tree it is. -/
theorem covering_prefetchingRun : ∃ report report' : Report ℚ,
    Report.compute .standard prefetchingRun (TreeVariant.tree ⟨false, .withNeighbors, .flat⟩)
        (unfiltered false) = .ok report
      ∧ Report.compute .standard prefetchingRun (TreeVariant.tree ⟨true, .cacheLevel, .detailed⟩)
        { unfiltered false with collapse := false } = .ok report'
      ∧ report.diagnostics = [.unusedKey "Prefetch"] ∧ report'.diagnostics = report.diagnostics
      ∧ report'.totals = report.totals
      ∧ ∃ c ∈ prefetchingRun.classified, c.role = .perCycle "Prefetch" := by
  obtain ⟨report, h, hunused⟩ : ∃ report, Report.compute .standard prefetchingRun
      (TreeVariant.tree ⟨false, .withNeighbors, .flat⟩) (unfiltered false) = .ok report
        ∧ report.diagnostics = [.unusedKey "Prefetch"] := ⟨_, rfl, by decide +kernel⟩
  obtain ⟨report', h'⟩ : ∃ report, Report.compute .standard prefetchingRun
      (TreeVariant.tree ⟨true, .cacheLevel, .detailed⟩)
        { unfiltered false with collapse := false } = .ok report := ⟨_, rfl⟩
  obtain ⟨-, hreports, -, htotals⟩ := covering_builtIn
  obtain ⟨hdiagnostics, hreported⟩ := hreports h h'
  refine ⟨report, report', h, h', hunused, hdiagnostics, htotals h h', hreported "Prefetch" ?_⟩
  rw [hunused]
  exact List.mem_singleton_self _

end CycleAccounting
