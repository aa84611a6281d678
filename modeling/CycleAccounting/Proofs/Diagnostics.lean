import CycleAccounting.Proofs.Report
import Mathlib.Data.List.Lex
import Mathlib.Data.Prod.Lex

/-!
# Diagnostics of a report

The diagnostics of a report come from two sources: what is found on the counters of its run, and
the categories that its tree does not read.  `Diagnostic.IsDue` says what a diagnostic means without
mentioning either, and **`diagnostics_compute`** that the diagnostics of a report are exactly those
that are due, each once and in order.  They are the same under all options.

The order is that of `Diagnostic.place`: kind by kind, and then by the texts.  Within a kind the
findings are in order because counters are classified in name order (`pairwise_findings`).
-/

namespace CycleAccounting

/-! ## The order of diagnostics -/

namespace Diagnostic

/-- The place of a diagnostic among others: its constructor, then its texts one after the other. -/
def place : Diagnostic → ℕ ×ₗ List String
  | unmappedCounter counter => toLex (0, [counter])
  | unknownUnit counter unit => toLex (1, [counter, unit])
  | unusedKey category => toLex (2, [category])

instance : LT Diagnostic := ⟨fun d e => d.place < e.place⟩

lemma ne_of_lt {d e : Diagnostic} (h : d < e) : d ≠ e := by
  rintro rfl
  exact lt_irrefl d.place h

lemma unmappedCounter_lt {n n' : String} (h : n < n') : unmappedCounter n < unmappedCounter n' :=
  Prod.Lex.right 0 (List.Lex.rel h)

lemma unknownUnit_lt {n n' : String} (h : n < n') (unit unit' : String) :
    unknownUnit n unit < unknownUnit n' unit' :=
  Prod.Lex.right 1 (List.Lex.rel h)

lemma unusedKey_lt {k k' : String} (h : k < k') : unusedKey k < unusedKey k' :=
  Prod.Lex.right 2 (List.Lex.rel h)

lemma unmappedCounter_lt_unknownUnit (n n' unit : String) :
    unmappedCounter n < unknownUnit n' unit :=
  Prod.Lex.left _ _ Nat.zero_lt_one

lemma unmappedCounter_lt_unusedKey (n k : String) : unmappedCounter n < unusedKey k :=
  Prod.Lex.left _ _ Nat.two_pos

lemma unknownUnit_lt_unusedKey (n unit k : String) : unknownUnit n unit < unusedKey k :=
  Prod.Lex.left _ _ Nat.one_lt_two

end Diagnostic

/-! ## What diagnostics mean -/

/-- A leaf reads the categories of its source, a branch those that one of its children reads. -/
inductive Node.Reads {α : Type} (category : String) : Node α → Prop
  | leaf {name : String} {threshold : α} {source : Source} (h : category ∈ source.keys) :
    Reads category (.leaf name threshold source)
  | branch {name : String} {threshold : α} {children : List (Node α)} {n : Node α}
    (hn : n ∈ children) (h : Reads category n) : Reads category (.branch name threshold children)

/-- Whether a text is the label of a unit. -/
def FunctionalUnit.IsLabel (text : String) : Prop := ∃ u : FunctionalUnit, u.label = text

/-- Whether a role lists labels of units up to a text that is none. -/
def Role.NamesUnknown (role : Role) (unit : String) : Prop :=
  ∃ known others, role = .unitDetail (known ++ unit :: others)
    ∧ (∀ label ∈ known, FunctionalUnit.IsLabel label) ∧ ¬ FunctionalUnit.IsLabel unit

/-- Whether a diagnostic is due: a carried counter of the critical path that the tables do not name,
or a carried port counter without any label; a carried port counter with a label of no unit, the
first such label; or a category of any core that no node reads. -/
def Diagnostic.IsDue {α : Type} (run : Run α) (tables : Tables α) (tree : Tree α)
    (books : Books α) : Diagnostic → Prop
  | unmappedCounter n =>
    run.Carries n
      ∧ (Role.ofName n = .criticalPath ∧ tables.targets.contains n = false
        ∨ Role.ofName n = .unitDetail [])
  | unknownUnit n unit => run.Carries n ∧ (Role.ofName n).NamesUnknown unit
  | unusedKey k => (∃ l ∈ books.cores, l.contains k = true) ∧ ∀ n ∈ tree.roots, ¬ n.Reads k

/-! ## Findings -/

lemma FunctionalUnit.isNone_ofLabel?_iff (text : String) :
    (ofLabel? text).isNone = true ↔ ¬ IsLabel text := by
  rw [Option.isNone_iff_eq_none, ofLabel?, List.find?_eq_none, IsLabel, not_exists]
  constructor
  · intro h u
    simpa using h u (mem_all u)
  · intro h u _
    simpa using h u

namespace Counter

variable {α : Type} {c : Counter α} {tables : Tables α}

lemma finding?_eq_unmappedCounter_iff {n : String} :
    c.finding? tables = some (.unmappedCounter n)
      ↔ c.name = n ∧ (c.role = .criticalPath ∧ tables.targets.contains n = false
        ∨ c.role = .unitDetail []) := by
  have hrole : c.finding? tables = some (.unmappedCounter c.name)
      ↔ c.role = .criticalPath ∧ tables.targets.contains c.name = false
        ∨ c.role = .unitDetail [] := by
    rw [finding?]
    cases c.role with
    | criticalPath => cases tables.targets.contains c.name <;> simp
    | unitDetail labels =>
        cases labels with
        | nil => simp
        | cons label rest =>
            -- With any label at hand, a finding is about an unknown one.
            cases hunknown : (label :: rest).find? fun label =>
              (FunctionalUnit.ofLabel? label).isNone <;> simp [hunknown]
    | perCycle _ => simp
    | detailedBase _ _ _ => simp
    | other => simp
  constructor
  · intro h
    rcases finding?_cases h with hn | ⟨unit, hn⟩
    · cases hn
      exact ⟨rfl, hrole.1 h⟩
    · cases hn
  · rintro ⟨rfl, h⟩
    exact hrole.2 h

lemma find?_isNone_ofLabel?_iff {labels : List String} {unit : String} :
    labels.find? (fun label => (FunctionalUnit.ofLabel? label).isNone) = some unit
      ↔ (Role.unitDetail labels).NamesUnknown unit := by
  have hknown (label : String) : (!(FunctionalUnit.ofLabel? label).isNone) = true
      ↔ FunctionalUnit.IsLabel label := by
    rw [Bool.not_eq_true', ← Bool.not_eq_true, FunctionalUnit.isNone_ofLabel?_iff, not_not]
  rw [List.find?_eq_some_iff_append, FunctionalUnit.isNone_ofLabel?_iff]
  simp only [hknown, Role.NamesUnknown, Role.unitDetail.injEq]
  constructor
  · rintro ⟨hunit, known, others, rfl, h⟩
    exact ⟨known, others, rfl, h, hunit⟩
  · rintro ⟨known, others, rfl, h, hunit⟩
    exact ⟨hunit, known, others, rfl, h⟩

lemma finding?_eq_unknownUnit_iff {n unit : String} :
    c.finding? tables = some (.unknownUnit n unit)
      ↔ c.name = n ∧ c.role.NamesUnknown unit := by
  rw [finding?]
  cases c.role with
  | criticalPath => cases tables.targets.contains c.name <;> simp [Role.NamesUnknown]
  | unitDetail labels =>
      rw [← find?_isNone_ofLabel?_iff]
      cases hunknown : labels.find? fun label => (FunctionalUnit.ofLabel? label).isNone with
      | none => cases labels.isEmpty <;> simp [hunknown]
      | some label => simp [hunknown]
  | perCycle _ => simp [Role.NamesUnknown]
  | detailedBase _ _ _ => simp [Role.NamesUnknown]
  | other => simp [Role.NamesUnknown]

end Counter

namespace Run

variable {α : Type} (run : Run α) (tables : Tables α)

lemma pairwise_classified : run.classified.Pairwise (·.name < ·.name) := by
  rw [classified, List.pairwise_map]
  exact run.counters.sorted

/-- A carried counter is classified by its name. -/
lemma carries_and_iff (n : String) (p : Role → Prop) :
    run.Carries n ∧ p (Role.ofName n) ↔ ∃ c ∈ run.classified, c.name = n ∧ p c.role := by
  rw [Carries, counter?, ← Catalog.contains, ← Catalog.mem_names_iff, Catalog.names, List.mem_map]
  constructor
  · rintro ⟨⟨b, hb, rfl⟩, hp⟩
    exact ⟨_, List.mem_map_of_mem hb, rfl, hp⟩
  · rintro ⟨c, hc, rfl, hp⟩
    obtain ⟨b, hb, rfl⟩ := List.mem_map.1 hc
    exact ⟨⟨b, hb, rfl⟩, hp⟩

/-- As counters are classified in name order, the findings of one kind are in order. -/
lemma pairwise_filterMap_finding? : (run.classified.filterMap (·.finding? tables)).Pairwise
    fun d e => d.isUnmapped = e.isUnmapped → d < e := by
  rw [List.pairwise_filterMap]
  refine run.pairwise_classified.imp ?_
  intro c c' hlt d hd e he hkind
  rcases Counter.finding?_cases hd with rfl | ⟨unit, rfl⟩ <;>
    rcases Counter.finding?_cases he with rfl | ⟨unit', rfl⟩
  · exact Diagnostic.unmappedCounter_lt hlt
  · cases hkind
  · cases hkind
  · exact Diagnostic.unknownUnit_lt hlt unit unit'

/-- **The findings are in order**: first by kind, and within a kind by the counters. -/
lemma pairwise_findings : (run.findings tables).Pairwise (· < ·) := by
  have hsame := run.pairwise_filterMap_finding? tables
  rw [findings, List.pairwise_append]
  refine ⟨?_, ?_, ?_⟩
  · refine (hsame.filter _).imp_of_mem ?_
    intro d e hd he h
    exact h ((List.of_mem_filter hd).trans (List.of_mem_filter he).symm)
  · refine (hsame.filter _).imp_of_mem ?_
    intro d e hd he h
    have hd := List.of_mem_filter hd
    have he := List.of_mem_filter he
    rw [Bool.not_eq_true'] at hd he
    exact h (hd.trans he.symm)
  · intro d hd e he
    cases d with
    | unmappedCounter n =>
        obtain ⟨hfound, hkind⟩ := List.mem_filter.1 he
        obtain ⟨c, -, hc⟩ := List.mem_filterMap.1 hfound
        rcases Counter.finding?_cases hc with rfl | ⟨unit, rfl⟩
        · cases hkind
        · exact Diagnostic.unmappedCounter_lt_unknownUnit ..
    | unknownUnit n unit => cases List.of_mem_filter hd
    | unusedKey k => cases List.of_mem_filter hd

end Run

/-! ## Unused categories -/

namespace Node

variable {α : Type} (k : String)

lemma reads_leaf_iff {name : String} {threshold : α} {source : Source} :
    Reads k (.leaf name threshold source) ↔ k ∈ source.keys := by
  constructor
  · rintro ⟨h⟩
    exact h
  · exact Reads.leaf

lemma reads_branch_iff {name : String} {threshold : α} {children : List (Node α)} :
    Reads k (.branch name threshold children) ↔ ∃ n ∈ children, Reads k n := by
  constructor
  · rintro (_ | ⟨hn, h⟩)
    exact ⟨_, hn, h⟩
  · rintro ⟨n, hn, h⟩
    exact Reads.branch hn h

mutual

lemma mem_keys_iff : ∀ n : Node α, k ∈ n.keys ↔ n.Reads k
  | .leaf .. => (reads_leaf_iff k).symm
  | .branch _ _ children => (mem_keysOfAll_iff children).trans (reads_branch_iff k).symm

lemma mem_keysOfAll_iff : ∀ ns : List (Node α), k ∈ keysOfAll ns ↔ ∃ n ∈ ns, n.Reads k
  | [] => by simp [keysOfAll]
  | n :: rest => by
      rw [keysOfAll, List.mem_append, mem_keys_iff n, mem_keysOfAll_iff rest,
        List.exists_mem_cons_iff]

end

end Node

namespace Tree

variable {α : Type} (tree : Tree α) (books : Books α)

lemma mem_unusedKeys_iff (d : Diagnostic) : d ∈ tree.unusedKeys books
    ↔ ∃ k, d = .unusedKey k ∧ (∃ l ∈ books.cores, l.contains k = true)
      ∧ ∀ n ∈ tree.roots, ¬ n.Reads k := by
  have hunread (k : String) : k ∉ tree.keys ↔ ∀ n ∈ tree.roots, ¬ n.Reads k := by
    rw [keys, Node.mem_keysOfAll_iff]
    simp
  rw [unusedKeys, List.mem_map]
  refine exists_congr ?_
  intro k
  rw [unread, List.mem_filter, Books.categories, Catalog.mem_unionNames, Bool.not_eq_true',
    List.contains_eq_mem, decide_eq_false_iff_not, hunread, and_comm, eq_comm]

/-- Unused categories are listed in name order. -/
lemma pairwise_unusedKeys : (tree.unusedKeys books).Pairwise (· < ·) := by
  have hsorted : books.categories.Pairwise (· < ·) := by
    rw [Books.categories, Catalog.unionNames, Catalog.names, List.pairwise_map]
    exact Catalog.sorted _
  rw [unusedKeys, unread, List.pairwise_map]
  exact (hsorted.filter _).imp Diagnostic.unusedKey_lt

end Tree

/-! ## Diagnostics of a report -/

section Reported

variable {α : Type} {run : Run α} {tables : Tables α} {tree : Tree α}

/-- A diagnostic is due if it is a finding on a counter or an unused category. -/
lemma Diagnostic.isDue_iff (books : Books α) (d : Diagnostic) : d.IsDue run tables tree books
    ↔ d ∈ run.findings tables ∨ d ∈ tree.unusedKeys books := by
  rw [run.mem_findings_iff, tree.mem_unusedKeys_iff]
  cases d with
  | unmappedCounter n =>
      rw [IsDue, run.carries_and_iff n fun role =>
        role = .criticalPath ∧ tables.targets.contains n = false ∨ role = .unitDetail []]
      simp [Counter.finding?_eq_unmappedCounter_iff]
  | unknownUnit n unit =>
      rw [IsDue, run.carries_and_iff n (·.NamesUnknown unit)]
      simp [Counter.finding?_eq_unknownUnit_iff]
  | unusedKey k =>
      have hfinding : ¬ ∃ c ∈ run.classified, c.finding? tables = some (.unusedKey k) := by
        rintro ⟨c, -, hc⟩
        rcases Counter.finding?_cases hc with h | ⟨unit, h⟩ <;> cases h
      simp [IsDue, hfinding]

/-- Findings come before unused categories. -/
lemma pairwise_diagnostics (run : Run α) (tables : Tables α) (tree : Tree α) (books : Books α) :
    (run.findings tables ++ tree.unusedKeys books).Pairwise (· < ·) := by
  rw [List.pairwise_append]
  refine ⟨run.pairwise_findings tables, tree.pairwise_unusedKeys books, ?_⟩
  intro d hd e he
  obtain ⟨c, -, hc⟩ := (run.mem_findings_iff tables d).1 hd
  obtain ⟨k, rfl, -⟩ := (tree.mem_unusedKeys_iff books e).1 he
  rcases Counter.finding?_cases hc with rfl | ⟨unit, rfl⟩
  · exact Diagnostic.unmappedCounter_lt_unusedKey ..
  · exact Diagnostic.unknownUnit_lt_unusedKey ..

/-- **Diagnostics are exact, in order and complete.**  The diagnostics of a report are strictly
increasing, so that none is listed twice, and they are exactly those that are due by the counters of
the run and by the categories of all its cores, whether shown or not and before any mean is formed.
No option changes them. -/
theorem diagnostics_compute [Amount α] {options : Options α} {report : Report α}
    (h : Report.compute tables run tree options = .ok report) :
    ∃ r, run.reconcile tables = .ok r ∧ r.books.ncores = run.ncores
      ∧ report.diagnostics.Pairwise (· < ·) ∧ report.diagnostics.Nodup
      ∧ (∀ d, d ∈ report.diagnostics ↔ d.IsDue run tables tree r.books)
      ∧ ∀ options' report', Report.compute tables run tree options' = .ok report' →
        report'.diagnostics = report.diagnostics := by
  obtain ⟨-, -, r, hr, rfl⟩ := Report.compute_eq_ok.1 h
  obtain ⟨-, -, hbooks, -⟩ := run.reconcile_eq_ok tables hr
  have hdiagnostics := fun options => Report.diagnostics_ofReconciliation hr run.ncores tree options
  have hordered := pairwise_diagnostics run tables tree r.books
  refine ⟨r, hr, ?_, ?_, ?_, ?_, ?_⟩
  · rw [Books.ncores, hbooks, List.length_map, List.length_range]
  · rw [hdiagnostics]
    exact hordered
  · rw [hdiagnostics]
    exact hordered.imp Diagnostic.ne_of_lt
  · intro d
    rw [hdiagnostics, List.mem_append, Diagnostic.isDue_iff]
  · intro options' report' h'
    obtain ⟨-, -, r', hr', rfl⟩ := Report.compute_eq_ok.1 h'
    obtain rfl := Except.ok.inj (hr.symm.trans hr')
    rw [hdiagnostics, hdiagnostics]

end Reported

/-- A counter of the critical path that no table names, one of a port with an unknown unit before
another one, and one of a port without units. -/
def unnamedRun : Run ℚ where
  ncores := 2
  config := .empty
  counters.toList :=
    [(".cpiBase", [50, 40]), ("interval_timer.cpContr_port6", [1]),
      ("interval_timer.detailed-cpiBaseFunctionalUnit-Load+Vector+Tensor", [2]),
      ("interval_timer.detailed-cpiBaseFunctionalUnit-port2-", [3]),
      (Stat.cycleCount, [100, 120]), (Stat.instructionCount, [30, 60])]
  counters.sorted := by decide +kernel
  ncores_pos := Nat.two_pos

/-- The first of two unknown units is named, also in a report of the other core. -/
theorem diagnostics_unnamedRun : ∃ report : Report ℚ,
    Report.compute branchTables unnamedRun contendedTree
        { unfiltered false with cores := some [1] } = .ok report
      ∧ report.diagnostics.Pairwise (· < ·)
      ∧ .unmappedCounter "interval_timer.cpContr_port6" ∈ report.diagnostics
      ∧ .unmappedCounter "interval_timer.detailed-cpiBaseFunctionalUnit-port2-"
        ∈ report.diagnostics
      ∧ .unknownUnit "interval_timer.detailed-cpiBaseFunctionalUnit-Load+Vector+Tensor" "Vector"
        ∈ report.diagnostics
      ∧ .unusedKey Category.base ∉ report.diagnostics := by
  obtain ⟨report, h⟩ : ∃ report, Report.compute branchTables unnamedRun contendedTree
      { unfiltered false with cores := some [1] } = .ok report := ⟨_, rfl⟩
  obtain ⟨r, -, -, hordered, -, hdue, -⟩ := diagnostics_compute h
  have hread : Node.Reads Category.base
      (.leaf "base" (1 / 100) (.category Category.base) : Node ℚ) := .leaf (by decide)
  refine ⟨report, h, hordered, ?_, ?_, ?_, ?_⟩
  · rw [hdue]
    exact ⟨by decide +kernel, .inl ⟨by decide +kernel, by decide +kernel⟩⟩
  · rw [hdue]
    exact ⟨by decide +kernel, .inr (by decide +kernel)⟩
  · rw [hdue]
    refine ⟨by decide +kernel, ["Load"], ["Tensor"], by decide +kernel, ?_, ?_⟩
    · intro label hlabel
      exact ⟨.load, (List.mem_singleton.1 hlabel).symm⟩
    · rintro ⟨u, hu⟩
      cases u <;> revert hu <;> decide
  · rw [hdue]
    rintro ⟨-, hunread⟩
    exact hunread _ List.mem_cons_self hread

end CycleAccounting
