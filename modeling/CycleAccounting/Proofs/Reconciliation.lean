import CycleAccounting.Proofs.Attribution
import CycleAccounting.Reconciliation

/-!
# What reconciliation books

A run is reconciled core by core, and `Run.settledLedger` is the ledger of one core
(`reconcile_eq_ok`).  Three statements describe it over the rationals.

* **`total_settledLedger`**: a ledger adds up to the budget of its core.
* **`ledger_reconciled`**: a category that is not derived holds what the counters report under it,
  corrected, and what the critical path contributes to it, the base category less all that is
  attributed elsewhere; and it is there only if one of these mentions it.
* **`imbalance_reconciled`**: attribution moves cycles and neither makes nor loses any, but for
  contention that no port counter splits.  So the imbalance is told by the per-cycle counters and
  the contention alone.
-/

namespace CycleAccounting

/-! ## Successful computations -/

lemma bind_eq_ok {ε β γ : Type} {x : Except ε β} {f : β → Except ε γ} {c : γ} :
    (x >>= f) = .ok c ↔ ∃ b, x = .ok b ∧ f b = .ok c := by
  cases x <;> simp [bind, Except.bind]

lemma bind_eq_error {ε β γ : Type} {x : Except ε β} {f : β → Except ε γ} {e : ε} :
    (x >>= f) = .error e ↔ x = .error e ∨ ∃ b, x = .ok b ∧ f b = .error e := by
  cases x <;> simp [bind, Except.bind]

/-- A value of a result is found only if there is a result. -/
lemma exists_ok_of_toOption {ε β γ : Type} {x : Except ε β} {f : β → γ} {c : γ}
    (h : x.toOption.map f = some c) : ∃ b, x = .ok b ∧ f b = c := by
  cases x with
  | ok b => exact ⟨b, rfl, Option.some.inj h⟩
  | error e => cases h

lemma mapIdx_map_range {β γ : Type} (f : ℕ → β) (g : ℕ → β → γ) (n : ℕ) :
    ((List.range n).map f).mapIdx g = (List.range n).map fun i => g i (f i) := by
  refine List.ext_getElem (by simp) ?_
  intro i _ _
  simp

/-- The categories that are booked anew, whatever was reported under their names: the imbalance
and those of the units. -/
def Category.derived : List String :=
  Category.imbalance :: FunctionalUnit.all.map FunctionalUnit.category

namespace Run

section Settled

variable {α : Type} [Amount α] (run : Run α) (tables : Tables α) (basis : TimeBasis α) (core : ℕ)

/-- The ledger of a core with all cycles attributed, before it is balanced. -/
def attributedLedger : Ledger α :=
  (run.correctedLedger basis core).attributeCriticalPath run tables core
    |>.attributeUnits run.classified core
    |>.attributeDispatchWidth run.classified core

/-- The ledger of a core as reconciliation leaves it. -/
def settledLedger : Ledger α :=
  (run.attributedLedger tables basis core).balance (basis.coreCycles core)

lemma settle_eq :
    (Ledger.ofPerCycle run.classified core (Amount.getAt basis.scale core)).settle
        run tables basis run.classified core = run.settledLedger tables basis core := by
  rw [settledLedger, attributedLedger, correctedLedger, Ledger.settle]

lemma isEmpty_ofPerCycle (scale : α) :
    (Ledger.ofPerCycle run.classified core scale).isEmpty = true ↔ run.reported = ∅ := by
  rw [Catalog.isEmpty_iff, Finset.eq_empty_iff_forall_notMem]
  refine forall_congr' ?_
  intro k
  rw [← Ledger.contains_ofPerCycle run core scale, Bool.not_eq_true]

/-- Reconciliation with the passes over a core in one.  The refusal of a run does not depend on what
its counters hold. -/
lemma reconcile_eq : run.reconcile tables = do
    let instructions ← run.instructions
    let basis ← TimeBasis.ofRun run
    if run.reported = ∅ then throw .missingModel
    return ⟨⟨(List.range run.ncores).map (run.settledLedger tables basis)⟩, basis, instructions,
      run.findings tables⟩ := by
  rw [reconcile]
  refine bind_congr ?_
  intro instructions
  refine bind_congr ?_
  intro basis
  have hrefused : ((List.range run.ncores).map fun core =>
      Ledger.ofPerCycle run.classified core (Amount.getAt basis.scale core)).all (·.isEmpty) = true
        ↔ run.reported = ∅ := by
    rw [List.all_map, List.all_eq_true]
    constructor
    · intro hall
      exact (run.isEmpty_ofPerCycle 0 _).1 (hall 0 (List.mem_range.2 run.ncores_pos))
    · intro hnone core _
      exact (run.isEmpty_ofPerCycle core _).2 hnone
  dsimp only
  rw [mapIdx_map_range]
  simp only [hrefused, run.settle_eq tables basis]

lemma reconcile_eq_ok_iff {r : Reconciliation α} : run.reconcile tables = .ok r
    ↔ run.instructions = .ok r.instructions ∧ TimeBasis.ofRun run = .ok r.basis
      ∧ run.reported ≠ ∅
      ∧ r.books.cores = (List.range run.ncores).map (run.settledLedger tables r.basis)
      ∧ r.diagnostics = run.findings tables := by
  simp only [reconcile_eq, bind_eq_ok]
  constructor
  · rintro ⟨instructions, hi, basis, hb, h⟩
    split at h
    · cases h
    · next hreported =>
      obtain rfl := Except.ok.inj h
      exact ⟨hi, hb, hreported, rfl, rfl⟩
  · rintro ⟨hi, hb, hreported, hbooks, hdiagnostics⟩
    refine ⟨r.instructions, hi, r.basis, hb, ?_⟩
    rw [if_neg hreported, ← hbooks, ← hdiagnostics]
    rfl

/-- **A run is reconciled core by core**, from its time basis and its instruction counts. -/
theorem reconcile_eq_ok {r : Reconciliation α} (h : run.reconcile tables = .ok r) :
    run.instructions = .ok r.instructions ∧ TimeBasis.ofRun run = .ok r.basis
      ∧ r.books.cores = (List.range run.ncores).map (run.settledLedger tables r.basis)
      ∧ r.diagnostics = run.findings tables := by
  obtain ⟨hi, hb, -, hbooks, hdiagnostics⟩ := (run.reconcile_eq_ok_iff tables).1 h
  exact ⟨hi, hb, hbooks, hdiagnostics⟩

end Settled

end Run

/-! ## Balancing -/

namespace Ledger

lemma contains_balance {α : Type} [Amount α] (l : Ledger α) (budget : α) (k : String) :
    (l.balance budget).contains k = true ↔ l.contains k = true ∨ k = Category.imbalance := by
  rw [balance, Catalog.contains_insert, Catalog.contains_erase]
  by_cases hk : k = Category.imbalance <;> simp [hk]

lemma amount_balance_of_ne {α : Type} [Amount α] (l : Ledger α) (budget : α) {k : String}
    (h : k ≠ Category.imbalance) : (l.balance budget).amount k = l.amount k := by
  rw [balance, amount_insert, if_neg h, amount_erase, if_neg h]

/-- Balancing touches nothing but the imbalance. -/
lemma erase_balance {α : Type} [Amount α] (l : Ledger α) (budget : α) :
    Catalog.erase (l.balance budget) Category.imbalance = Catalog.erase l Category.imbalance := by
  apply Catalog.ext_get?
  intro k
  rw [balance, Catalog.get?_erase, Catalog.get?_insert, Catalog.get?_erase]
  split_ifs <;> rfl

/-- The imbalance is what the other categories leave of the budget. -/
lemma amount_balance_imbalance (l : Ledger ℚ) (budget : ℚ) :
    (l.balance budget).amount Category.imbalance
      = budget - (l.total - l.amount Category.imbalance) := by
  rw [balance, amount_insert, if_pos rfl, total_erase]

lemma total_balance (l : Ledger ℚ) (budget : ℚ) : (l.balance budget).total = budget := by
  rw [balance, total_insert, amount_erase, if_pos rfl]
  ring

end Ledger

namespace Run

variable (run : Run ℚ) (tables : Tables ℚ) (basis : TimeBasis ℚ) (core : ℕ)

/-- **A ledger adds up to the budget of its core.** -/
theorem total_settledLedger :
    (run.settledLedger tables basis core).total = basis.coreCycles core :=
  Ledger.total_balance _ _

/-! ## Categories that are not derived -/

lemma ne_imbalance_of_not_derived {k : String} (h : k ∉ Category.derived) :
    k ≠ Category.imbalance := by
  rintro rfl
  exact h List.mem_cons_self

lemma ne_category_of_not_derived {k : String} (h : k ∉ Category.derived) (u : FunctionalUnit) :
    k ≠ u.category := by
  rintro rfl
  exact h (List.mem_cons_of_mem _ (List.mem_map_of_mem (FunctionalUnit.mem_all u)))

lemma amount_attributedLedger {k : String} (h : ∀ u : FunctionalUnit, k ≠ u.category) :
    (run.attributedLedger tables basis core).amount k
      = run.correctedCycles basis core k + run.contributionTo tables core k
        - (if k = Category.base then
            run.contributionsTotal tables core + run.contention core + run.stalls core else 0)
        + (if k = Category.issue then run.stalls core else 0) := by
  rw [attributedLedger, Ledger.amount_attributeDispatchWidth, Ledger.amount_attributeUnits _ _ _ h,
    Ledger.amount_attributeCriticalPath, amount_correctedLedger]
  split_ifs <;> ring

lemma contains_attributedLedger {α : Type} [Amount α] (run : Run α) (tables : Tables α)
    (basis : TimeBasis α) (core : ℕ) (k : String) :
    (run.attributedLedger tables basis core).contains k = true
      ↔ k ∈ run.correctedCategories ∨ k = Category.base ∨ (∃ u : FunctionalUnit, k = u.category)
        ∨ (∃ b ∈ tables.targets.toList, run.Carries b.1 ∧ k = b.2)
        ∨ k = Category.issue ∧ ∃ c ∈ run.classified, c.role = .detailedBase false true false := by
  rw [attributedLedger, Ledger.contains_attributeDispatchWidth, Ledger.contains_attributeUnits,
    Ledger.attributeCriticalPath_eq, Ledger.contains_foldl_moveFromBase, contains_correctedLedger]
  have hmoves : (∃ b ∈ run.contributions tables core, k = Category.base ∨ k = b.1)
      ↔ ∃ b ∈ tables.targets.toList, run.Carries b.1 ∧ (k = Category.base ∨ k = b.2) := by
    constructor
    · rintro ⟨b, hb, hk⟩
      obtain ⟨entry, he, rfl⟩ := List.mem_map.1 hb
      obtain ⟨he, hc⟩ := List.mem_filter.1 he
      exact ⟨entry, he, of_decide_eq_true hc, hk⟩
    · rintro ⟨entry, he, hc, hk⟩
      exact ⟨_, List.mem_map_of_mem (List.mem_filter.2 ⟨he, decide_eq_true hc⟩), hk⟩
  rw [hmoves]
  by_cases hb : k = Category.base
  · simp [hb]
  · simp only [hb, false_or]
    rw [or_assoc, or_assoc]
    exact or_congr_right or_left_comm

/-! ## The imbalance -/

lemma contributionTo_eq_zero {k : String} (h : k ∉ tables.targets.values) :
    run.contributionTo tables core k = 0 := by
  have hnone : (run.contributions tables core).filter (·.1 = k) = [] := by
    refine List.filter_eq_nil_iff.2 ?_
    intro b hb
    obtain ⟨entry, he, rfl⟩ := List.mem_map.1 hb
    have hk : entry.2 ≠ k := by
      rintro rfl
      exact h (List.mem_map_of_mem (List.mem_filter.1 he).1)
    simpa using hk
  rw [contributionTo, hnone]
  rfl

lemma total_correctedLedger :
    (run.correctedLedger basis core).total
      = ∑ k ∈ run.correctedCategories, run.correctedCycles basis core k := by
  rw [Ledger.total_eq_sum _ fun k hk => (run.contains_correctedLedger basis core k).1 hk]
  exact Finset.sum_congr rfl fun k _ => run.amount_correctedLedger basis core k

lemma correctedCycles_eq_zero {k : String} (h : k ∉ run.correctedCategories) :
    run.correctedCycles basis core k = 0 := by
  rw [← amount_correctedLedger]
  refine Ledger.amount_of_not_contains (Bool.eq_false_iff.2 fun hk => h ?_)
  exact (run.contains_correctedLedger basis core k).1 hk

/-- The corrected cycles split into those under derived names and the rest. -/
lemma sum_correctedCycles :
    ∑ k ∈ run.correctedCategories, run.correctedCycles basis core k
      = ∑ k ∈ run.correctedCategories.filter (· ∉ Category.derived),
          run.correctedCycles basis core k
        + (run.correctedCycles basis core Category.imbalance
          + (FunctionalUnit.all.map fun u => run.correctedCycles basis core u.category).sum) := by
  have hnames : ∑ k ∈ Category.derived.toFinset, run.correctedCycles basis core k
      = run.correctedCycles basis core Category.imbalance
        + (FunctionalUnit.all.map fun u => run.correctedCycles basis core u.category).sum := by
    rw [List.sum_toFinset _ (by decide), Category.derived, List.map_cons, List.sum_cons,
      List.map_map]
    rfl
  have hderived : ∑ k ∈ run.correctedCategories.filter (· ∈ Category.derived),
        run.correctedCycles basis core k
      = ∑ k ∈ Category.derived.toFinset, run.correctedCycles basis core k := by
    apply Finset.sum_subset
    · intro k hk
      exact List.mem_toFinset.2 (Finset.mem_filter.1 hk).2
    · intro k hd hk
      apply run.correctedCycles_eq_zero basis core
      intro hc
      exact hk (Finset.mem_filter.2 ⟨hc, List.mem_toFinset.1 hd⟩)
  rw [← hnames, ← hderived, add_comm]
  exact (Finset.sum_filter_add_sum_filter_not _ _ _).symm

/-- The total of the attributed ledger, without its imbalance: what is reported under names that
are not derived, less the contention that is not split. -/
lemma total_attributedLedger_sub (h : ∀ k ∈ Category.derived, k ∉ tables.targets.values) :
    (run.attributedLedger tables basis core).total
        - (run.attributedLedger tables basis core).amount Category.imbalance
      = ∑ k ∈ run.correctedCategories.filter (· ∉ Category.derived),
          run.correctedCycles basis core k
        - if run.portCycles core = 0 then run.contention core else 0 := by
  have himbalance : (run.attributedLedger tables basis core).amount Category.imbalance
      = run.correctedCycles basis core Category.imbalance := by
    rw [amount_attributedLedger _ _ _ _ fun u => by cases u <;> decide,
      contributionTo_eq_zero _ _ _ (h _ List.mem_cons_self), if_neg (by decide),
      if_neg (by decide)]
    ring
  have hunits : FunctionalUnit.all.map (fun u =>
        ((run.correctedLedger basis core).attributeCriticalPath run tables core).amount u.category)
      = FunctionalUnit.all.map fun u => run.correctedCycles basis core u.category := by
    refine List.map_congr_left ?_
    intro u hu
    rw [Ledger.amount_attributeCriticalPath, amount_correctedLedger,
      contributionTo_eq_zero _ _ _ (h _ (List.mem_cons_of_mem _ (List.mem_map_of_mem hu))),
      if_neg (Ledger.category_ne_base u)]
    ring
  rw [himbalance, attributedLedger, Ledger.total_attributeDispatchWidth,
    Ledger.total_attributeUnits, Ledger.total_attributeCriticalPath, total_correctedLedger,
    hunits, sum_correctedCycles]
  ring

end Run

/-! ## The books of a run -/

/-- Two cores.  The second one's memory-access time is a copy and its contention is split between
two units; the first one's is neither. -/
def contendedRun : Run ℚ where
  ncores := 2
  config := .empty
  counters.toList :=
    [(".cpiBase", [50, 40]), (".cpiFU_Load", [9, 9]), (".cpiSyncMemAccess", [3, 3]),
      (".cpiSyncPthreadBarrier", [2, 3]), ("branches", [100, 400]), (Stat.timeToCycles, [1, 2]),
      ("interval_timer.detailed-cpiBase-DispatchWidth", [4, 4]),
      ("interval_timer.detailed-cpiBase-FunctionalUnit", [6, 8]),
      ("interval_timer.detailed-cpiBaseFunctionalUnit-Load+Store", [0, 2]),
      (Stat.elapsedTime, [100, 120]), (Stat.idleElapsedTime, [5, 7]),
      (Stat.instructionCount, [30, 60])]
  counters.sorted := by decide +kernel
  ncores_pos := by decide

/-- Tables that book one counter as issue cycles, like stalls. -/
def branchTables : Tables ℚ := ⟨.ofList [("branches", Category.issue)], 100⟩

lemma reconcile_contendedRun :
    ∃ r, contendedRun.reconcile branchTables = .ok r ∧ r.basis = ⟨[100, 120], [1, 2], 1⟩ :=
  ⟨_, rfl, rfl⟩

section Reconciled

variable {run : Run ℚ} {tables : Tables ℚ} {r : Reconciliation ℚ}

lemma cores_reconciled {α : Type} [Amount α] {run : Run α} {tables : Tables α}
    {r : Reconciliation α} (h : run.reconcile tables = .ok r) {core : ℕ}
    (hcore : core < run.ncores) :
    r.books.cores[core]? = some (run.settledLedger tables r.basis core) := by
  obtain ⟨-, -, hbooks, -⟩ := run.reconcile_eq_ok tables h
  rw [hbooks, List.getElem?_map, List.getElem?_range hcore]
  rfl

lemma amount_reconciled {α : Type} [Amount α] {run : Run α} {tables : Tables α}
    {r : Reconciliation α} (h : run.reconcile tables = .ok r) {core : ℕ}
    (hcore : core < run.ncores) (k : String) :
    r.books.amount core k = (run.settledLedger tables r.basis core).amount k := by
  rw [Books.amount, cores_reconciled h hcore]

/-- **The closed form of a ledger.**  A category holds what the counters report under it,
corrected, and what the critical path contributes to it; from the base category everything that is
attributed is taken, and the issue category gets the stalls of the dispatch width.  It is there if
one of these mentions it. -/
theorem ledger_reconciled (h : run.reconcile tables = .ok r) {core : ℕ}
    (hcore : core < run.ncores) :
    ∃ l, r.books.cores[core]? = some l ∧ l.total = r.basis.coreCycles core
      ∧ ∀ k, k ∉ Category.derived →
        l.amount k
          = run.correctedCycles r.basis core k + run.contributionTo tables core k
            - (if k = Category.base then
                run.contributionsTotal tables core + run.contention core + run.stalls core else 0)
            + (if k = Category.issue then run.stalls core else 0)
        ∧ (l.contains k = true
          ↔ k ∈ run.correctedCategories ∨ k = Category.base
            ∨ (∃ b ∈ tables.targets.toList, run.Carries b.1 ∧ k = b.2)
            ∨ k = Category.issue
              ∧ ∃ c ∈ run.classified, c.role = .detailedBase false true false) := by
  refine ⟨_, cores_reconciled h hcore, run.total_settledLedger tables r.basis core, ?_⟩
  intro k hk
  have himbalance := Run.ne_imbalance_of_not_derived hk
  have hunit := Run.ne_category_of_not_derived hk
  constructor
  · rw [Run.settledLedger, Ledger.amount_balance_of_ne _ _ himbalance]
    exact run.amount_attributedLedger tables r.basis core hunit
  · rw [Run.settledLedger, Ledger.contains_balance, run.contains_attributedLedger]
    simp [himbalance, hunit]

/-- The second core: both corrections apply, and the base category is reduced three times. -/
theorem ledger_contendedRun : ∃ r l, contendedRun.reconcile branchTables = .ok r
    ∧ 1 < contendedRun.ncores ∧ r.books.cores[1]? = some l
    ∧ l.amount Category.base = 64 ∧ l.amount Category.issue = 8
    ∧ l.amount Category.startTime = 8 ∧ l.amount Category.memAccess = 0 := by
  obtain ⟨r, h, hbasis⟩ := reconcile_contendedRun
  have hcore : 1 < contendedRun.ncores := by decide
  obtain ⟨l, hl, -, hk⟩ := ledger_reconciled h hcore
  refine ⟨r, l, h, hcore, hl, ?_⟩
  rw [(hk _ (by decide)).1, (hk _ (by decide)).1, (hk _ (by decide)).1, (hk _ (by decide)).1,
    hbasis]
  decide +kernel

/-- **Attribution only moves cycles.**  The imbalance is what the reported cycles leave of the
budget, and besides them only contention that no port counter splits. -/
theorem imbalance_reconciled (h : run.reconcile tables = .ok r) {core : ℕ}
    (hcore : core < run.ncores) (htargets : ∀ k ∈ Category.derived, k ∉ tables.targets.values) :
    r.books.amount core Category.imbalance
      = r.basis.coreCycles core
        - ∑ k ∈ run.correctedCategories.filter (· ∉ Category.derived),
            run.correctedCycles r.basis core k
        + (if run.portCycles core = 0 then run.contention core else 0) := by
  rw [amount_reconciled h hcore, Run.settledLedger, Ledger.amount_balance_imbalance,
    run.total_attributedLedger_sub tables r.basis core htargets]
  ring

/-- On the first core the contention is not split and stays in the imbalance; on the second it is
split. -/
theorem imbalance_contendedRun : ∃ r, contendedRun.reconcile branchTables = .ok r
    ∧ (∀ k ∈ Category.derived, k ∉ branchTables.targets.values)
    ∧ r.books.amount 0 Category.imbalance = 68 ∧ r.books.amount 1 Category.imbalance = 146 := by
  obtain ⟨r, h, hbasis⟩ := reconcile_contendedRun
  have htargets : ∀ k ∈ Category.derived, k ∉ branchTables.targets.values := by decide
  refine ⟨r, h, htargets, ?_⟩
  rw [imbalance_reconciled h (by decide) htargets, imbalance_reconciled h (by decide) htargets,
    hbasis]
  decide +kernel

end Reconciled

end CycleAccounting
