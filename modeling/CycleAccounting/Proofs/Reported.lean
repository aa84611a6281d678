import CycleAccounting.Attribution.PerCycle
import CycleAccounting.Proofs.Ledger
import CycleAccounting.TimeBasis

/-!
# What the per-cycle counters report

The first three passes over a core's ledger book its per-cycle counters, clear a copied time of
memory access and make up a start time.  This file says what a run reports without mentioning
ledgers (`Run.reportedCycles`, `Run.correctedCycles`) and proves that the ledger after the three
passes, `Run.correctedLedger`, holds exactly that: category by category (`amount_correctedLedger`)
and in which categories there are (`contains_correctedLedger`).
-/

namespace CycleAccounting

/-! ## Sums over the counters of a run -/

namespace Run

/-- The categories of the per-cycle counters of a run. -/
def reported {α : Type} (run : Run α) : Finset String :=
  (run.classified.filterMap fun c =>
    match c.role with
    | .perCycle category => some category
    | _ => none).toFinset

lemma mem_reported_iff {α : Type} (run : Run α) (k : String) :
    k ∈ run.reported ↔ ∃ c ∈ run.classified, c.role = .perCycle k := by
  rw [reported, List.mem_toFinset, List.mem_filterMap]
  refine exists_congr fun c => and_congr_right ?_
  intro _
  cases c.role <;> simp

/-- Whether the run carries a counter of the given name. -/
def Carries {α : Type} (run : Run α) (counter : String) : Prop := (run.counter? counter).isSome

instance {α : Type} (run : Run α) (counter : String) : Decidable (run.Carries counter) :=
  inferInstanceAs (Decidable ((run.counter? counter).isSome = true))

variable (run : Run ℚ) (basis : TimeBasis ℚ) (core : ℕ)

/-- The sum of a core's values over all counters with one of some roles. -/
def sumOver (roles : Role → Prop) [DecidablePred roles] : ℚ :=
  ((run.classified.filter (roles ·.role)).map (·.value core)).sum

/-- The cycles that a core reports under a category. -/
def reportedCycles (category : String) : ℚ :=
  Amount.getAt basis.scale core * run.sumOver core (· = .perCycle category)

/-- A copied memory-access time counts as zero.  It is a copy if the barrier time is reported too
and is the same. -/
def clearedCycles (category : String) : ℚ :=
  if category = Category.memAccess
      ∧ Category.memAccess ∈ run.reported ∧ Category.barrier ∈ run.reported
      ∧ run.reportedCycles basis core Category.memAccess
        = run.reportedCycles basis core Category.barrier
  then 0
  else run.reportedCycles basis core category

/-- Whether a start time is made up: none is reported, and the run tells the idle time. -/
def MakesUpStart {α : Type} (run : Run α) : Prop :=
  Category.startTime ∉ run.reported ∧ run.Carries Stat.idleElapsedTime

instance {α : Type} (run : Run α) : Decidable run.MakesUpStart :=
  inferInstanceAs (Decidable (_ ∧ _))

/-- The cycles of a category with both corrections made: a start time that is not reported is the
idle time less what synchronization explains of it. -/
def correctedCycles (category : String) : ℚ :=
  if category = Category.startTime ∧ run.MakesUpStart then
    Amount.getAt basis.scale core * run.value Stat.idleElapsedTime core
      - run.clearedCycles basis core Category.futex - run.clearedCycles basis core Category.mutex
      - run.clearedCycles basis core Category.cond - run.clearedCycles basis core Category.barrier
      - run.clearedCycles basis core Category.recv
  else run.clearedCycles basis core category

/-- The categories that have cycles once both corrections are made. -/
def correctedCategories {α : Type} (run : Run α) : Finset String :=
  if run.MakesUpStart then insert Category.startTime run.reported else run.reported

end Run

/-! ## The ledger of the per-cycle counters -/

namespace Ledger

lemma contains_bookPerCycle {α : Type} [Amount α] (c : Counter α) (core : ℕ) (scale : α)
    (l : Ledger α) (k : String) :
    (c.bookPerCycle core scale l).contains k = true
      ↔ c.role = .perCycle k ∨ l.contains k = true := by
  rw [Counter.bookPerCycle]
  cases c.role with
  | perCycle category => simp [contains_book, eq_comm (a := k)]
  | _ => simp

lemma contains_foldl_bookPerCycle {α : Type} [Amount α] (counters : List (Counter α)) (core : ℕ)
    (scale : α) (l : Ledger α) (k : String) :
    (counters.foldl (fun l c => c.bookPerCycle core scale l) l).contains k = true
      ↔ (∃ c ∈ counters, c.role = .perCycle k) ∨ l.contains k = true := by
  induction counters generalizing l with
  | nil => simp
  | cons c counters ih =>
      rw [List.foldl_cons, ih, contains_bookPerCycle, List.exists_mem_cons_iff, or_left_comm,
        or_assoc]

lemma amount_bookPerCycle (c : Counter ℚ) (core : ℕ) (scale : ℚ) (l : Ledger ℚ) (k : String) :
    (c.bookPerCycle core scale l).amount k
      = l.amount k + if c.role = .perCycle k then c.value core * scale else 0 := by
  rw [Counter.bookPerCycle]
  cases c.role with
  | perCycle category =>
      simp only [amount_book, Role.perCycle.injEq]
      by_cases h : k = category
      · subst h; rw [if_pos rfl, if_pos rfl, add_comm]
      · rw [if_neg h, if_neg (Ne.symm h), add_zero]
  | _ => simp

lemma amount_foldl_bookPerCycle (counters : List (Counter ℚ)) (core : ℕ) (scale : ℚ)
    (l : Ledger ℚ) (k : String) :
    (counters.foldl (fun l c => c.bookPerCycle core scale l) l).amount k
      = l.amount k
        + scale * ((counters.filter (·.role = .perCycle k)).map (·.value core)).sum := by
  induction counters generalizing l with
  | nil => simp
  | cons c counters ih =>
      rw [List.foldl_cons, ih, amount_bookPerCycle]
      by_cases h : c.role = .perCycle k
      · rw [List.filter_cons_of_pos (by simpa using h), List.map_cons, List.sum_cons, if_pos h]
        ring
      · rw [List.filter_cons_of_neg (by simpa using h), if_neg h, add_zero]

lemma contains_ofPerCycle {α : Type} [Amount α] (run : Run α) (core : ℕ) (scale : α) (k : String) :
    (ofPerCycle run.classified core scale).contains k = true ↔ k ∈ run.reported := by
  rw [ofPerCycle, contains_foldl_bookPerCycle, Run.mem_reported_iff]
  simp

lemma amount_ofPerCycle (run : Run ℚ) (basis : TimeBasis ℚ) (core : ℕ) (k : String) :
    (ofPerCycle run.classified core (Amount.getAt basis.scale core)).amount k
      = run.reportedCycles basis core k := by
  rw [ofPerCycle, amount_foldl_bookPerCycle, amount_empty]
  exact zero_add _

/-! ## The two corrections -/

lemma contains_clearCopiedMemAccess {α : Type} [Amount α] (l : Ledger α) (k : String) :
    l.clearCopiedMemAccess.contains k = l.contains k := by
  rw [clearCopiedMemAccess]
  split
  · next memAccess _ hm _ =>
    split_ifs
    · rw [Catalog.contains_insert]
      by_cases hk : k = Category.memAccess
      · simp [hk, Catalog.contains, hm]
      · simp [hk]
    · rfl
  · rfl

lemma amount_clearCopiedMemAccess (l : Ledger ℚ) (k : String) :
    l.clearCopiedMemAccess.amount k
      = if k = Category.memAccess ∧ l.contains Category.memAccess = true
            ∧ l.contains Category.barrier = true
            ∧ l.amount Category.memAccess = l.amount Category.barrier
        then 0 else l.amount k := by
  rw [clearCopiedMemAccess]
  split
  · next memAccess barrier hm hb =>
    simp only [Catalog.contains, amount, Catalog.getD, hm, hb, Option.isSome_some,
      Option.getD_some, true_and, Amount.identical_iff]
    by_cases same : memAccess = barrier
    · simp only [same, if_true, and_true]
      exact amount_insert l _ k 0
    · simp [same]
  · next hnone =>
    rw [if_neg]
    rintro ⟨-, hm, hb, -⟩
    obtain ⟨memAccess, hm⟩ := Option.isSome_iff_exists.1 hm
    obtain ⟨barrier, hb⟩ := Option.isSome_iff_exists.1 hb
    exact hnone memAccess barrier hm hb

lemma contains_bookStart {α : Type} [Amount α] (run : Run α) (core : ℕ) (scale : α)
    (l : Ledger α) (k : String) :
    (l.bookStart run core scale).contains k = true
      ↔ l.contains k = true ∨ k = Category.startTime ∧ run.Carries Stat.idleElapsedTime := by
  rw [bookStart]
  split_ifs with h
  · rw [Bool.or_eq_true, Option.isNone_iff_eq_none] at h
    refine (or_iff_left_of_imp ?_).symm
    rintro ⟨rfl, hidle⟩
    exact h.resolve_right fun hnone => by simp [Run.Carries, hnone] at hidle
  · simp only [Bool.or_eq_true, not_or, Option.isNone_iff_eq_none] at h
    have hidle : run.Carries Stat.idleElapsedTime := Option.isSome_iff_ne_none.2 h.2
    simp [Catalog.contains_insert, hidle, or_comm]

lemma amount_bookStart {α : Type} [Amount α] (run : Run α) (core : ℕ) (scale : α)
    (l : Ledger α) (k : String) :
    (l.bookStart run core scale).amount k
      = if k = Category.startTime ∧ l.contains Category.startTime = false
            ∧ run.Carries Stat.idleElapsedTime
        then l.reconstructedStart scale (run.value Stat.idleElapsedTime core)
        else l.amount k := by
  have hidle : (run.counter? Stat.idleElapsedTime).isNone
      = !decide (run.Carries Stat.idleElapsedTime) := by
    cases h : run.counter? Stat.idleElapsedTime <;> simp [Run.Carries, h]
  rw [bookStart, hidle]
  by_cases hs : l.contains Category.startTime = true <;>
    by_cases hc : run.Carries Stat.idleElapsedTime <;> simp [hs, hc, amount_insert]

end Ledger

/-! ## The corrected ledger -/

namespace Run

/-- The ledger of a core before any cycles are attributed. -/
def correctedLedger {α : Type} [Amount α] (run : Run α) (basis : TimeBasis α) (core : ℕ) :
    Ledger α :=
  (Ledger.ofPerCycle run.classified core (Amount.getAt basis.scale core)).clearCopiedMemAccess
    |>.bookStart run core (Amount.getAt basis.scale core)

lemma contains_correctedLedger {α : Type} [Amount α] (run : Run α) (basis : TimeBasis α)
    (core : ℕ) (k : String) :
    (run.correctedLedger basis core).contains k = true ↔ k ∈ run.correctedCategories := by
  rw [correctedLedger, Ledger.contains_bookStart, Ledger.contains_clearCopiedMemAccess,
    Ledger.contains_ofPerCycle, correctedCategories]
  split_ifs with h
  · simp [h.2, or_comm]
  · refine or_iff_left_of_imp ?_
    rintro ⟨rfl, hidle⟩
    exact not_not.1 fun hs => h ⟨hs, hidle⟩

/-- The amounts after the first correction are the cleared cycles. -/
lemma amount_cleared (run : Run ℚ) (basis : TimeBasis ℚ) (core : ℕ) (k : String) :
    (Ledger.ofPerCycle run.classified core
        (Amount.getAt basis.scale core)).clearCopiedMemAccess.amount k
      = run.clearedCycles basis core k := by
  rw [Ledger.amount_clearCopiedMemAccess, clearedCycles]
  simp only [Ledger.contains_ofPerCycle, Ledger.amount_ofPerCycle]

/-- **The corrected ledger holds the corrected cycles**, category by category. -/
theorem amount_correctedLedger (run : Run ℚ) (basis : TimeBasis ℚ) (core : ℕ) (k : String) :
    (run.correctedLedger basis core).amount k = run.correctedCycles basis core k := by
  rw [correctedLedger, Ledger.amount_bookStart, correctedCycles, Ledger.reconstructedStart]
  simp only [amount_cleared, MakesUpStart, ← Ledger.contains_ofPerCycle run core
    (Amount.getAt basis.scale core), Ledger.contains_clearCopiedMemAccess, Bool.not_eq_true]

end Run

end CycleAccounting
