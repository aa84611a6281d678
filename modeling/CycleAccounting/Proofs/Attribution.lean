import CycleAccounting.Attribution.Contention
import CycleAccounting.Proofs.Reported
import Mathlib.Algebra.BigOperators.Ring.List

/-!
# What the attribution passes move

The three attribution passes take cycles out of the base category.  For each of them this file has
three lemmas: which categories are there afterwards, what each of them holds, and what becomes of
the total.

**Critical path.**  A contribution is deducted from the base category and booked elsewhere, so the
total stays, even where the target is the base category itself or one that was there before.

**Functional units.**  The contention is deducted and the units' categories are overwritten.  They
add up to the contention unless the port counters give nothing at all (`sum_unitShares`), and what
the port counters give is the sum of their values (`fineContention_eq`).

**Dispatch width.**  As on the critical path, with one target.
-/

namespace CycleAccounting

/-! ## Sums over counters by role -/

namespace Role

/-- Whether a counter tells how to split contention: it has labels, and all are those of units. -/
def SplitsContention : Role → Prop
  | .unitDetail labels => labels ≠ [] ∧ ∀ label ∈ labels, (FunctionalUnit.ofLabel? label).isSome
  | _ => False

instance : DecidablePred SplitsContention
  | .unitDetail _ => inferInstanceAs (Decidable (_ ∧ _))
  | .perCycle _ => inferInstanceAs (Decidable False)
  | .criticalPath => inferInstanceAs (Decidable False)
  | .detailedBase .. => inferInstanceAs (Decidable False)
  | .other => inferInstanceAs (Decidable False)

end Role

namespace Run

variable (run : Run ℚ) (tables : Tables ℚ) (core : ℕ)

/-- The functional-unit contention of a core: labelled as such, and not as dispatch rate. -/
def contention : ℚ :=
  run.sumOver core fun role => ∃ dispatchWidth, role = .detailedBase true dispatchWidth false

/-- The stalls of the dispatch width: labelled as such, and as neither of the other two. -/
def stalls : ℚ := run.sumOver core (· = .detailedBase false true false)

/-- What the port counters of a core add up to, those with an unknown label left out. -/
def portCycles : ℚ := run.sumOver core Role.SplitsContention

/-- What each critical-path counter of the tables that the run carries contributes, and where. -/
def contributions {α : Type} [Amount α] (run : Run α) (tables : Tables α) (core : ℕ) :
    List (String × α) :=
  (tables.targets.toList.filter fun b => run.Carries b.1).map
    fun b => (b.2, run.value b.1 core / tables.normalization)

/-- What the critical path contributes to one category. -/
def contributionTo (category : String) : ℚ :=
  (((run.contributions tables core).filter (·.1 = category)).map (·.2)).sum

/-- What the critical path contributes to all categories together. -/
def contributionsTotal : ℚ := ((run.contributions tables core).map (·.2)).sum

end Run

namespace Ledger

/-! ## Moves -/

section Moves

variable {α : Type} [Amount α] (l : Ledger α)

lemma contains_moveFromBase (category k : String) (cycles : α) :
    (l.moveFromBase category cycles).contains k = true
      ↔ l.contains k = true ∨ k = Category.base ∨ k = category := by
  rw [moveFromBase, contains_book, contains_deduct]
  simp only [Bool.or_eq_true, decide_eq_true_iff]
  tauto

end Moves

variable (l : Ledger ℚ)

lemma amount_moveFromBase (category k : String) (cycles : ℚ) :
    (l.moveFromBase category cycles).amount k
      = l.amount k + (if k = category then cycles else 0)
        - (if k = Category.base then cycles else 0) := by
  rw [moveFromBase, amount_book, amount_deduct, amount_deduct]
  by_cases hc : k = category
  · subst hc; simp only [if_true]; split_ifs with hb
    · subst hb; ring
    · ring
  · simp only [hc, if_false]; split_ifs with hb
    · subst hb; ring
    · ring

/-- A move keeps the total, whatever its target is. -/
lemma total_moveFromBase (category : String) (cycles : ℚ) :
    (l.moveFromBase category cycles).total = l.total := by
  rw [moveFromBase, total_book, total_deduct, sub_add_cancel]

/-! ## The critical path -/

section CriticalPath

/-- The pass over the tables moves the contributions one after the other. -/
lemma attributeCriticalPath_eq {α : Type} [Amount α] (run : Run α) (tables : Tables α) (core : ℕ)
    (l : Ledger α) :
    l.attributeCriticalPath run tables core
      = (run.contributions tables core).foldl (fun l b => l.moveFromBase b.1 b.2) l := by
  rw [attributeCriticalPath, Run.contributions, List.foldl_map, List.foldl_filter]
  congr 1
  funext l b
  cases hb : run.counter? b.1 <;> simp [attributeContribution, Run.Carries, hb]

lemma contains_foldl_moveFromBase {α : Type} [Amount α] (moves : List (String × α)) (l : Ledger α)
    (k : String) :
    (moves.foldl (fun l b => l.moveFromBase b.1 b.2) l).contains k = true
      ↔ l.contains k = true ∨ ∃ b ∈ moves, k = Category.base ∨ k = b.1 := by
  induction moves generalizing l with
  | nil => simp
  | cons b moves ih =>
      rw [List.foldl_cons, ih, contains_moveFromBase, List.exists_mem_cons_iff, or_assoc]

lemma amount_foldl_moveFromBase (moves : List (String × ℚ)) (l : Ledger ℚ) (k : String) :
    (moves.foldl (fun l b => l.moveFromBase b.1 b.2) l).amount k
      = l.amount k + ((moves.filter (·.1 = k)).map (·.2)).sum
        - if k = Category.base then (moves.map (·.2)).sum else 0 := by
  induction moves generalizing l with
  | nil => simp
  | cons b moves ih =>
      rw [List.foldl_cons, ih, amount_moveFromBase, List.map_cons, List.sum_cons]
      by_cases hk : b.1 = k
      · rw [List.filter_cons_of_pos (by simpa using hk), List.map_cons, List.sum_cons,
          if_pos hk.symm]
        split_ifs <;> ring
      · rw [List.filter_cons_of_neg (by simpa using hk), if_neg (Ne.symm hk)]
        split_ifs <;> ring

lemma total_foldl_moveFromBase (moves : List (String × ℚ)) (l : Ledger ℚ) :
    (moves.foldl (fun l b => l.moveFromBase b.1 b.2) l).total = l.total := by
  induction moves generalizing l with
  | nil => rfl
  | cons b moves ih => rw [List.foldl_cons, ih, total_moveFromBase]

variable (run : Run ℚ) (tables : Tables ℚ) (core : ℕ)

lemma amount_attributeCriticalPath (k : String) :
    (l.attributeCriticalPath run tables core).amount k
      = l.amount k + run.contributionTo tables core k
        - if k = Category.base then run.contributionsTotal tables core else 0 := by
  rw [attributeCriticalPath_eq, amount_foldl_moveFromBase]
  rfl

lemma total_attributeCriticalPath : (l.attributeCriticalPath run tables core).total = l.total := by
  rw [attributeCriticalPath_eq, total_foldl_moveFromBase]

end CriticalPath

end Ledger

/-! ## What the port counters give to the units -/

namespace Counter

lemma isSome_mapM {β γ : Type} (f : β → Option γ) (xs : List β) :
    (xs.mapM f).isSome = true ↔ ∀ x ∈ xs, (f x).isSome = true := by
  induction xs with
  | nil => simp
  | cons x xs ih =>
      rw [List.mapM_cons, List.forall_mem_cons, ← ih]
      cases f x <;> cases xs.mapM f <;> simp

/-- A counter has units exactly if its role is to split contention. -/
lemma isSome_units? {α : Type} (c : Counter α) :
    c.units?.isSome = true ↔ c.role.SplitsContention := by
  rw [units?]
  cases c.role with
  | unitDetail labels =>
      rw [Role.SplitsContention, ← isSome_mapM]
      cases labels with
      | nil => simp
      | cons label labels =>
          simp only [List.mapM_cons]
          cases FunctionalUnit.ofLabel? label <;>
            cases labels.mapM FunctionalUnit.ofLabel? <;> simp
  | _ => simp [Role.SplitsContention]

lemma units?_ne_nil {α : Type} {c : Counter α} {units : List FunctionalUnit}
    (h : c.units? = some units) : units ≠ [] := by
  rw [units?] at h
  split at h
  · simpa using (Option.filter_eq_some_iff.1 h).2
  · simp at h

/-- Every label of a counter is that of one unit, so counting it unit by unit loses none. -/
lemma sum_count_all (units : List FunctionalUnit) :
    (FunctionalUnit.all.map fun u => (units.count u : ℚ)).sum = units.length := by
  induction units with
  | nil => simp
  | cons v units ih =>
      have hone : (FunctionalUnit.all.map fun u => if v = u then (1 : ℚ) else 0).sum = 1 := by
        cases v <;> simp [FunctionalUnit.all]
      simp only [List.count_cons, Nat.cast_add, Nat.cast_ite, Nat.cast_one, Nat.cast_zero,
        List.sum_map_add, beq_iff_eq, ih, hone, List.length_cons]

lemma sum_shares_of_units {c : Counter ℚ} {units : List FunctionalUnit}
    (h : c.units? = some units) (core : ℕ) (u : FunctionalUnit) :
    (c.shares core u).sum = units.count u * (c.value core / units.length) := by
  have hcount : (units.filter (· = u)).length = units.count u := by
    rw [List.count_eq_length_filter]
    rfl
  rw [shares, h]
  simp only [List.map_const', List.sum_replicate, hcount, nsmul_eq_mul, Amount.ofNat_eq]

/-- The shares of all units add up to the value of the counter. -/
lemma sum_shares (c : Counter ℚ) (core : ℕ) :
    (FunctionalUnit.all.map fun u => (c.shares core u).sum).sum
      = if c.role.SplitsContention then c.value core else 0 := by
  cases hu : c.units? with
  | none =>
      have hno : ¬ c.role.SplitsContention := by simp [← isSome_units?, hu]
      simp [shares, hu, hno]
  | some units =>
      have hyes : c.role.SplitsContention := by simp [← isSome_units?, hu]
      have hlen : (units.length : ℚ) ≠ 0 := by simpa using units?_ne_nil hu
      simp only [sum_shares_of_units hu, if_pos hyes, List.sum_map_mul_right, sum_count_all]
      exact mul_div_cancel₀ _ hlen

end Counter

lemma unitBucket_eq (counters : List (Counter ℚ)) (core : ℕ) :
    unitBucket counters core = fun u => (counters.map fun c => (c.shares core u).sum).sum := by
  funext u
  rw [unitBucket, ← List.sum_eq_foldl]
  induction counters with
  | nil => rfl
  | cons c counters ih => rw [List.flatMap_cons, List.sum_append, ih, List.map_cons, List.sum_cons]

/-- **What the port counters give** to all units is the sum of their values. -/
theorem fineContention_eq (run : Run ℚ) (core : ℕ) :
    fineContention run.classified core = run.portCycles core := by
  rw [fineContention, Amount.sum_eq, Run.portCycles, Run.sumOver, unitBucket_eq]
  induction run.classified with
  | nil => simp
  | cons c counters ih =>
      simp only [List.map_cons, List.sum_cons, List.sum_map_add, ih, Counter.sum_shares]
      by_cases h : c.role.SplitsContention
      · rw [List.filter_cons_of_pos (by simpa using h), List.map_cons, List.sum_cons, if_pos h]
      · rw [List.filter_cons_of_neg (by simpa using h), if_neg h, zero_add]

lemma coarseContention_eq (run : Run ℚ) (core : ℕ) :
    coarseContention run.classified core = run.contention core := by
  rw [coarseContention, Amount.sum_eq, Run.contention, Run.sumOver]
  congr 3
  funext c
  rw [Counter.isCoarse]
  cases c.role <;> simp

/-- What a unit's category is overwritten with. -/
def Run.unitShare (run : Run ℚ) (core : ℕ) (u : FunctionalUnit) : ℚ :=
  run.contention core / run.portCycles core * unitBucket run.classified core u

/-- The units' shares add up to the contention, unless there is nothing to split it by. -/
lemma Run.sum_unitShares (run : Run ℚ) (core : ℕ) :
    (FunctionalUnit.all.map (run.unitShare core)).sum
      = if run.portCycles core = 0 then 0 else run.contention core := by
  have hfine : (FunctionalUnit.all.map (unitBucket run.classified core)).sum
      = run.portCycles core := by
    rw [← fineContention_eq, fineContention, Amount.sum_eq]
  have hshares : run.unitShare core = fun u =>
      run.contention core / run.portCycles core * unitBucket run.classified core u := rfl
  rw [hshares, List.sum_map_mul_left, hfine]
  split_ifs with h
  · rw [h, mul_zero]
  · exact div_mul_cancel₀ _ h

namespace Ledger

/-! ## The functional units -/

lemma category_injective : Function.Injective FunctionalUnit.category := by
  intro u v h
  cases u <;> cases v <;> first | rfl | exact absurd h (by decide)

lemma category_ne_base (u : FunctionalUnit) : u.category ≠ Category.base := by
  cases u <;> decide

section Overwrite

variable {α : Type} (share : FunctionalUnit → α)

lemma contains_foldl_overwrite (units : List FunctionalUnit) (l : Ledger α) (k : String) :
    (units.foldl (fun l u => l.insert u.category (share u)) l).contains k = true
      ↔ l.contains k = true ∨ ∃ u ∈ units, k = u.category := by
  induction units generalizing l with
  | nil => simp
  | cons v units ih =>
      rw [List.foldl_cons, ih, Catalog.contains_insert, List.exists_mem_cons_iff, Bool.or_eq_true,
        decide_eq_true_iff, or_assoc, or_left_comm]

variable [Amount α] in
/-- The categories of other units, and all that are none of a unit, are left alone. -/
lemma amount_foldl_overwrite_of_ne (units : List FunctionalUnit) (l : Ledger α) {k : String}
    (h : ∀ u ∈ units, k ≠ u.category) :
    Ledger.amount (units.foldl (fun l u => l.insert u.category (share u)) l) k = l.amount k := by
  induction units generalizing l with
  | nil => rfl
  | cons v units ih =>
      obtain ⟨hv, hrest⟩ := List.forall_mem_cons.1 h
      rw [List.foldl_cons, ih _ hrest, amount_insert, if_neg hv]

end Overwrite

lemma total_foldl_overwrite (share : FunctionalUnit → ℚ) (units : List FunctionalUnit)
    (h : units.Nodup) (l : Ledger ℚ) :
    Ledger.total (units.foldl (fun l u => l.insert u.category (share u)) l)
      = l.total - (units.map fun u => l.amount u.category).sum + (units.map share).sum := by
  induction units generalizing l with
  | nil => simp
  | cons v units ih =>
      obtain ⟨hv, hrest⟩ := List.nodup_cons.1 h
      have hkeep : units.map (fun u => Ledger.amount (l.insert v.category (share v)) u.category)
          = units.map fun u => l.amount u.category := List.map_congr_left fun u hu => by
        have hne : u ≠ v := fun same => hv (same ▸ hu)
        rw [amount_insert, if_neg (category_injective.ne hne)]
      rw [List.foldl_cons, ih hrest, hkeep, total_insert]
      simp only [List.map_cons, List.sum_cons]
      ring

section Units

variable (run : Run ℚ) (core : ℕ) (l : Ledger ℚ)

lemma attributeUnits_eq :
    l.attributeUnits run.classified core
      = FunctionalUnit.all.foldl (fun l u => l.insert u.category (run.unitShare core u))
          (l.deduct Category.base (run.contention core)) := by
  simp only [attributeUnits, Amount.ratio_eq, coarseContention_eq, fineContention_eq]
  rfl

lemma contains_attributeUnits {α : Type} [Amount α] (counters : List (Counter α)) (core : ℕ)
    (l : Ledger α) (k : String) :
    (l.attributeUnits counters core).contains k = true
      ↔ l.contains k = true ∨ k = Category.base ∨ ∃ u : FunctionalUnit, k = u.category := by
  rw [attributeUnits, contains_foldl_overwrite, contains_deduct, Bool.or_eq_true,
    decide_eq_true_iff, or_comm (a := k = Category.base), or_assoc]
  simp [FunctionalUnit.mem_all]

lemma amount_attributeUnits {k : String} (h : ∀ u : FunctionalUnit, k ≠ u.category) :
    (l.attributeUnits run.classified core).amount k
      = l.amount k - if k = Category.base then run.contention core else 0 := by
  rw [attributeUnits_eq, amount_foldl_overwrite_of_ne _ _ _ fun u _ => h u, amount_deduct]
  split_ifs with hk
  · rw [hk]
  · rw [sub_zero]

/-- The total loses the contention and what was under the units' categories, and gets the units'
shares. -/
lemma total_attributeUnits :
    (l.attributeUnits run.classified core).total
      = l.total - (FunctionalUnit.all.map fun u => l.amount u.category).sum
        - if run.portCycles core = 0 then run.contention core else 0 := by
  have hkeep : (FunctionalUnit.all.map fun u =>
      (l.deduct Category.base (run.contention core)).amount u.category)
        = FunctionalUnit.all.map fun u => l.amount u.category := List.map_congr_left fun u _ => by
    rw [amount_deduct, if_neg (category_ne_base u)]
  rw [attributeUnits_eq, total_foldl_overwrite _ _ (by decide), hkeep, total_deduct,
    run.sum_unitShares]
  split_ifs <;> ring

end Units

/-! ## The dispatch width -/

section DispatchWidth

variable (run : Run ℚ) (core : ℕ) (l : Ledger ℚ)

lemma isDispatchWidth_iff {α : Type} (c : Counter α) :
    c.isDispatchWidth = true ↔ c.role = .detailedBase false true false := by
  rw [Counter.isDispatchWidth]
  cases c.role with
  | detailedBase functionalUnit dispatchWidth dispatchRate => simp [and_assoc]
  | _ => simp

lemma contains_attributeDispatchWidth {α : Type} [Amount α] (run : Run α) (core : ℕ)
    (l : Ledger α) (k : String) :
    (l.attributeDispatchWidth run.classified core).contains k = true
      ↔ l.contains k = true ∨ (k = Category.base ∨ k = Category.issue)
          ∧ ∃ c ∈ run.classified, c.role = .detailedBase false true false := by
  have hany : (run.classified.filter Counter.isDispatchWidth).isEmpty = true
      ↔ ¬ ∃ c ∈ run.classified, c.role = .detailedBase false true false := by
    simp [List.isEmpty_iff, ← isDispatchWidth_iff]
  rw [attributeDispatchWidth]
  split_ifs with h
  · simp [hany.1 h]
  · rw [contains_moveFromBase]
    simp [not_not.1 (mt hany.2 h)]

lemma attributeDispatchWidth_amounts :
    (∀ k, (l.attributeDispatchWidth run.classified core).amount k
      = (l.moveFromBase Category.issue (run.stalls core)).amount k) := by
  have hsum : ((run.classified.filter Counter.isDispatchWidth).map (·.value core)).sum
      = run.stalls core := by
    rw [Run.stalls, Run.sumOver]
    congr 3
    funext c
    rw [Bool.eq_iff_iff, isDispatchWidth_iff, decide_eq_true_iff]
  intro k
  rw [attributeDispatchWidth]
  split_ifs with h
  · have hzero : run.stalls core = 0 := by rw [← hsum, List.isEmpty_iff.1 h]; rfl
    rw [hzero, amount_moveFromBase]
    simp
  · rw [← List.sum_eq_foldl, hsum]

lemma amount_attributeDispatchWidth (k : String) :
    (l.attributeDispatchWidth run.classified core).amount k
      = l.amount k + (if k = Category.issue then run.stalls core else 0)
        - (if k = Category.base then run.stalls core else 0) := by
  rw [attributeDispatchWidth_amounts, amount_moveFromBase]

lemma total_attributeDispatchWidth :
    (l.attributeDispatchWidth run.classified core).total = l.total := by
  rw [total_congr (attributeDispatchWidth_amounts run core l), total_moveFromBase]

end DispatchWidth

end Ledger

end CycleAccounting
