import CycleAccounting.TimeBasis
import Mathlib.Algebra.BigOperators.Group.List.Basic
import Mathlib.Algebra.Order.Ring.Rat
import Mathlib.Data.Rat.Cast.Order
import Mathlib.Tactic.Lemma

/-!
# Exact amounts

Over the rationals the operations of `Amount` are those of an ordered field, and their guards are
no longer visible: a quotient by zero is zero, so `ratio` is division, and what a sum starts from
does not matter.  The lemmas below replace one by the other; no proof outside this file unfolds an
operation of `Amount`.
-/

namespace CycleAccounting

namespace Amount

@[simp] lemma sum_eq (xs : List ℚ) : Amount.sum xs = xs.sum := List.sum_eq_foldl.symm

@[simp] lemma equal_iff (x y : ℚ) : Amount.equal x y = true ↔ x = y := decide_eq_true_iff

@[simp] lemma atMost_iff (x y : ℚ) : Amount.atMost x y = true ↔ x ≤ y := decide_eq_true_iff

@[simp] lemma identical_iff (x y : ℚ) : Amount.identical x y = true ↔ x = y := decide_eq_true_iff

@[simp] lemma ofNat_eq (n : ℕ) : (Amount.ofNat n : ℚ) = n := rfl

/-- The guard of a quotient gives what division by zero gives anyway. -/
@[simp] lemma ratio_eq (x y : ℚ) : Amount.ratio x y = x / y := by
  rw [Amount.ratio]
  split_ifs with h
  · rw [(equal_iff y 0).1 h, div_zero]
  · rfl

@[simp] lemma mean_eq (xs : List ℚ) : Amount.mean xs = xs.sum / xs.length := by
  rw [Amount.mean, ratio_eq, ofNat_eq, ← List.sum_eq_foldl]

@[simp] lemma larger_eq (x y : ℚ) : Amount.larger x y = max x y := by
  rw [Amount.larger, max_def]
  simp only [atMost_iff]

end Amount

/-- The longest time is the maximum of the times and zero. -/
lemma TimeBasis.maxTime_eq (basis : TimeBasis ℚ) :
    basis.maxTime = basis.times.foldl max 0 := by
  have h : (Amount.larger : ℚ → ℚ → ℚ) = max := funext₂ Amount.larger_eq
  rw [TimeBasis.maxTime, h]

end CycleAccounting
