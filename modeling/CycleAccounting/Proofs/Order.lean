import CycleAccounting.Amount
import CycleAccounting.Proofs.Exact
import Mathlib.Data.Prod.Lex

/-!
# Amounts in order

Amounts are compared to decide what is shown and what counts.  On every kind of amount that the
accounting is used at, `atMost` is transitive and `equal` is `atMost` both ways (`Amount.Ordered`),
although it need not be total: what is not a number stands in no order to anything.

For doubles this goes back to how the machine's floating-point values are compared: numbers stand
in a row by class, exponent and mantissa (`placeOf`), in which the two zeros have one place, and
what is not a number has none.
-/

namespace CycleAccounting

/-- The laws of comparing amounts, some of which may not be numbers. -/
class Amount.Ordered (α : Type) [Amount α] : Prop where
  atMost_trans : ∀ {x y z : α}, atMost x y = true → atMost y z = true → atMost x z = true
  equal_iff_atMost : ∀ x y : α, equal x y = true ↔ atMost x y = true ∧ atMost y x = true

namespace Amount

variable {α : Type} [Amount α] [Ordered α]

lemma less_iff (x y : α) : less x y = true ↔ atMost x y = true ∧ ¬ atMost y x = true := by
  rw [less, Bool.and_eq_true, Bool.not_eq_true', ← Bool.not_eq_true, Ordered.equal_iff_atMost]
  tauto

/-- What exceeds an amount still does so if it grows. -/
lemma less_of_less_of_atMost {x y z : α} (hxy : less x y = true) (hyz : atMost y z = true) :
    less x z = true := by
  obtain ⟨hle, hlt⟩ := (less_iff x y).1 hxy
  refine (less_iff x z).2 ⟨Ordered.atMost_trans hle hyz, ?_⟩
  intro hzx
  exact hlt (Ordered.atMost_trans hyz hzx)

lemma not_less_of_atMost {x y : α} (h : atMost y x = true) : ¬ less x y = true := by
  intro hless
  exact ((less_iff x y).1 hless).2 h

end Amount

/-! ## Exact amounts -/

instance : Amount.Ordered ℚ where
  atMost_trans hxy hyz := by
    rw [Amount.atMost_iff] at *
    exact hxy.trans hyz
  equal_iff_atMost x y := by
    rw [Amount.equal_iff, Amount.atMost_iff, Amount.atMost_iff]
    exact le_antisymm_iff

lemma Amount.less_iff_lt (x y : ℚ) : less x y = true ↔ x < y := by
  rw [less_iff, atMost_iff, atMost_iff]
  exact lt_iff_le_not_ge.symm

/-! ## Doubles -/

section Doubles

open Float.Model (UnpackedFloat)

/-- The place of a floating-point value in the row of all numbers: its class, from negative infinity
to positive infinity, and within a class exponent and mantissa. -/
def placeOf : UnpackedFloat → Option (ℤ ×ₗ ℤ ×ₗ ℤ)
  | .notANumber => none
  | .infinity .negative => some (toLex (-2, toLex (0, 0)))
  | .finite .negative mantissa exponent _ => some (toLex (-1, toLex (-exponent, -mantissa)))
  | .zero _ => some (toLex (0, toLex (0, 0)))
  | .finite .positive mantissa exponent _ => some (toLex (1, toLex (exponent, mantissa)))
  | .infinity .positive => some (toLex (2, toLex (0, 0)))

lemma compare_neg_neg (a b : ℤ) : compare (-a) (-b) = (compare a b).swap := by
  rcases lt_trichotomy a b with h | rfl | h
  · rw [compare_lt_iff_lt.2 h, compare_gt_iff_gt.2 (Int.neg_lt_neg h)]
    rfl
  · rw [compare_eq_iff_eq.2 rfl, compare_eq_iff_eq.2 rfl]
    rfl
  · rw [compare_gt_iff_gt.2 h, compare_lt_iff_lt.2 (Int.neg_lt_neg h)]
    rfl

lemma compare_natCast (m n : ℕ) : compare (m : ℤ) n = compare m n := by
  rcases lt_trichotomy m n with h | rfl | h
  · rw [compare_lt_iff_lt.2 h, compare_lt_iff_lt.2 (Int.ofNat_lt.2 h)]
  · rw [compare_eq_iff_eq.2 rfl, compare_eq_iff_eq.2 rfl]
  · rw [compare_gt_iff_gt.2 h, compare_gt_iff_gt.2 (Int.ofNat_lt.2 h)]

lemma compare_toLex {β γ : Type} [Ord β] [Ord γ] (x y : β) (z w : γ) :
    compare (toLex (x, z)) (toLex (y, w)) = (compare x y).then (compare z w) := rfl

/-- The places of positive numbers compare by exponent, then by mantissa. -/
lemma compare_positive (m m' : ℕ) (e e' : ℤ) :
    compare (toLex ((1 : ℤ), toLex (e, (m : ℤ)))) (toLex ((1 : ℤ), toLex (e', (m' : ℤ))))
      = (compare e e').then (compare m m') := by
  rw [compare_toLex, compare_toLex, compare_natCast]
  rfl

/-- Below zero the larger exponent and the larger mantissa come first. -/
lemma compare_negative (m m' : ℕ) (e e' : ℤ) :
    compare (toLex ((-1 : ℤ), toLex (-e, -(m : ℤ)))) (toLex ((-1 : ℤ), toLex (-e', -(m' : ℤ))))
      = ((compare e e').then (compare m m')).swap := by
  rw [compare_toLex, compare_toLex, compare_neg_neg e, compare_neg_neg (m : ℤ), compare_natCast,
    Ordering.swap_then]
  rfl

/-- **Floating-point values compare as their places do**, and not at all without them. -/
theorem compare_eq_compare_placeOf (x y : UnpackedFloat) :
    x.compare y = (placeOf x).bind fun a => (placeOf y).map (compare a ·) := by
  cases x with
  | notANumber => cases y <;> rfl
  | zero s =>
      cases y with
      | notANumber => rfl
      | zero => rfl
      | infinity s' => cases s' <;> rfl
      | finite s' => cases s' <;> rfl
  | infinity s =>
      cases y with
      | notANumber => cases s <;> rfl
      | zero => cases s <;> rfl
      | infinity s' => cases s <;> cases s' <;> rfl
      | finite s' => cases s <;> cases s' <;> rfl
  | finite s m e hm =>
      cases y with
      | notANumber => cases s <;> rfl
      | zero => cases s <;> rfl
      | infinity s' => cases s <;> cases s' <;> rfl
      | finite s' m' e' hm' =>
          cases s with
          | positive =>
              cases s' with
              | positive => exact congrArg some (compare_positive m m' e e').symm
              | negative => rfl
          | negative =>
              cases s' with
              | positive => rfl
              | negative => exact congrArg some (compare_negative m m' e e').symm

/-- The place of a double in the row of all numbers. -/
def Double.place? (x : Double) : Option (ℤ ×ₗ ℤ ×ₗ ℤ) := placeOf x.toFloat.toModel.unpack

/-- The bits without the sign, as a number. -/
lemma Double.toNat_magnitude (x : Double) : x.magnitude.toNat = x.bits.toNat % 2 ^ 63 := by
  have hmask : (~~~Double.signBit).toNat = 2 ^ 63 - 1 := by decide
  rw [magnitude, UInt64.toNat_and, hmask, Nat.and_two_pow_sub_one_eq_mod]

/-- What is not a number has no place: its exponent field is full and its fraction field is not
empty. -/
lemma Double.place?_of_isNaN {x : Double} (h : x.isNaN = true) : x.place? = none := by
  have hmagnitude : 2047 * 2 ^ 52 < x.bits.toNat % 2 ^ 63 := by
    rw [← toNat_magnitude]
    exact UInt64.lt_iff_toNat_lt.1 (of_decide_eq_true h)
  have hexponent : @UnpackedFloat.unpackExponent .binary64 x.bits.toBitVec = -1#_ := by
    have hfield : x.bits.toNat >>> 52 % 2048 = 2047 := by omega
    simpa [UnpackedFloat.unpackExponent, ← BitVec.toNat_inj] using hfield
  have hfraction : @UnpackedFloat.unpackMantissa .binary64 x.bits.toBitVec ≠ 0#_ := by
    have hfield : x.bits.toNat % 4503599627370496 ≠ 0 := by omega
    simpa [UnpackedFloat.unpackMantissa, ← BitVec.toNat_inj] using hfield
  have hunpack : UnpackedFloat.unpack .binary64 x.bits.toBitVec = .notANumber :=
    (if_pos hexponent).trans (if_neg hfraction)
  have hmodel : x.toFloat.toModel.unpack = (Float.Model.pack .notANumber).unpack :=
    congrArg (fun u => (Float.Model.pack u).unpack) hunpack
  rw [place?, hmodel]
  rfl

lemma Double.atMost_iff (x y : Double) :
    Amount.atMost x y = true ↔ ∃ a ∈ x.place?, ∃ b ∈ y.place?, a ≤ b := by
  have hmodel : Amount.atMost x y
      = (x.toFloat.toModel.unpack.compare y.toFloat.toModel.unpack).any (·.isLE) := by
    refine Bool.eq_iff_iff.2 ?_
    exact decide_eq_true_iff.trans decide_eq_true_iff
  rw [hmodel, compare_eq_compare_placeOf, place?, place?]
  cases placeOf x.toFloat.toModel.unpack <;> cases placeOf y.toFloat.toModel.unpack <;>
    simp [Ordering.isLE_iff_ne_gt, compare_gt_iff_gt]

lemma Double.equal_iff (x y : Double) :
    Amount.equal x y = true ↔ ∃ a ∈ x.place?, a ∈ y.place? := by
  have hmodel : Amount.equal x y
      = (x.toFloat.toModel.unpack.compare y.toFloat.toModel.unpack == some .eq) := rfl
  rw [hmodel, compare_eq_compare_placeOf, place?, place?]
  cases placeOf x.toFloat.toModel.unpack with
  | none => simp
  | some a =>
      cases placeOf y.toFloat.toModel.unpack with
      | none => simp
      | some b => simpa using (compare_eq_iff_eq (a := a)).trans eq_comm

instance : Amount.Ordered Double where
  atMost_trans {x y z} hxy hyz := by
    rw [Double.atMost_iff] at *
    obtain ⟨a, ha, b, hb, hab⟩ := hxy
    obtain ⟨b', hb', c, hc, hbc⟩ := hyz
    obtain rfl := Option.mem_unique hb hb'
    exact ⟨a, ha, c, hc, hab.trans hbc⟩
  equal_iff_atMost x y := by
    rw [Double.atMost_iff, Double.atMost_iff, Double.equal_iff]
    constructor
    · rintro ⟨a, hx, hy⟩
      exact ⟨⟨a, hx, a, hy, le_rfl⟩, a, hy, a, hx, le_rfl⟩
    · rintro ⟨⟨a, ha, b, hb, hab⟩, b', hb', a', ha', hba⟩
      obtain rfl := Option.mem_unique hb hb'
      obtain rfl := Option.mem_unique ha ha'
      obtain rfl := hab.antisymm hba
      exact ⟨a, ha, hb⟩

end Doubles

end CycleAccounting
