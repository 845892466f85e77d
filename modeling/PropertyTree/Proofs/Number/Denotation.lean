import Mathlib.Algebra.Order.Field.Power
import Mathlib.Algebra.Order.Field.Rat
import Mathlib.Data.Rat.Cast.Order
import Mathlib.Tactic.NormNum
import Mathlib.Tactic.Positivity
import PropertyTree.Value

/-! # What numbers denote

A finite binary number denotes an exact dyadic rational, a whole number denotes itself. The integer
that a binary number denotes is found without rounding, and except for the two zeros no two binary
numbers denote the same rational: all are multiples of the least positive one, and a significand
below the hidden bit occurs at the least scale only.
-/

namespace PropertyTree

namespace Binary64

/-- The magnitude that the number denotes. -/
def magnitude (f : Binary64) : ℚ := f.significand * 2 ^ f.scale

/-- The rational that the number denotes. -/
def toRat (f : Binary64) : ℚ := if f.negative then -f.magnitude else f.magnitude

theorem magnitude_nonneg (f : Binary64) : 0 ≤ f.magnitude := by
  rw [magnitude]
  positivity

theorem natAbs?_eq_some_iff {f : Binary64} {n : ℕ} : f.natAbs? = some n ↔ f.magnitude = n := by
  rw [natAbs?, magnitude]
  split
  next hscale =>
    obtain ⟨k, hk⟩ := Int.eq_ofNat_of_zero_le hscale
    rw [hk, Int.toNat_natCast, Nat.shiftLeft_eq, Option.some.injEq, zpow_natCast]
    norm_cast
  next hscale =>
    obtain ⟨k, hk⟩ := Int.eq_ofNat_of_zero_le (show 0 ≤ -f.scale by omega)
    have hneg : f.scale = -(k : ℤ) := by omega
    have hunit : (2 : ℚ) ^ k ≠ 0 := by positivity
    simp only [hk, Int.toNat_natCast, Nat.shiftLeft_eq, one_mul]
    rw [hneg, zpow_neg, zpow_natCast, ← div_eq_mul_inv, div_eq_iff hunit]
    norm_cast
    constructor
    · intro h
      split at h
      next hmod =>
        cases h
        exact (Nat.div_mul_cancel (Nat.dvd_of_mod_eq_zero hmod)).symm
      next => cases h
    · intro h
      rw [h, if_pos (Nat.mul_mod_left n (2 ^ k)), Nat.mul_div_cancel n (Nat.two_pow_pos k)]

theorem toInt?_eq_some_iff_natAbs? {f : Binary64} {z : ℤ} :
    f.toInt? = some z ↔ ∃ n : ℕ, f.natAbs? = some n ∧ (if f.negative then -(n : ℤ) else n) = z := by
  rw [toInt?]
  cases f.natAbs? <;> simp

theorem toInt?_eq_some_iff {f : Binary64} {z : ℤ} : f.toInt? = some z ↔ f.toRat = z := by
  have hnonneg := f.magnitude_nonneg
  simp only [toInt?_eq_some_iff_natAbs?, natAbs?_eq_some_iff, toRat]
  constructor
  · rintro ⟨n, hn, rfl⟩
    rw [hn]
    split <;> norm_cast
  · intro h
    split at h
    next hnegative =>
      rw [neg_eq_iff_eq_neg] at h
      have hz : 0 ≤ -z := by
        rw [h] at hnonneg
        exact_mod_cast hnonneg
      obtain ⟨n, hn⟩ := Int.eq_ofNat_of_zero_le hz
      refine ⟨n, ?_, ?_⟩
      · rw [h]
        exact_mod_cast hn
      · rw [if_pos hnegative, ← hn, neg_neg]
    next hpositive =>
      have hz : 0 ≤ z := by
        rw [h] at hnonneg
        exact_mod_cast hnonneg
      obtain ⟨n, rfl⟩ := Int.eq_ofNat_of_zero_le hz
      exact ⟨n, by exact_mod_cast h, if_neg hpositive⟩

/-- The number of steps of the least exponent up to that of the number. -/
def steps (f : Binary64) : ℕ := max f.exponent.val 1 - 1

/-- The magnitude as a multiple of the least positive one. -/
theorem magnitude_eq (f : Binary64) :
    f.magnitude = (f.significand * 2 ^ f.steps : ℕ) * 2 ^ (-1074 : ℤ) := by
  have hscale : f.scale = f.steps + (-1074) := by
    rw [scale, steps]
    omega
  rw [magnitude, hscale, zpow_add₀ two_ne_zero, zpow_natCast]
  rw [Nat.cast_mul, Nat.cast_pow, Nat.cast_ofNat, mul_assoc]

theorem magnitude_eq_iff {f g : Binary64} :
    f.magnitude = g.magnitude ↔ f.significand * 2 ^ f.steps = g.significand * 2 ^ g.steps := by
  have hunit : (2 : ℚ) ^ (-1074 : ℤ) ≠ 0 := by positivity
  rw [magnitude_eq, magnitude_eq, mul_left_inj' hunit, Nat.cast_inj]

theorem significand_lt (f : Binary64) : f.significand < 2 * hiddenBit := by
  have hfraction := f.fraction.isLt
  rw [significand, hiddenBit]
  split <;> omega

/-- Only at the least scale is the leading digit missing. -/
theorem hiddenBit_le_significand {f : Binary64} (h : f.steps ≠ 0) : hiddenBit ≤ f.significand := by
  have hne : f.exponent.val ≠ 0 := by
    rintro hzero
    rw [steps, hzero] at h
    exact h rfl
  rw [significand, if_neg hne]
  exact Nat.le_add_right _ _

theorem steps_le_of_magnitude_eq {f g : Binary64} (h : f.magnitude = g.magnitude) :
    f.steps ≤ g.steps := by
  by_contra hlt
  rw [not_le] at hlt
  obtain ⟨k, hk⟩ := Nat.exists_eq_add_of_lt hlt
  -- The significand of `g` would have to be at least twice as large as that of `f`.
  have hsignificand : f.significand * 2 ^ (k + 1) = g.significand := by
    have hpow : 0 < 2 ^ g.steps := Nat.two_pow_pos _
    apply Nat.eq_of_mul_eq_mul_right hpow
    rw [← magnitude_eq_iff.mp h, hk, mul_assoc, ← pow_add]
    congr 2
    omega
  have htwice : 2 * f.significand ≤ g.significand := by
    rw [← hsignificand, pow_succ, mul_comm 2]
    exact Nat.mul_le_mul_left _ (Nat.le_mul_of_pos_left 2 (Nat.two_pow_pos k))
  have hleast := f.hiddenBit_le_significand (by omega)
  have hmost := g.significand_lt
  omega

theorem fields_eq_of_magnitude_eq {f g : Binary64} (h : f.magnitude = g.magnitude) :
    f.exponent = g.exponent ∧ f.fraction = g.fraction := by
  have hsteps : f.steps = g.steps :=
    Nat.le_antisymm (steps_le_of_magnitude_eq h) (steps_le_of_magnitude_eq h.symm)
  have hsignificand : f.significand = g.significand := by
    have hpow : 0 < 2 ^ g.steps := Nat.two_pow_pos _
    apply Nat.eq_of_mul_eq_mul_right hpow
    rw [← magnitude_eq_iff.mp h, hsteps]
  have hf := f.fraction.isLt
  have hg := g.fraction.isLt
  rw [Fin.ext_iff, Fin.ext_iff]
  simp only [significand, steps, hiddenBit] at hsteps hsignificand
  split at hsignificand <;> split at hsignificand <;> omega

theorem magnitude_eq_abs (f : Binary64) : f.magnitude = |f.toRat| := by
  rw [toRat]
  split
  next => rw [abs_neg, abs_of_nonneg f.magnitude_nonneg]
  next => rw [abs_of_nonneg f.magnitude_nonneg]

theorem negative_eq_decide {f : Binary64} (hne : f.toRat ≠ 0) :
    f.negative = decide (f.toRat < 0) := by
  have hmagnitude : 0 < f.magnitude := by
    rw [magnitude_eq_abs]
    exact abs_pos.mpr hne
  rw [toRat]
  cases f.negative <;> simp [hmagnitude, hmagnitude.le]

/-- Binary numbers other than zero are told apart by what they denote. -/
theorem eq_of_toRat_eq {f g : Binary64} (h : f.toRat = g.toRat) (hne : f.toRat ≠ 0) : f = g := by
  have hmagnitude : f.magnitude = g.magnitude := by rw [magnitude_eq_abs, magnitude_eq_abs, h]
  obtain ⟨hexponent, hfraction⟩ := fields_eq_of_magnitude_eq hmagnitude
  have hnegative : f.negative = g.negative := by
    rw [negative_eq_decide hne, negative_eq_decide (h ▸ hne), h]
  cases f
  cases g
  cases hnegative
  cases hexponent
  cases hfraction
  rfl

end Binary64

/-- The rational that the number denotes. -/
def Number.toRat : Number → ℚ
  | .whole n _ => n
  | .float f => f.toRat

namespace Number

theorem toRat_whole {n : ℤ} {h : -0x8000_0000_0000_0000 ≤ n ∧ n < 0x1_0000_0000_0000_0000} :
    (whole n h).toRat = n := rfl

theorem toRat_float {f : Binary64} : (float f).toRat = f.toRat := rfl

theorem integral?_eq_some_iff {f : Binary64} {z : ℤ} :
    integral? f = some z ↔ f.toRat = z ∧ -2 ^ 63 ≤ z ∧ z < 2 ^ 63 := by
  rw [integral?, Option.filter_eq_some_iff, Binary64.toInt?_eq_some_iff]
  simp

theorem integral?_eq_none_iff {f : Binary64} :
    integral? f = none ↔ ¬ ∃ z : ℤ, f.toRat = z ∧ -2 ^ 63 ≤ z ∧ z < 2 ^ 63 := by
  simp only [Option.eq_none_iff_forall_ne_some, ne_eq, integral?_eq_some_iff, not_exists]

end Number

end PropertyTree
