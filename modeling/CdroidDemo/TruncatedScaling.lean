import Mathlib.Algebra.Order.Ring.Int
import Mathlib.Tactic.Linarith
import Mathlib.Tactic.Ring

/-!
# Scaling with truncated division

An integer is scaled from one width to another one and back. Every division
drops what is left over, toward zero.
-/

namespace CdroidDemo.TruncatedScaling

/-- A value of a scale of width `w` on a scale of width `d`. -/
def scale (d w x : ℤ) : ℤ := (d * x).tdiv w

variable {d w x : ℤ}

/-- Scaling is odd. -/
theorem scale_neg (d w x : ℤ) : scale d w (-x) = -scale d w x := by
  rw [scale, mul_neg, Int.neg_tdiv]
  rfl

/-- A value that is not negative is scaled down to the integer below. -/
theorem scale_bounds (hd : 0 ≤ d) (hw : 0 < w) (hx : 0 ≤ x) :
    0 ≤ scale d w x ∧ w * scale d w x ≤ d * x ∧ d * x < w * scale d w x + w := by
  have hdx : 0 ≤ d * x := mul_nonneg hd hx
  exact ⟨Int.tdiv_nonneg hdx hw.le, Int.mul_tdiv_self_le hdx, Int.lt_mul_tdiv_self_add hw⟩

/-- What is scaled and scaled back is not larger, and falls short by less than
one step of each scale. -/
theorem scale_back_bounds (hd : 0 < d) (hw : 0 < w) (hx : 0 ≤ x) :
    scale w d (scale d w x) ≤ x ∧ d * (x - scale w d (scale d w x) - 1) < w := by
  obtain ⟨ha, hle, hlt⟩ := scale_bounds hd.le hw hx
  obtain ⟨-, hle', hlt'⟩ := scale_bounds hw.le hd ha
  refine ⟨le_of_mul_le_mul_left (hle'.trans hle) hd, ?_⟩
  have he : d * (x - scale w d (scale d w x) - 1) = d * x - d * scale w d (scale d w x) - d := by
    ring
  rw [he]
  linarith

/-- There and back a value moves by less than one step of each scale. -/
theorem scale_back_close (hd : 0 < d) (hw : 0 < w) (x : ℤ) :
    d * (|x - scale w d (scale d w x)| - 1) < w := by
  rcases le_total 0 x with hx | hx
  · obtain ⟨hle, hlt⟩ := scale_back_bounds hd hw hx
    rwa [abs_of_nonneg (sub_nonneg.mpr hle)]
  · obtain ⟨hle, hlt⟩ := scale_back_bounds hd hw (neg_nonneg.mpr hx)
    rw [scale_neg, scale_neg] at hle hlt
    have he : |x - scale w d (scale d w x)| = -x - -scale w d (scale d w x) := by
      rw [abs_of_nonpos (sub_nonpos.mpr (neg_le_neg_iff.mp hle))]
      ring
    rwa [he]

/-- Which values are scaled into the new scale. -/
theorem scale_mem_iff (hd : 0 < d) (hw : 0 < w) :
    (0 ≤ scale d w x ∧ scale d w x ≤ d) ↔ -w < d * x ∧ d * x < w * (d + 1) := by
  rcases le_total 0 x with hx | hx
  · obtain ⟨ha, hle, hlt⟩ := scale_bounds hd.le hw hx
    have hdx : 0 ≤ d * x := mul_nonneg hd.le hx
    rw [and_iff_right ha, and_iff_right (by linarith)]
    constructor
    · intro h
      have := mul_le_mul_of_nonneg_left h hw.le
      linarith
    · intro h
      have := lt_of_mul_lt_mul_left (hle.trans_lt h) hw.le
      omega
  · obtain ⟨ha, hle, hlt⟩ := scale_bounds hd.le hw (neg_nonneg.mpr hx)
    rw [scale_neg] at ha hle hlt
    have hdx : d * x ≤ 0 := mul_nonpos_of_nonneg_of_nonpos hd.le hx
    have hwd : 0 < w * (d + 1) := mul_pos hw (by linarith)
    rw [and_iff_left (by linarith), and_iff_left (by linarith)]
    constructor
    · intro h
      have := mul_nonneg hw.le h
      linarith
    · intro h
      by_contra hneg
      have : w * scale d w x ≤ w * (-1) := mul_le_mul_of_nonneg_left (by omega) hw.le
      linarith

end CdroidDemo.TruncatedScaling
