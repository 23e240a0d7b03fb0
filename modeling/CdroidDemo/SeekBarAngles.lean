import CdroidDemo.SeekBar
import CdroidDemo.TruncatedScaling
import Mathlib.Algebra.Order.Round
import Mathlib.Data.Rat.Floor

/-!
# Painting and touching the arc

`onDraw` scales a progress to an angle and `onTouchEvent` scales an angle to a
progress. Touching the slider where it is painted gives back the progress up
to a rounding. A reversed bar mirrors the progress at `mMax` alone, so its
slider leaves the arc once the lower limit is as far from 0 as a degree.
-/

namespace CdroidDemo.SeekBarAngles

open SeekBar ArcSeekBar TruncatedScaling

/-- The slider is painted on the arc, and a touch there computes the progress
up to as much as an angle of one degree stands for, rounded up. -/
def Inverse (s : ArcSeekBar) : Prop :=
  (s.mStartAngle ≤ s.onDraw.sliderAngle ∧ s.onDraw.sliderAngle ≤ s.mEndAngle) ∧
    |s.touchProgress s.onDraw.sliderAngle - s.mProgress| ≤
      ⌈((s.mMax - s.mMin : ℤ) : ℚ) / ((s.mEndAngle - s.mStartAngle : ℤ) : ℚ)⌉

/-- A reversed bar paints the progress as `mMax - mProgress`. That misses the
limits by less than what one degree stands for. -/
def MirrorFits (s : ArcSeekBar) : Prop :=
  s.mIsReverse = true →
    (s.mEndAngle - s.mStartAngle) * (s.mMin - (s.mMax - s.mProgress)) < s.mMax - s.mMin ∧
      (s.mEndAngle - s.mStartAngle) * (s.mMax - s.mProgress - s.mMax) < s.mMax - s.mMin

variable {s : ArcSeekBar}

/-- Between proper limits the width is their distance. -/
theorem getWidthProgress_eq (hm : s.mMin < s.mMax) : s.getWidthProgress = s.mMax - s.mMin :=
  max_eq_right (by omega)

/-- The progress that is painted, counted from the lower limit. -/
def paintedOffset (s : ArcSeekBar) : ℤ :=
  if s.mIsReverse then s.mMax - s.mProgress - s.mMin else s.mProgress - s.mMin

/-- Without a range the slider stands at the scaled offset. -/
theorem sliderAngle_eq (hm : s.mMin < s.mMax) (hr : s.mRange = (0, 0)) :
    s.onDraw.sliderAngle = s.mStartAngle +
      scale (s.mEndAngle - s.mStartAngle) (s.mMax - s.mMin) (paintedOffset s) := by
  have hinactive : ¬s.Active := fun ha => by
    rw [Active, hr] at ha
    exact absurd ha.2.2 (lt_irrefl 0)
  unfold onDraw progressAngle paintedOffset scale
  dsimp only
  rw [getWidthProgress_eq hm]
  cases hrev : s.mIsReverse with
  | false =>
    simp only [Bool.false_eq_true, if_false]
    rw [checkRange_of_not_active hinactive]
  | true =>
    simp only [if_true]
    rw [checkRange_of_not_active hinactive]

/-- The progress of an angle, less the progress of the bar, is what a scaling
back adds to the offset, or takes from it on a reversed bar. -/
theorem touchProgress_sub (hm : s.mMin < s.mMax) (a : ℤ) :
    |s.touchProgress (s.mStartAngle + a) - s.mProgress| =
      |paintedOffset s - scale (s.mMax - s.mMin) (s.mEndAngle - s.mStartAngle) a| := by
  unfold touchProgress paintedOffset scale
  dsimp only
  rw [getWidthProgress_eq hm, add_sub_cancel_left]
  cases s.mIsReverse with
  | false =>
    simp only [Bool.false_eq_true, if_false]
    rw [abs_sub_comm]
    congr 1
    ring
  | true =>
    simp only [if_true]
    congr 1
    ring

/-- A bound by what one degree stands for. -/
theorem le_ceil_div_iff {n w d : ℤ} (hd : 0 < d) :
    n ≤ ⌈(w : ℚ) / (d : ℚ)⌉ ↔ d * (n - 1) < w := by
  rw [Int.le_ceil_iff, lt_div_iff₀ (by exact_mod_cast hd), mul_comm]
  exact_mod_cast Iff.rfl

/-- Touching the slider gives back the progress in every case, on the arc or
not. -/
theorem touchProgress_close (hm : s.mMin < s.mMax) (ha : s.mStartAngle < s.mEndAngle)
    (hr : s.mRange = (0, 0)) :
    |s.touchProgress s.onDraw.sliderAngle - s.mProgress| ≤
      ⌈((s.mMax - s.mMin : ℤ) : ℚ) / ((s.mEndAngle - s.mStartAngle : ℤ) : ℚ)⌉ := by
  rw [le_ceil_div_iff (sub_pos.mpr ha), sliderAngle_eq hm hr, touchProgress_sub hm]
  exact scale_back_close (sub_pos.mpr ha) (sub_pos.mpr hm) (paintedOffset s)

/-- The slider is on the arc exactly when the mirrored progress fits. -/
theorem inverse_iff_mirrorFits (hm : s.mMin < s.mMax) (ha : s.mStartAngle < s.mEndAngle)
    (hr : s.mRange = (0, 0)) (hmin : s.mMin ≤ s.mProgress) (hmax : s.mProgress ≤ s.mMax) :
    Inverse s ↔ MirrorFits s := by
  have hd : 0 < s.mEndAngle - s.mStartAngle := sub_pos.mpr ha
  have hw : 0 < s.mMax - s.mMin := sub_pos.mpr hm
  have harc : (s.mStartAngle ≤ s.onDraw.sliderAngle ∧ s.onDraw.sliderAngle ≤ s.mEndAngle) ↔
      -(s.mMax - s.mMin) < (s.mEndAngle - s.mStartAngle) * paintedOffset s ∧
        (s.mEndAngle - s.mStartAngle) * paintedOffset s <
          (s.mMax - s.mMin) * (s.mEndAngle - s.mStartAngle + 1) := by
    rw [← scale_mem_iff hd hw, sliderAngle_eq hm hr]
    constructor <;> rintro ⟨hlo, hhi⟩ <;> constructor <;> linarith
  rw [Inverse, and_iff_left (touchProgress_close hm ha hr), harc, MirrorFits, paintedOffset]
  cases s.mIsReverse with
  | false =>
    simp only [Bool.false_eq_true, if_false, false_imp_iff, iff_true]
    have hlo : 0 ≤ (s.mEndAngle - s.mStartAngle) * (s.mProgress - s.mMin) :=
      mul_nonneg hd.le (sub_nonneg.mpr hmin)
    have hhi := mul_le_mul_of_nonneg_left (sub_le_sub_right hmax s.mMin) hd.le
    constructor <;> linarith
  | true =>
    simp only [if_true, true_imp_iff]
    constructor <;> rintro ⟨hlo, hhi⟩ <;> constructor <;> linarith

/-- Every progress of a reversed bar fits when the lower limit is nearer to 0
than what one degree stands for. -/
theorem forall_mirrorFits_iff (hm : s.mMin < s.mMax) (ha : s.mStartAngle < s.mEndAngle) :
    (∀ p, s.mMin ≤ p → p ≤ s.mMax → MirrorFits {s with mProgress := p}) ↔
      (s.mIsReverse = true → (s.mEndAngle - s.mStartAngle) * |s.mMin| < s.mMax - s.mMin) := by
  have hd : 0 < s.mEndAngle - s.mStartAngle := sub_pos.mpr ha
  unfold MirrorFits
  dsimp only
  constructor
  · intro h hrev
    have hhi := (h s.mMax hm.le le_rfl hrev).1
    have hlo := (h s.mMin le_rfl hm.le hrev).2
    rcases abs_cases s.mMin with ⟨he, -⟩ | ⟨he, -⟩ <;> rw [he] <;> linarith
  · intro h p hmin hmax hrev
    have hlim := h hrev
    have hhi : (s.mEndAngle - s.mStartAngle) * (s.mMin - (s.mMax - p)) ≤
        (s.mEndAngle - s.mStartAngle) * |s.mMin| :=
      mul_le_mul_of_nonneg_left (by have := le_abs_self s.mMin; omega) hd.le
    have hlo : (s.mEndAngle - s.mStartAngle) * (s.mMax - p - s.mMax) ≤
        (s.mEndAngle - s.mStartAngle) * |s.mMin| :=
      mul_le_mul_of_nonneg_left (by have := neg_le_abs s.mMin; omega) hd.le
    exact ⟨hhi.trans_lt hlim, hlo.trans_lt hlim⟩

/-- Painting and touching are inverse at a progress exactly when its mirror
image fits, and at every progress exactly when the bar is not reversed or its
lower limit is nearer to 0 than what one degree stands for. -/
theorem painting_touching_inverse_iff (s : ArcSeekBar) (hm : s.mMin < s.mMax)
    (ha : s.mStartAngle < s.mEndAngle) (hr : s.mRange = (0, 0)) :
    (∀ p, s.mMin ≤ p → p ≤ s.mMax →
      (Inverse {s with mProgress := p} ↔ MirrorFits {s with mProgress := p})) ∧
    ((∀ p, s.mMin ≤ p → p ≤ s.mMax → Inverse {s with mProgress := p}) ↔
      (s.mIsReverse = true → (s.mEndAngle - s.mStartAngle) * |s.mMin| < s.mMax - s.mMin)) := by
  have hpoint : ∀ p, s.mMin ≤ p → p ≤ s.mMax →
      (Inverse {s with mProgress := p} ↔ MirrorFits {s with mProgress := p}) :=
    fun p hmin hmax => inverse_iff_mirrorFits (s := {s with mProgress := p}) hm ha hr hmin hmax
  refine ⟨hpoint, ?_⟩
  rw [← forall_mirrorFits_iff hm ha]
  exact forall_congr' fun p => imp_congr_right fun hmin => imp_congr_right fun hmax =>
    hpoint p hmin hmax

/-- A reversed bar from 0. -/
theorem painting_touching_inverse_from_zero :
    Inverse {initViewData with mIsReverse := true, mProgress := 40} :=
  (painting_touching_inverse_iff {initViewData with mIsReverse := true}
    (by decide) (by decide) rfl).2.mpr (fun _ => by decide) 40 (by decide) (by decide)

/-- A reversed bar from 10 to 20 that stands at 20: its slider is painted at
-90 degrees, outside the arc from 150 to 390. -/
theorem painting_touching_not_inverse_from_ten :
    ¬ ∀ s : ArcSeekBar, s.mMin < s.mMax → s.mStartAngle < s.mEndAngle → s.mRange = (0, 0) →
      ∀ p, s.mMin ≤ p → p ≤ s.mMax → Inverse {s with mProgress := p} := by
  intro h
  have harc := (h {initViewData with mMin := 10, mMax := 20, mIsReverse := true}
    (by decide) (by decide) rfl 20 (by decide) (by decide)).1.1
  exact absurd harc (by decide)

end CdroidDemo.SeekBarAngles
