import Mathlib.Algebra.Order.Ring.Int

/-!
# The arc seek bar

A progress bar on an arc of a circle. Its limits, its range and its progress
are set by calls and by touches, and every drawing computes the angles anew.
Sums and products are those of the integers; a result that depends on them
says for which bars they stay within the `int` range. The geometry of a touch
is an input: whether it hits the slider or the arc, and its angle. The
listeners are told of a change and do not call the bar.
-/

namespace CdroidDemo.SeekBar

/-- `ArcSeekBar`: its limits, its progress and what a touch has left behind. -/
structure ArcSeekBar where
  /-- Where the arc starts. -/
  mStartAngle : ℤ
  /-- Where it ends. -/
  mEndAngle : ℤ
  /-- The least progress. -/
  mMin : ℤ
  /-- The greatest progress. -/
  mMax : ℤ
  /-- The progress. -/
  mProgress : ℤ
  /-- `mRange`: the two ends of the range, equal when there is none. -/
  mRange : ℤ × ℤ
  /-- The arc is painted from its end. -/
  mIsReverse : Bool
  /-- A slider is shown. -/
  mShowSlider : Bool
  /-- The slider is being dragged. -/
  mSliderDown : Bool
  /-- The last touch went clockwise. -/
  mAngleAdd : Bool
  /-- The progress comes from a touch. -/
  mFromUser : Bool
  /-- What the change listeners were told, the latest last. -/
  changes : List (ℤ × Bool)

/-- `ARC_EXTEND_ANGLE`. -/
def ARC_EXTEND_ANGLE : ℤ := 10

namespace ArcSeekBar

/-- `initViewData`: the bar before any attribute is read. `mAngleAdd` is left
unset by the source; a touch sets it before it is read. -/
def initViewData : ArcSeekBar where
  mStartAngle := 150
  mEndAngle := 390
  mMin := 0
  mMax := 100
  mProgress := 30
  mRange := (0, 0)
  mIsReverse := false
  mShowSlider := true
  mSliderDown := false
  mAngleAdd := false
  mFromUser := false
  changes := []

/-- `getProgress`. -/
def getProgress (s : ArcSeekBar) : ℤ := s.mProgress

/-- The steps of the bar, at least one. -/
def getWidthProgress (s : ArcSeekBar) : ℤ := max 1 (s.mMax - s.mMin)

/-- `onChangeProgress`: the listeners are told the progress and where it came
from. -/
def onChangeProgress (s : ArcSeekBar) : ArcSeekBar :=
  {s with changes := s.changes ++ [(s.mProgress, s.mFromUser)]}

/-- The guard of `checkRange`: the range is used while it fits the limits. -/
def Active (s : ArcSeekBar) : Prop :=
  s.mMin ≤ s.mRange.1 ∧ s.mRange.2 ≤ s.mMax ∧ s.mRange.1 < s.mRange.2

instance (s : ArcSeekBar) : Decidable s.Active :=
  inferInstanceAs (Decidable (_ ∧ _ ∧ _))

/-- `checkRange`: the progress moved into the range, if that is used. -/
def checkRange (s : ArcSeekBar) (progress : ℤ) : ℤ :=
  if s.Active then
    if progress > s.mRange.2 then s.mRange.2
    else if progress < s.mRange.1 then s.mRange.1
    else progress
  else progress

/-- `setMin`: the progress follows a lower limit above it. -/
def setMin (s : ArcSeekBar) (min : ℤ) : ArcSeekBar :=
  if s.mMin ≠ min then
    let s := {s with mMin := min}
    if s.mProgress < s.mMin then onChangeProgress {s with mProgress := s.mMin} else s
  else s

/-- `setMax`: the progress follows an upper limit below it. -/
def setMax (s : ArcSeekBar) (max : ℤ) : ArcSeekBar :=
  if s.mMax ≠ max then
    let s := {s with mMax := max}
    if s.mProgress > s.mMax then onChangeProgress {s with mProgress := s.mMax} else s
  else s

/-- `setProgress`; `allowed` is the answer of `mOnChangeCheckListener`, true
without one. -/
def setProgress (s : ArcSeekBar) (allowed : Bool) (progress : ℤ) : ArcSeekBar :=
  if !allowed then s
  else
    let newProgress :=
      if progress > s.mMax then s.mMax
      else if progress < s.mMin then s.mMin
      else progress
    let newProgress := s.checkRange newProgress
    if newProgress = s.mProgress then s
    else onChangeProgress {s with mProgress := newProgress}

/-- The upper end that `setRange` takes: `mMax` when the ends are reversed. -/
def rangeEnd (s : ArcSeekBar) (r0 r2 : ℤ) : ℤ := if r2 < r0 then s.mMax else r2

/-- `setRange`: a range that does not fit is dropped. -/
def setRange (s : ArcSeekBar) (r0 r2 : ℤ) : ArcSeekBar :=
  let r2 := s.rangeEnd r0 r2
  if r0 ≥ s.mMin ∧ r2 ≤ s.mMax ∧ r0 < r2 then {s with mRange := (r0, r2)}
  else {s with mRange := (0, 0)}

/-! ## What the setters compute -/

/-- Without an active range every progress passes. -/
theorem checkRange_of_not_active {s : ArcSeekBar} (h : ¬s.Active) (progress : ℤ) :
    s.checkRange progress = progress := if_neg h

/-- The range leaves alone exactly the progress that lies within it. -/
theorem checkRange_eq_self_iff {s : ArcSeekBar} {progress : ℤ} :
    s.checkRange progress = progress ↔
      (s.Active → s.mRange.1 ≤ progress ∧ progress ≤ s.mRange.2) := by
  unfold checkRange
  by_cases ha : s.Active
  · rw [if_pos ha]
    obtain ⟨-, -, hr⟩ := id ha
    split_ifs with hup hdown <;> simp only [ha, true_imp_iff, true_iff] <;> omega
  · rw [if_neg ha]
    exact iff_of_true rfl fun h => absurd h ha

/-- A progress between the limits stays between them. -/
theorem checkRange_mem {s : ArcSeekBar} {progress : ℤ} (hmin : s.mMin ≤ progress)
    (hmax : progress ≤ s.mMax) :
    s.mMin ≤ s.checkRange progress ∧ s.checkRange progress ≤ s.mMax := by
  unfold checkRange
  split_ifs with ha
  · obtain ⟨h0, h1, hr⟩ := id ha
    omega
  · obtain ⟨h0, h1, hr⟩ := id ha
    omega
  · exact ⟨hmin, hmax⟩
  · exact ⟨hmin, hmax⟩

/-- Moving a progress into the range twice is moving it once. -/
theorem checkRange_checkRange (s : ArcSeekBar) (progress : ℤ) :
    s.checkRange (s.checkRange progress) = s.checkRange progress := by
  rw [checkRange_eq_self_iff]
  intro ha
  obtain ⟨-, -, hr⟩ := id ha
  unfold checkRange
  rw [if_pos ha]
  split_ifs <;> omega

/-- A new minimum lifts a progress that lies below it. -/
theorem setMin_mProgress (s : ArcSeekBar) (m : ℤ) (h : s.mMin ≤ s.mProgress) :
    (s.setMin m).mProgress = max m s.mProgress := by
  unfold setMin
  dsimp only
  split_ifs with hm hp
  · exact (max_eq_left (le_of_lt hp)).symm
  · exact (max_eq_right (not_lt.mp hp)).symm
  · rw [not_not.mp hm] at h
    exact (max_eq_right h).symm

/-- Besides the progress, a new lower limit changes only the limit. -/
theorem setMin_frame (s : ArcSeekBar) (m : ℤ) :
    (s.setMin m).mMin = m ∧ (s.setMin m).mMax = s.mMax ∧ (s.setMin m).mRange = s.mRange ∧
      (s.setMin m).mIsReverse = s.mIsReverse := by
  unfold setMin
  dsimp only
  split_ifs with hm hp
  · exact ⟨rfl, rfl, rfl, rfl⟩
  · exact ⟨rfl, rfl, rfl, rfl⟩
  · exact ⟨not_not.mp hm, rfl, rfl, rfl⟩

/-- A new maximum lowers a progress that lies above it. -/
theorem setMax_mProgress (s : ArcSeekBar) (m : ℤ) (h : s.mProgress ≤ s.mMax) :
    (s.setMax m).mProgress = min m s.mProgress := by
  unfold setMax
  dsimp only
  split_ifs with hm hp
  · exact (min_eq_left (le_of_lt hp)).symm
  · exact (min_eq_right (not_lt.mp hp)).symm
  · rw [not_not.mp hm] at h
    exact (min_eq_right h).symm

/-- Besides the progress, a new upper limit changes only the limit. -/
theorem setMax_frame (s : ArcSeekBar) (m : ℤ) :
    (s.setMax m).mMax = m ∧ (s.setMax m).mMin = s.mMin ∧ (s.setMax m).mRange = s.mRange ∧
      (s.setMax m).mIsReverse = s.mIsReverse := by
  unfold setMax
  dsimp only
  split_ifs with hm hp
  · exact ⟨rfl, rfl, rfl, rfl⟩
  · exact ⟨rfl, rfl, rfl, rfl⟩
  · exact ⟨not_not.mp hm, rfl, rfl, rfl⟩

/-- A progress that is let through is moved between the limits and then into
the range. -/
theorem setProgress_mProgress (s : ArcSeekBar) (p : ℤ) (h : s.mMin ≤ s.mMax) :
    (s.setProgress true p).mProgress = s.checkRange (max s.mMin (min s.mMax p)) := by
  have hclamp : (if p > s.mMax then s.mMax else if p < s.mMin then s.mMin else p) =
      max s.mMin (min s.mMax p) := by
    split_ifs <;> omega
  unfold setProgress
  dsimp only
  rw [hclamp, Bool.not_true, if_neg Bool.false_ne_true]
  split_ifs with heq
  · exact heq.symm
  · rfl

/-- `setProgress` changes neither limits nor range. -/
theorem setProgress_frame (s : ArcSeekBar) (allowed : Bool) (p : ℤ) :
    (s.setProgress allowed p).mMin = s.mMin ∧ (s.setProgress allowed p).mMax = s.mMax ∧
      (s.setProgress allowed p).mRange = s.mRange ∧
      (s.setProgress allowed p).mIsReverse = s.mIsReverse := by
  unfold setProgress
  dsimp only
  split_ifs <;> exact ⟨rfl, rfl, rfl, rfl⟩

/-! ## Painting -/

/-- What `onDraw` paints: the progress it shows as text, the ends of the
foreground arc and where on the arc the slider stands. -/
structure Drawing where
  /-- The progress shown as text. -/
  progress : ℤ
  /-- Where the foreground arc starts. -/
  startAngle : ℤ
  /-- Where it ends. -/
  endAngle : ℤ
  /-- Where the slider stands. -/
  sliderAngle : ℤ
deriving DecidableEq

/-- The angle at which a painted progress stands. -/
def progressAngle (s : ArcSeekBar) (progress : ℤ) : ℤ :=
  s.mStartAngle
    + ((s.mEndAngle - s.mStartAngle) * (progress - s.mMin)).tdiv s.getWidthProgress

/-- What `onDraw` computes of the progress: the active arc and the angle of the
slider. -/
def onDraw (s : ArcSeekBar) : Drawing :=
  let progress := s.checkRange (if s.mIsReverse then s.mMax - s.mProgress else s.mProgress)
  let startAngle := if s.mIsReverse then s.progressAngle progress else s.mStartAngle
  let endAngle := if s.mIsReverse then s.mEndAngle else s.progressAngle progress
  ⟨progress, startAngle, endAngle, if s.mIsReverse then startAngle else endAngle⟩

/-! ## Touching -/

/-- The progress `onTouchEvent` computes for an angle. The source divides by
the width of the arc, which must not be 0. -/
def touchProgress (s : ArcSeekBar) (angle : ℤ) : ℤ :=
  let progress := s.mMin
    + (s.getWidthProgress * (angle - s.mStartAngle)).tdiv (s.mEndAngle - s.mStartAngle)
  if s.mIsReverse then s.mMax - progress else progress

/-- A touch and what the geometry says of it. -/
inductive Touch where
  /-- `ACTION_DOWN`: on the slider or not, at an angle, near the arc or not. -/
  | down (onSlider : Bool) (angle : ℤ) (onArc : Bool)
  /-- `ACTION_MOVE`: the direction that `calcTouchState` finds, and the angle. -/
  | move (clockwise : Bool) (angle : ℤ)
  /-- `ACTION_UP`. -/
  | up

/-- A progress set by the user's finger. -/
def setProgressFromUser (s : ArcSeekBar) (allowed : Bool) (progress : ℤ) : ArcSeekBar :=
  {setProgress {s with mFromUser := true} allowed progress with mFromUser := false}

/-- The progress a move goes to, none when it would leap over the gap of the
arc. Close to an end the finger pushes the progress onto the end. -/
def moveProgress (s : ArcSeekBar) (angle : ℤ) : Option ℤ :=
  let lastProgress := s.mProgress
  let progress := s.touchProgress angle
  if s.mAngleAdd then
    if progress < lastProgress ∧ lastProgress - s.mMin > ((s.mMax - s.mMin) * 7).tdiv 8 then
      some s.mMax
    else if lastProgress = s.mMin ∧ progress - s.mMin > (s.mMax - s.mMin).tdiv 8 then none
    else some progress
  else
    if progress > lastProgress ∧ lastProgress - s.mMin < (s.mMax - s.mMin).tdiv 8 then
      some s.mMin
    else if lastProgress = s.mMax ∧ progress - s.mMin < ((s.mMax - s.mMin) * 7).tdiv 8 then none
    else some progress

/-- `onTouchEvent` on a bar that is enabled or not. -/
def onTouchEvent (s : ArcSeekBar) (isEnabled allowed : Bool) (touch : Touch) : ArcSeekBar :=
  if !s.mShowSlider || !isEnabled then s
  else
    match touch with
    | .down onSlider angle onArc =>
      let s := {s with mSliderDown := onSlider}
      if !onSlider ∧ s.mStartAngle - ARC_EXTEND_ANGLE ≤ angle
          ∧ angle ≤ s.mEndAngle + ARC_EXTEND_ANGLE ∧ onArc then
        s.setProgressFromUser allowed (s.touchProgress angle)
      else s
    | .up => {s with mSliderDown := false}
    | .move clockwise angle =>
      if s.mSliderDown then
        let s := {s with mAngleAdd := clockwise}
        if s.mStartAngle - ARC_EXTEND_ANGLE ≤ angle then
          let s := if s.mIsReverse then {s with mAngleAdd := !s.mAngleAdd} else s
          match s.moveProgress angle with
          | some progress => s.setProgressFromUser allowed progress
          | none => s
        else s
      else s

end ArcSeekBar

end CdroidDemo.SeekBar
