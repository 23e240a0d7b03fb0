import CdroidDemo.SeekBar

/-!
# What the seek bar paints and what it reports

The bar paints its progress moved into its range and reports its progress as
it is. The two agree as long as no range comes into force that leaves out the
progress. Touches keep them in agreement.
-/

namespace CdroidDemo.SeekBarRuns

open SeekBar ArcSeekBar

/-- A call of one of the four setters, with the answer of the check listener. -/
inductive Call where
  /-- A new least progress. -/
  | setMin (min : ℤ)
  /-- A new greatest progress. -/
  | setMax (max : ℤ)
  /-- A new range. -/
  | setRange (r0 r2 : ℤ)
  /-- A new progress, which the listener may forbid. -/
  | setProgress (allowed : Bool) (progress : ℤ)

/-- What a call makes of the bar. -/
def Call.apply (s : ArcSeekBar) : Call → ArcSeekBar
  | .setMin min => s.setMin min
  | .setMax max => s.setMax max
  | .setRange r0 r2 => s.setRange r0 r2
  | .setProgress allowed progress => s.setProgress allowed progress

/-- `P` holds after each call of a run. -/
def AfterEach (P : ArcSeekBar → Prop) : ArcSeekBar → List Call → Prop
  | _, [] => True
  | s, c :: calls => P (c.apply s) ∧ AfterEach P (c.apply s) calls

/-- `R` holds of each call and the bar it is made on. -/
def AtEach (R : ArcSeekBar → Call → Prop) : ArcSeekBar → List Call → Prop
  | _, [] => True
  | s, c :: calls => R s c ∧ AtEach R (c.apply s) calls

/-- The limits are in order. -/
def Ordered (s : ArcSeekBar) : Prop := s.mMin ≤ s.mMax

instance (s : ArcSeekBar) : Decidable (Ordered s) := inferInstanceAs (Decidable (_ ≤ _))

/-- What is painted is what is reported, and it lies between the limits. -/
def PaintsReported (s : ArcSeekBar) : Prop :=
  s.onDraw.progress = s.getProgress ∧ s.mMin ≤ s.onDraw.progress ∧ s.onDraw.progress ≤ s.mMax

/-- The progress lies in the range from `r0` to `r2`. -/
def Within (s : ArcSeekBar) (r0 r2 : ℤ) : Prop := r0 ≤ s.mProgress ∧ s.mProgress ≤ r2

instance (s : ArcSeekBar) (r0 r2 : ℤ) : Decidable (Within s r0 r2) :=
  inferInstanceAs (Decidable (_ ∧ _))

/-- The call brings no range into force that leaves out the progress: neither
a new one, nor one that was out of use until a limit moved. -/
def Covers (s : ArcSeekBar) : Call → Prop
  | .setMin min => ¬s.Active → Active {s with mMin := min} → Within s s.mRange.1 s.mRange.2
  | .setMax max => ¬s.Active → Active {s with mMax := max} → Within s s.mRange.1 s.mRange.2
  | .setRange r0 r2 =>
    Active {s with mRange := (r0, s.rangeEnd r0 r2)} → Within s r0 (s.rangeEnd r0 r2)
  | .setProgress _ _ => True

/-! ## One call -/

/-- The progress is between the limits, and in the range while that is used. -/
def Settled (s : ArcSeekBar) : Prop :=
  s.mMin ≤ s.mProgress ∧ s.mProgress ≤ s.mMax ∧ (s.Active → Within s s.mRange.1 s.mRange.2)

/-- A bar that is not reversed paints what it reports when its progress is
settled. -/
theorem paintsReported_iff {s : ArcSeekBar} (hrev : s.mIsReverse = false) :
    PaintsReported s ↔ Settled s := by
  have hpaint : s.onDraw.progress = s.checkRange s.mProgress := by
    unfold onDraw
    rw [hrev]
    rfl
  unfold PaintsReported Settled getProgress
  rw [hpaint]
  constructor
  · rintro ⟨heq, hmin, hmax⟩
    rw [heq] at hmin hmax
    exact ⟨hmin, hmax, checkRange_eq_self_iff.mp heq⟩
  · rintro ⟨hmin, hmax, hin⟩
    rw [checkRange_eq_self_iff.mpr hin]
    exact ⟨rfl, hmin, hmax⟩

/-- A new minimum keeps the bar settled exactly when it leaves the range
covered. -/
theorem setMin_settled_iff {s : ArcSeekBar} {m : ℤ} (h : Settled s) (hm : m ≤ s.mMax) :
    Settled (s.setMin m) ↔ Covers s (.setMin m) := by
  obtain ⟨hmin, hmax, hin⟩ := h
  obtain ⟨hm1, hm2, hm3, -⟩ := setMin_frame s m
  have hp := setMin_mProgress s m hmin
  unfold Settled Covers Within Active at *
  rw [hm1, hm2, hm3, hp]
  dsimp only
  omega

/-- A new maximum keeps the bar settled exactly when it leaves the range
covered. -/
theorem setMax_settled_iff {s : ArcSeekBar} {m : ℤ} (h : Settled s) (hm : s.mMin ≤ m) :
    Settled (s.setMax m) ↔ Covers s (.setMax m) := by
  obtain ⟨hmin, hmax, hin⟩ := h
  obtain ⟨hm1, hm2, hm3, -⟩ := setMax_frame s m
  have hp := setMax_mProgress s m hmax
  unfold Settled Covers Within Active at *
  rw [hm1, hm2, hm3, hp]
  dsimp only
  omega

/-- A new range keeps the bar settled exactly when it covers the progress. -/
theorem setRange_settled_iff {s : ArcSeekBar} {r0 r2 : ℤ} (h : Settled s) :
    Settled (s.setRange r0 r2) ↔ Covers s (.setRange r0 r2) := by
  obtain ⟨hmin, hmax, -⟩ := h
  unfold Covers setRange
  dsimp only
  split_ifs with hr
  · exact ⟨fun hs _ => hs.2.2 hr, fun hc => ⟨hmin, hmax, fun _ => hc hr⟩⟩
  · exact iff_of_true ⟨hmin, hmax, fun ha => absurd ha.2.2 (lt_irrefl 0)⟩ fun ha => absurd ha hr

/-- Setting the progress settles it, whatever it was before. -/
theorem setProgress_settled {s : ArcSeekBar} {allowed : Bool} {p : ℤ} (h : Settled s) :
    Settled (s.setProgress allowed p) := by
  cases allowed with
  | false => exact h
  | true =>
    obtain ⟨hmin, hmax, -⟩ := h
    obtain ⟨hf1, hf2, hf3, -⟩ := setProgress_frame s true p
    have hp := setProgress_mProgress s p (hmin.trans hmax)
    have hlo : s.mMin ≤ max s.mMin (min s.mMax p) := le_max_left _ _
    have hhi : max s.mMin (min s.mMax p) ≤ s.mMax := max_le (hmin.trans hmax) (min_le_left _ _)
    have hbetween := checkRange_mem hlo hhi
    have hin := checkRange_eq_self_iff.mp (checkRange_checkRange s (max s.mMin (min s.mMax p)))
    unfold Settled Within Active at *
    rw [hf1, hf2, hf3, hp]
    exact ⟨hbetween.1, hbetween.2, hin⟩

/-- The direction of the bar is fixed. -/
theorem apply_mIsReverse (s : ArcSeekBar) (c : Call) : (c.apply s).mIsReverse = s.mIsReverse := by
  cases c with
  | setMin m => exact (setMin_frame s m).2.2.2
  | setMax m => exact (setMax_frame s m).2.2.2
  | setRange r0 r2 =>
    unfold Call.apply setRange
    dsimp only
    split_ifs <;> rfl
  | setProgress allowed p => exact (setProgress_frame s allowed p).2.2.2

/-- One call keeps the progress settled exactly when it covers it. -/
theorem apply_settled_iff {s : ArcSeekBar} {c : Call} (h : Settled s)
    (ho : Ordered (c.apply s)) : Settled (c.apply s) ↔ Covers s c := by
  cases c with
  | setMin m =>
    refine setMin_settled_iff h ?_
    rw [Ordered, Call.apply, (setMin_frame s m).1, (setMin_frame s m).2.1] at ho
    exact ho
  | setMax m =>
    refine setMax_settled_iff h ?_
    rw [Ordered, Call.apply, (setMax_frame s m).1, (setMax_frame s m).2.1] at ho
    exact ho
  | setRange r0 r2 => exact setRange_settled_iff h
  | setProgress allowed p => exact iff_of_true (setProgress_settled h) trivial

/-! ## Touches -/

/-- A progress from the user keeps the bar settled. -/
theorem setProgressFromUser_settled {s : ArcSeekBar} {allowed : Bool} {p : ℤ} (h : Settled s) :
    Settled (s.setProgressFromUser allowed p) :=
  setProgress_settled (s := {s with mFromUser := true}) h

/-- A touch sets the progress through `setProgress` or not at all. -/
theorem onTouchEvent_settled {s : ArcSeekBar} {isEnabled allowed : Bool} {touch : Touch}
    (h : Settled s) : Settled (s.onTouchEvent isEnabled allowed touch) := by
  unfold onTouchEvent
  split
  · exact h
  cases touch with
  | down onSlider angle onArc =>
    dsimp only
    split_ifs
    · exact setProgressFromUser_settled (s := {s with mSliderDown := onSlider}) h
    · exact h
  | up => exact h
  | move clockwise angle =>
    dsimp only
    split_ifs with hdown hangle
    · split
      · exact setProgressFromUser_settled (s := {s with mAngleAdd := !clockwise}) h
      · exact h
    · split
      · exact setProgressFromUser_settled (s := {s with mAngleAdd := clockwise}) h
      · exact h
    · exact h
    · exact h

/-! ## Runs -/

/-- The bar is settled after each call exactly when each call leaves it covered.
-/
theorem afterEach_settled_iff {s : ArcSeekBar} {calls : List Call} (h : Settled s)
    (ho : AfterEach Ordered s calls) : AfterEach Settled s calls ↔ AtEach Covers s calls := by
  induction calls generalizing s with
  | nil => exact Iff.rfl
  | cons c calls ih =>
    have hstep := apply_settled_iff h ho.1
    constructor
    · rintro ⟨hs, hrest⟩
      exact ⟨hstep.mp hs, (ih hs ho.2).mp hrest⟩
    · rintro ⟨hc, hrest⟩
      exact ⟨hstep.mpr hc, (ih (hstep.mpr hc) ho.2).mpr hrest⟩

/-- The paints are the reported ones after each call exactly when the bar is
settled. -/
theorem afterEach_paintsReported_iff {s : ArcSeekBar} {calls : List Call}
    (hrev : s.mIsReverse = false) :
    AfterEach PaintsReported s calls ↔ AfterEach Settled s calls := by
  induction calls generalizing s with
  | nil => exact Iff.rfl
  | cons c calls ih =>
    have hrev' : (c.apply s).mIsReverse = false := (apply_mIsReverse s c).trans hrev
    exact and_congr (paintsReported_iff hrev') (ih hrev')

/-- From a bar without a range, what is painted after each call is what is
reported, between the limits, exactly when no call brings a range into force
that leaves out the progress. -/
theorem paints_reported_iff {s : ArcSeekBar} {calls : List Call} (hrev : s.mIsReverse = false)
    (hmin : s.mMin ≤ s.mProgress) (hmax : s.mProgress ≤ s.mMax) (hr : s.mRange = (0, 0))
    (ho : AfterEach Ordered s calls) :
    AfterEach PaintsReported s calls ↔ AtEach Covers s calls := by
  have hs : Settled s := by
    refine ⟨hmin, hmax, fun ha => ?_⟩
    rw [Active, hr] at ha
    exact absurd ha.2.2 (lt_irrefl 0)
  rw [afterEach_paintsReported_iff hrev]
  exact afterEach_settled_iff hs ho

/-- A range set around the progress may go out of use and come back. -/
theorem paints_reported_progress_first :
    AfterEach PaintsReported initViewData
      [.setProgress true 60, .setRange 50 80, .setMax 70, .setMax 100] := by
  refine (paints_reported_iff rfl (by decide) (by decide) rfl ?_).mpr ?_
  · exact ⟨by decide, by decide, by decide, by decide, trivial⟩
  · refine ⟨trivial, fun _ => ?_, fun _ ha => ?_, fun _ _ => ?_, trivial⟩
    · decide
    · revert ha
      decide
    · decide

/-- A range set without the progress of the new bar: it paints 50 and reports
30. -/
theorem paints_reported_fails_on_range :
    ¬ ∀ (s : ArcSeekBar) (calls : List Call), s.mIsReverse = false →
      s.mMin ≤ s.mProgress → s.mProgress ≤ s.mMax → s.mRange = (0, 0) →
      AfterEach Ordered s calls → AfterEach PaintsReported s calls := by
  intro h
  have ho : AfterEach Ordered initViewData [.setRange 50 80] := by
    refine ⟨?_, trivial⟩
    decide
  have hpaint := (h initViewData [.setRange 50 80] rfl (by decide) (by decide) rfl ho).1.1
  exact absurd hpaint (by decide)

end CdroidDemo.SeekBarRuns
