import Mathlib.Algebra.Order.Ring.Abs
import CdroidDemo.SeekBarRuns

/-!
# Dragging the slider

The arc is open, and a finger that leaves it at one end can come back at the
other. A move that would take the progress across the gap is held at the end
or dropped, so a drag leaves an end only through the eighth of the progress
next to it. The listeners hear every change and nothing else. On a bar whose
limits and angles are small enough no `int` of the source overflows meanwhile.
-/

namespace CdroidDemo.SeekBarDrags

open SeekBar ArcSeekBar SeekBarRuns

/-- A touch of a bar that is enabled or not, with the answer of the check
listener. -/
structure Contact where
  /-- The bar is enabled. -/
  isEnabled : Bool
  /-- The check listener lets the progress through. -/
  allowed : Bool
  /-- The touch. -/
  touch : Touch

/-- A press beside the slider but on the arc, which sets the progress. -/
def PressesArc : Touch → Prop
  | .down onSlider _ onArc => onSlider = false ∧ onArc = true
  | _ => False

/-- The bar after a touch. -/
def contact (s : ArcSeekBar) (t : Contact) : ArcSeekBar :=
  s.onTouchEvent t.isEnabled t.allowed t.touch

/-- The bar after touches in order. -/
def drag (s : ArcSeekBar) : List Contact → ArcSeekBar
  | [] => s
  | t :: ts => drag (contact s t) ts

/-- The progress after each touch. -/
def progresses (s : ArcSeekBar) : List Contact → List ℤ
  | [] => []
  | t :: ts => (contact s t).mProgress :: progresses (contact s t) ts

/-- The values that differ from the one before, the first of which follows `p`. -/
def changesOf : ℤ → List ℤ → List ℤ
  | _, [] => []
  | p, q :: l => if p = q then changesOf q l else q :: changesOf q l

/-- The changes of a list of progresses, those of its head first. -/
theorem changesOf_cons (p q : ℤ) (l : List ℤ) :
    changesOf p (q :: l) = changesOf p [q] ++ changesOf q l := by
  rw [changesOf, changesOf, changesOf]
  split_ifs <;> rfl

/-- The progress leaves an end only to the eighth next to it. -/
def Glides (mMin mMax p q : ℤ) : Prop :=
  (p = mMin → q ≤ mMin + (mMax - mMin) / 8) ∧ (p = mMax → mMin + (mMax - mMin) * 7 / 8 ≤ q)

/-! ## The range of `int` -/

/-- The values of an `int`. -/
def IsInt (x : ℤ) : Prop := -2 ^ 31 ≤ x ∧ x < 2 ^ 31

/-- The angle of a touch. -/
def touchAngle : Touch → Option ℤ
  | .down _ angle _ => some angle
  | .move _ angle => some angle
  | .up => none

/-- The sums, differences and products that `onTouchEvent` forms for an angle.
Its quotients are no larger than what they divide. -/
def touchTerms (s : ArcSeekBar) (angle : ℤ) : List ℤ :=
  let scaled := s.getWidthProgress * (angle - s.mStartAngle)
  let progress := s.mMin + scaled.tdiv (s.mEndAngle - s.mStartAngle)
  [s.mMax - s.mMin, angle - s.mStartAngle, scaled, s.mEndAngle - s.mStartAngle, progress,
    s.mMax - progress, s.mProgress - s.mMin, s.touchProgress angle - s.mMin,
    (s.mMax - s.mMin) * 7]

/-- The limits and the angles are small enough for the `int`s of the source,
and the arc has a width to divide by. -/
structure Fits (s : ArcSeekBar) (angle : ℤ) : Prop where
  /-- The lower limit leaves room for the sums. -/
  mMin : |s.mMin| < 2 ^ 29
  /-- The upper limit leaves room for the sums. -/
  mMax : |s.mMax| < 2 ^ 29
  /-- Seven eighths of the progress are computed. -/
  eighths : (s.mMax - s.mMin) * 7 < 2 ^ 31
  /-- The arc has a width. -/
  arc : 0 < s.mEndAngle - s.mStartAngle ∧ s.mEndAngle - s.mStartAngle < 2 ^ 31
  /-- The angle is scaled to a progress. -/
  scaled : |(s.mMax - s.mMin) * (angle - s.mStartAngle)| < 2 ^ 29

variable {s s' : ArcSeekBar}

/-- On a settled bar that fits an angle nothing overflows. -/
theorem Fits.touchTerms_isInt {angle : ℤ} (h : Fits s angle) (hs : Settled s)
    (hw : 8 ≤ s.mMax - s.mMin) : ∀ v ∈ touchTerms s angle, IsInt v := by
  have hmin := abs_lt.mp h.mMin
  have hmax := abs_lt.mp h.mMax
  have hscaled := abs_lt.mp h.scaled
  have harc := h.arc
  have heighths := h.eighths
  obtain ⟨hlow, hhigh, -⟩ := hs
  have hoff : |angle - s.mStartAngle| ≤ |(s.mMax - s.mMin) * (angle - s.mStartAngle)| := by
    rw [abs_mul, abs_of_pos (by omega : 0 < s.mMax - s.mMin)]
    exact le_mul_of_one_le_left (abs_nonneg _) (by omega)
  have hoff' := abs_lt.mp (hoff.trans_lt h.scaled)
  have hquot := Int.natAbs_tdiv_le_natAbs ((s.mMax - s.mMin) * (angle - s.mStartAngle))
    (s.mEndAngle - s.mStartAngle)
  have htouch : s.touchProgress angle =
      if s.mIsReverse then s.mMax - (s.mMin + ((s.mMax - s.mMin) *
        (angle - s.mStartAngle)).tdiv (s.mEndAngle - s.mStartAngle))
      else s.mMin + ((s.mMax - s.mMin) * (angle - s.mStartAngle)).tdiv
        (s.mEndAngle - s.mStartAngle) := by
    rw [touchProgress, getWidthProgress, max_eq_right (by omega)]
  rw [touchTerms, htouch, getWidthProgress, max_eq_right (by omega)]
  generalize (s.mMax - s.mMin) * (angle - s.mStartAngle) = scaled at hscaled hquot ⊢
  generalize scaled.tdiv (s.mEndAngle - s.mStartAngle) = q at hquot ⊢
  simp only [List.mem_cons, List.not_mem_nil, or_false, forall_eq_or_imp, forall_eq, IsInt]
  refine ⟨?_, ?_, ?_, ?_, ?_, ?_, ?_, ?_, ?_⟩
  all_goals try split_ifs
  all_goals omega

/-! ## One touch -/

/-- The limits and the arc are the same. -/
structure Same (s s' : ArcSeekBar) : Prop where
  /-- The lower limit is the same. -/
  mMin : s'.mMin = s.mMin
  /-- The upper limit is the same. -/
  mMax : s'.mMax = s.mMax
  /-- The arc begins at the same angle. -/
  mStartAngle : s'.mStartAngle = s.mStartAngle
  /-- The arc ends at the same angle. -/
  mEndAngle : s'.mEndAngle = s.mEndAngle

/-- All that a touch other than a press on the arc does to the progress. -/
inductive Moved (s : ArcSeekBar) : ArcSeekBar → Prop
  /-- The touch changes nothing. -/
  | kept {s' : ArcSeekBar} (h : Same s s') (hp : s'.mProgress = s.mProgress)
      (hc : s'.changes = s.changes) : Moved s s'
  /-- The slider follows the touch. -/
  | moved {s' : ArcSeekBar} (h : Same s s') {clockwise : Bool} {angle p : ℤ}
      (hm : moveProgress {s with mAngleAdd := clockwise} angle = some p)
      (hp : s'.mProgress = s.checkRange (max s.mMin (min s.mMax p)))
      (hc : s'.changes =
        if s'.mProgress = s.mProgress then s.changes else s.changes ++ [(s'.mProgress, true)]) :
      Moved s s'

/-- The listeners hear of a new progress. -/
theorem setProgress_changes (s : ArcSeekBar) (allowed : Bool) (p : ℤ) :
    (s.setProgress allowed p).changes =
      if (s.setProgress allowed p).mProgress = s.mProgress then s.changes
      else s.changes ++ [((s.setProgress allowed p).mProgress, s.mFromUser)] := by
  cases allowed with
  | false => exact (if_pos rfl).symm
  | true =>
    unfold setProgress
    dsimp only
    rw [Bool.not_true, if_neg Bool.false_ne_true]
    generalize s.checkRange (if p > s.mMax then s.mMax else if p < s.mMin then s.mMin else p) = q
    by_cases heq : q = s.mProgress
    · rw [if_pos heq, if_pos rfl]
    · rw [if_neg heq]
      exact (if_neg heq).symm

/-- `setProgress` leaves the arc. -/
theorem setProgress_arc (s : ArcSeekBar) (allowed : Bool) (p : ℤ) :
    (s.setProgress allowed p).mStartAngle = s.mStartAngle ∧
      (s.setProgress allowed p).mEndAngle = s.mEndAngle := by
  unfold setProgress
  dsimp only
  split_ifs <;> exact ⟨rfl, rfl⟩

/-- The progress that a move sets. -/
theorem setProgressFromUser_moved (ho : s.mMin ≤ s.mMax) {clockwise allowed : Bool} {angle p : ℤ}
    (hm : moveProgress {s with mAngleAdd := clockwise} angle = some p) :
    Moved s (setProgressFromUser {s with mAngleAdd := clockwise} allowed p) := by
  obtain ⟨hf1, hf2, -, -⟩ :=
    setProgress_frame {s with mAngleAdd := clockwise, mFromUser := true} allowed p
  obtain ⟨ha1, ha2⟩ :=
    setProgress_arc {s with mAngleAdd := clockwise, mFromUser := true} allowed p
  cases allowed with
  | false => exact Moved.kept ⟨rfl, rfl, rfl, rfl⟩ rfl rfl
  | true =>
    have hp := setProgress_mProgress {s with mAngleAdd := clockwise, mFromUser := true} p ho
    exact Moved.moved ⟨hf1, hf2, ha1, ha2⟩ hm hp (setProgress_changes _ true p)

/-- A touch other than a press on the arc moves the slider or leaves it. -/
theorem contact_moved (ho : s.mMin ≤ s.mMax) {t : Contact} (ht : ¬PressesArc t.touch) :
    Moved s (contact s t) := by
  unfold contact onTouchEvent
  split
  · exact Moved.kept ⟨rfl, rfl, rfl, rfl⟩ rfl rfl
  cases htouch : t.touch with
  | down onSlider angle onArc =>
    rw [htouch] at ht
    dsimp only
    rw [if_neg]
    · exact Moved.kept ⟨rfl, rfl, rfl, rfl⟩ rfl rfl
    · rintro ⟨hout, -, -, harc⟩
      exact ht ⟨by simpa using hout, harc⟩
  | up => exact Moved.kept ⟨rfl, rfl, rfl, rfl⟩ rfl rfl
  | move clockwise angle =>
    dsimp only
    split_ifs
    · split
      · next hm => exact setProgressFromUser_moved ho hm
      · exact Moved.kept ⟨rfl, rfl, rfl, rfl⟩ rfl rfl
    · split
      · next hm => exact setProgressFromUser_moved ho hm
      · exact Moved.kept ⟨rfl, rfl, rfl, rfl⟩ rfl rfl
    · exact Moved.kept ⟨rfl, rfl, rfl, rfl⟩ rfl rfl
    · exact Moved.kept ⟨rfl, rfl, rfl, rfl⟩ rfl rfl

/-- From the lower end a move goes to the first eighth at most. -/
theorem moveProgress_min (hw : 8 ≤ s.mMax - s.mMin) (hp : s.mProgress = s.mMin) {angle p : ℤ}
    (hm : s.moveProgress angle = some p) : p ≤ s.mMin + (s.mMax - s.mMin) / 8 := by
  unfold moveProgress at hm
  dsimp only at hm
  rw [hp, Int.tdiv_eq_ediv_of_nonneg (by omega), Int.tdiv_eq_ediv_of_nonneg (by omega)] at hm
  split_ifs at hm <;> cases hm <;> omega

/-- From the upper end a move goes to the last eighth at least. -/
theorem moveProgress_max (hw : 8 ≤ s.mMax - s.mMin) (hp : s.mProgress = s.mMax) {angle p : ℤ}
    (hm : s.moveProgress angle = some p) : s.mMin + (s.mMax - s.mMin) * 7 / 8 ≤ p := by
  unfold moveProgress at hm
  dsimp only at hm
  rw [hp, Int.tdiv_eq_ediv_of_nonneg (by omega), Int.tdiv_eq_ediv_of_nonneg (by omega)] at hm
  split_ifs at hm <;> cases hm <;> omega

/-- A range that holds the lower end takes no value further up, one that holds
the upper end none further down. -/
theorem checkRange_glides (h : Settled s) (p : ℤ) :
    (s.mProgress = s.mMin → s.checkRange p ≤ p ∨ s.checkRange p = s.mMin) ∧
      (s.mProgress = s.mMax → p ≤ s.checkRange p ∨ s.checkRange p = s.mMax) := by
  obtain ⟨-, -, hin⟩ := h
  unfold checkRange
  split_ifs with ha hup hlow
  · have hr := hin ha
    unfold Within at hr
    unfold Active at ha
    exact ⟨fun _ => by omega, fun _ => by omega⟩
  · have hr := hin ha
    unfold Within at hr
    unfold Active at ha
    exact ⟨fun _ => by omega, fun _ => by omega⟩
  · exact ⟨fun _ => Or.inl le_rfl, fun _ => Or.inl le_rfl⟩
  · exact ⟨fun _ => Or.inl le_rfl, fun _ => Or.inl le_rfl⟩

/-- One touch glides. -/
theorem Moved.glides (hm : Moved s s') (h : Settled s) (hw : 8 ≤ s.mMax - s.mMin) :
    Glides s.mMin s.mMax s.mProgress s'.mProgress := by
  cases hm with
  | kept _ hp _ =>
    rw [hp]
    exact ⟨fun he => by omega, fun he => by omega⟩
  | @moved _ clockwise angle p hm hp _ =>
    obtain ⟨hlow, hhigh⟩ := checkRange_glides h (max s.mMin (min s.mMax p))
    rw [hp]
    refine ⟨fun he => ?_, fun he => ?_⟩
    · have hle : p ≤ s.mMin + (s.mMax - s.mMin) / 8 :=
        moveProgress_min (s := {s with mAngleAdd := clockwise}) hw he hm
      rcases hlow he with hr | hr <;> omega
    · have hle : s.mMin + (s.mMax - s.mMin) * 7 / 8 ≤ p :=
        moveProgress_max (s := {s with mAngleAdd := clockwise}) hw he hm
      rcases hhigh he with hr | hr <;> omega

/-- A touch changes the progress only. -/
theorem Moved.same (hm : Moved s s') : Same s s' := by
  cases hm with
  | kept h _ _ => exact h
  | moved h _ _ _ => exact h

/-- The listeners hear the new progress if it is a change. -/
theorem Moved.changes (hm : Moved s s') :
    s'.changes = s.changes ++ (changesOf s.mProgress [s'.mProgress]).map fun p => (p, true) := by
  unfold changesOf changesOf
  cases hm with
  | kept _ hp hc =>
    rw [hc, if_pos hp.symm]
    exact (List.append_nil _).symm
  | moved _ _ _ hc =>
    rw [hc]
    split_ifs with he hne hne
    · exact (List.append_nil _).symm
    · exact absurd he.symm hne
    · exact absurd hne.symm he
    · rfl

/-! ## Drags -/

/-- In a list that glides, the first value that differs from the lower end lies
in the first eighth. -/
theorem leaves_min {mMin mMax p : ℤ} {l : List ℤ}
    (hl : List.IsChain (Glides mMin mMax) (p :: l)) (hmin : ∀ q ∈ l, mMin ≤ q) (hp : p = mMin)
    (hq : ∃ q ∈ l, q ≠ mMin) : ∃ q ∈ l, mMin < q ∧ q ≤ mMin + (mMax - mMin) / 8 := by
  induction l generalizing p with
  | nil =>
    obtain ⟨q, hq, -⟩ := hq
    cases hq
  | cons q l ih =>
    obtain ⟨hglide, hrest⟩ := List.isChain_cons_cons.mp hl
    by_cases he : q = mMin
    · obtain ⟨r, hr, hne⟩ := hq
      have hr' : r ∈ l := (List.mem_cons.mp hr).resolve_left fun heq => hne (heq.trans he)
      obtain ⟨x, hx, hx'⟩ := ih hrest (fun y hy => hmin y (List.mem_cons_of_mem q hy)) he
        ⟨r, hr', hne⟩
      exact ⟨x, List.mem_cons_of_mem q hx, hx'⟩
    · exact ⟨q, List.mem_cons_self,
        lt_of_le_of_ne (hmin q List.mem_cons_self) fun heq => he heq.symm, hglide.1 hp⟩

/-- The first value that differs from the upper end lies in the last eighth. -/
theorem leaves_max {mMin mMax p : ℤ} {l : List ℤ}
    (hl : List.IsChain (Glides mMin mMax) (p :: l)) (hmax : ∀ q ∈ l, q ≤ mMax) (hp : p = mMax)
    (hq : ∃ q ∈ l, q ≠ mMax) : ∃ q ∈ l, mMin + (mMax - mMin) * 7 / 8 ≤ q ∧ q < mMax := by
  induction l generalizing p with
  | nil =>
    obtain ⟨q, hq, -⟩ := hq
    cases hq
  | cons q l ih =>
    obtain ⟨hglide, hrest⟩ := List.isChain_cons_cons.mp hl
    by_cases he : q = mMax
    · obtain ⟨r, hr, hne⟩ := hq
      have hr' : r ∈ l := (List.mem_cons.mp hr).resolve_left fun heq => hne (heq.trans he)
      obtain ⟨x, hx, hx'⟩ := ih hrest (fun y hy => hmax y (List.mem_cons_of_mem q hy)) he
        ⟨r, hr', hne⟩
      exact ⟨x, List.mem_cons_of_mem q hx, hx'⟩
    · exact ⟨q, List.mem_cons_self, hglide.2 hp,
        lt_of_le_of_ne (hmax q List.mem_cons_self) he⟩

/-- Touches other than presses on the arc keep the bar settled and glide, and
the listeners hear the changes. -/
theorem drag_glides (h : Settled s) (hw : 8 ≤ s.mMax - s.mMin) {ts : List Contact}
    (hts : ∀ t ∈ ts, ¬PressesArc t.touch) :
    Settled (drag s ts) ∧ Same s (drag s ts) ∧
      List.IsChain (Glides s.mMin s.mMax) (s.mProgress :: progresses s ts) ∧
      (∀ p ∈ progresses s ts, s.mMin ≤ p ∧ p ≤ s.mMax) ∧
      (drag s ts).changes =
        s.changes ++ (changesOf s.mProgress (progresses s ts)).map fun p => (p, true) := by
  induction ts generalizing s with
  | nil =>
    exact ⟨h, ⟨rfl, rfl, rfl, rfl⟩, List.IsChain.singleton _, fun p hp => (by cases hp),
      (List.append_nil _).symm⟩
  | cons t ts ih =>
    have hm := contact_moved (h.1.trans h.2.1) (hts t List.mem_cons_self)
    have hs₁ : Settled (contact s t) := onTouchEvent_settled h
    obtain ⟨hmin, hmax, hstart, hend⟩ := hm.same
    obtain ⟨hs', hsame, hchain, hbetween, hchanges⟩ :=
      ih hs₁ (by rw [hmin, hmax]; exact hw) fun u hu => hts u (List.mem_cons_of_mem t hu)
    rw [hmin, hmax] at hchain hbetween
    refine ⟨hs', ⟨hsame.mMin.trans hmin, hsame.mMax.trans hmax, hsame.mStartAngle.trans hstart,
      hsame.mEndAngle.trans hend⟩,
      List.isChain_cons_cons.mpr ⟨hm.glides h hw, hchain⟩, ?_, ?_⟩
    · intro p hp
      rcases List.mem_cons.mp hp with rfl | hp
      · have hs₁' := hs₁
        unfold Settled at hs₁'
        rw [hmin, hmax] at hs₁'
        exact ⟨hs₁'.1, hs₁'.2.1⟩
      · exact hbetween p hp
    · have hsplit := changesOf_cons s.mProgress (contact s t).mProgress
        (progresses (contact s t) ts)
      rw [drag, hchanges, hm.changes, progresses, hsplit, List.map_append, List.append_assoc]

/-- A bar with the same limits and arc fits the same angles. -/
theorem Fits.same {angle : ℤ} (h : Fits s angle) (hsame : Same s s') : Fits s' angle := by
  obtain ⟨hmin, hmax, hstart, hend⟩ := hsame
  refine ⟨?_, ?_, ?_, ?_, ?_⟩
  · rw [hmin]
    exact h.mMin
  · rw [hmax]
    exact h.mMax
  · rw [hmin, hmax]
    exact h.eighths
  · rw [hstart, hend]
    exact h.arc
  · rw [hmin, hmax, hstart]
    exact h.scaled

/-- At no touch of a drag an `int` overflows. -/
theorem drag_isInt (h : Settled s) (hw : 8 ≤ s.mMax - s.mMin) {ts : List Contact}
    (hts : ∀ t ∈ ts, ¬PressesArc t.touch)
    (hfit : ∀ t ∈ ts, ∀ angle ∈ touchAngle t.touch, Fits s angle) :
    ∀ before t after, ts = before ++ t :: after → ∀ angle ∈ touchAngle t.touch,
      ∀ v ∈ touchTerms (drag s before) angle, IsInt v := by
  intro before t after he angle hangle
  have hbefore : ∀ u ∈ before, ¬PressesArc u.touch := fun u hu =>
    hts u (by rw [he]; exact List.mem_append_left _ hu)
  obtain ⟨hs', hsame, -, -, -⟩ := drag_glides h hw hbefore
  have hmem : t ∈ ts := by
    rw [he]
    exact List.mem_append_right _ List.mem_cons_self
  refine ((hfit t hmem angle hangle).same hsame).touchTerms_isInt hs' ?_
  rw [hsame.mMin, hsame.mMax]
  exact hw

/-- In a drag over a bar of at least eight steps that fits its angles no `int`
overflows, and the progress stays settled and leaves an end only through the
eighth next to it, so one end is never reached from the other at once; the
listeners hear exactly the changes, each as one of the user. -/
theorem drags_never_wrap (h : Settled s) (hw : 8 ≤ s.mMax - s.mMin) {ts : List Contact}
    (hts : ∀ t ∈ ts, ¬PressesArc t.touch)
    (hfit : ∀ t ∈ ts, ∀ angle ∈ touchAngle t.touch, Fits s angle) :
    (∀ before t after, ts = before ++ t :: after → ∀ angle ∈ touchAngle t.touch,
        ∀ v ∈ touchTerms (drag s before) angle, IsInt v) ∧
      Settled (drag s ts) ∧
      List.IsChain (Glides s.mMin s.mMax) (s.mProgress :: progresses s ts) ∧
      (s.mProgress = s.mMin → s.mMax ∈ progresses s ts →
        ∃ p ∈ progresses s ts, s.mMin < p ∧ p ≤ s.mMin + (s.mMax - s.mMin) / 8) ∧
      (s.mProgress = s.mMax → s.mMin ∈ progresses s ts →
        ∃ p ∈ progresses s ts, s.mMin + (s.mMax - s.mMin) * 7 / 8 ≤ p ∧ p < s.mMax) ∧
      (drag s ts).changes =
        s.changes ++ (changesOf s.mProgress (progresses s ts)).map fun p => (p, true) := by
  obtain ⟨hs', -, hchain, hbetween, hchanges⟩ := drag_glides h hw hts
  refine ⟨drag_isInt h hw hts hfit, hs', hchain, fun hp hmem => ?_, fun hp hmem => ?_, hchanges⟩
  · exact leaves_min hchain (fun q hq => (hbetween q hq).1) hp ⟨s.mMax, hmem, by omega⟩
  · exact leaves_max hchain (fun q hq => (hbetween q hq).2) hp ⟨s.mMin, hmem, by omega⟩

/-- The finger takes the slider to the lower end, comes back at the upper end
and goes on anticlockwise. -/
def acrossGap : List Contact :=
  [⟨true, true, .down true 222 true⟩, ⟨true, true, .move false 150⟩,
    ⟨true, true, .move false 390⟩, ⟨true, true, .move false 380⟩]

/-- A drag across the gap is reported once and stays at the minimum. -/
theorem drags_never_wrap_acrossGap :
    Settled (drag initViewData acrossGap) ∧
      (drag initViewData acrossGap).changes = [(0, true)] ∧
      progresses initViewData acrossGap = [30, 0, 0, 0] := by
  have hp : progresses initViewData acrossGap = [30, 0, 0, 0] := by decide
  have hts : ∀ t ∈ acrossGap, ¬PressesArc t.touch := by
    simp [acrossGap, PressesArc]
  have hs : Settled initViewData := ⟨by decide, by decide, fun ha => absurd ha (by decide)⟩
  have hfit : ∀ t ∈ acrossGap, ∀ angle ∈ touchAngle t.touch, Fits initViewData angle := by
    intro t ht angle hangle
    have hin : 150 ≤ angle ∧ angle ≤ 390 := by
      simp only [acrossGap, List.mem_cons, List.not_mem_nil, or_false] at ht
      rcases ht with rfl | rfl | rfl | rfl <;> cases hangle <;> decide
    refine ⟨by decide, by decide, by decide, by decide, ?_⟩
    change |(100 - 0) * (angle - 150)| < 2 ^ 29
    rw [abs_lt]
    omega
  obtain ⟨-, hs', -, -, -, hchanges⟩ := drags_never_wrap hs (by decide) hts hfit
  rw [hp] at hchanges
  exact ⟨hs', hchanges, hp⟩

end CdroidDemo.SeekBarDrags
