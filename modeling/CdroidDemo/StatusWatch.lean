import Mathlib.Algebra.Order.Ring.Nat
import CdroidDemo.McuPackets
import CdroidDemo.SpacedEvents
import CdroidDemo.StepRuns

/-!
# Warnings of the MCU

`CConnMgr::onCommDeal` looks at the two warning bytes of a status packet at
most every 30 seconds. Communication errors are only reported when 30 such
samples in a row have them.
-/

namespace CdroidDemo.StatusWatch

open StepRuns SpacedEvents McuPackets

/-! ## The code -/

/-- `FaultWarn`, without the faults that no packet reports. -/
inductive FaultWarn
  /-- The heater is too hot. -/
  | E01
  /-- The outgoing water is too hot. -/
  | E02
  /-- The incoming water freezes. -/
  | E03
  /-- The outgoing water is too cold. -/
  | E04
  /-- The sensor of the incoming water. -/
  | E05
  /-- The sensor of the outgoing water. -/
  | E06
  /-- The communication. -/
  | E07
  /-- The zero crossing detection. -/
  | E08
  /-- There is no water. -/
  | E09
  /-- A leak. -/
  | E11
  /-- The flow meter. -/
  | E12
  /-- A blocked pipe. -/
  | E13
  deriving DecidableEq, Repr

/-- The enumeration value. -/
def FaultWarn.toInt : FaultWarn → UInt32
  | .E01 => 0x0001
  | .E02 => 0x0002
  | .E03 => 0x0004
  | .E04 => 0x0008
  | .E05 => 0x0010
  | .E06 => 0x0020
  | .E07 => 0x0040
  | .E08 => 0x0080
  | .E09 => 0x0100
  | .E11 => 0x0400
  | .E12 => 0x0800
  | .E13 => 0x1000

/-- `MCU2UI::getData` on the valid bytes of a packet. -/
def getData (content : List UInt8) (pos : ℕ) : UInt8 :=
  if pos < MCU2UI.bufLen - 1 then content.getD pos 0 else 0

/-- The fields of `CConnMgr` that status packets go by. -/
structure Watch where
  /-- `mIsFactory`: product test. -/
  mIsFactory : Bool
  /-- `mLastWarnTime`: when the warning bytes were looked at last. -/
  mLastWarnTime : ℤ
  /-- `commErrorCount`: samples with communication errors in a row. -/
  commErrorCount : ℕ
  deriving DecidableEq

/-- `if (code & mask) warnState |= e`. -/
def raise (code mask : UInt8) (e : FaultWarn) (warnState : UInt32) : UInt32 :=
  if code &&& mask ≠ 0 then warnState ||| e.toInt else warnState

/-- The branch for communication errors: the new count, and whether they are reported. -/
def countCommError (warnCode : UInt8) (commErrorCount : ℕ) : ℕ × Bool :=
  if warnCode &&& 0x40 ≠ 0 then
    if 30 ≤ commErrorCount + 1 then (0, true) else (commErrorCount + 1, false)
  else (0, false)

/-- The `warnState` of a sample. -/
def warnState (warnCode warnCode2 : UInt8) (commError : Bool) : UInt32 :=
  let s := raise warnCode 0x01 .E01 0
  let s := raise warnCode 0x02 .E02 s
  let s := raise warnCode 0x04 .E03 s
  let s := raise warnCode 0x08 .E04 s
  let s := raise warnCode 0x10 .E05 s
  let s := raise warnCode 0x20 .E06 s
  let s := if commError then s ||| FaultWarn.E07.toInt else s
  let s := raise warnCode 0x80 .E08 s
  let s := raise warnCode2 0x01 .E09 s
  let s := raise warnCode2 0x04 .E11 s
  let s := raise warnCode2 0x08 .E12 s
  raise warnCode2 0x80 .E13 s

/-- A look at the warning bytes. -/
structure Sample where
  /-- When the look was taken. -/
  time : ℤ
  /-- The first fault byte. -/
  warnCode : UInt8
  /-- The second fault byte. -/
  warnCode2 : UInt8
  /-- The warning word after it. -/
  warnState : UInt32
  deriving DecidableEq

/-- `onCommDeal` of a packet at the clock reading `nowTick`. -/
def onCommDeal (w : Watch) (nowTick : ℤ) (ack : List UInt8) : Watch × List Sample :=
  if w.mIsFactory then (w, [])
  else
    let code := getData ack 12
    let code2 := getData ack 13
    if code ≠ 0 ∨ code2 ≠ 0 then
      if 30 * 1000 ≤ nowTick - w.mLastWarnTime then
        let r := countCommError code w.commErrorCount
        ({w with mLastWarnTime := nowTick, commErrorCount := r.1},
          [⟨nowTick, code, code2, warnState code code2 r.2⟩])
      else (w, [])
    else (w, [])

/-- A packet with the clock reading at which it is dealt with. -/
abbrev Packet := ℤ × List UInt8

/-- Deal with packets one after the other. -/
def watch (w : Watch) (packets : List Packet) : Watch × List Sample :=
  outputs (fun w x => onCommDeal w x.1 x.2) w packets

/-! ## The bits of a sample -/

/-- What a sample reports. -/
def Reported (warnCode warnCode2 : UInt8) (commError : Bool) : FaultWarn → Prop
  | .E01 => warnCode &&& 0x01 ≠ 0
  | .E02 => warnCode &&& 0x02 ≠ 0
  | .E03 => warnCode &&& 0x04 ≠ 0
  | .E04 => warnCode &&& 0x08 ≠ 0
  | .E05 => warnCode &&& 0x10 ≠ 0
  | .E06 => warnCode &&& 0x20 ≠ 0
  | .E07 => commError = true
  | .E08 => warnCode &&& 0x80 ≠ 0
  | .E09 => warnCode2 &&& 0x01 ≠ 0
  | .E11 => warnCode2 &&& 0x04 ≠ 0
  | .E12 => warnCode2 &&& 0x08 ≠ 0
  | .E13 => warnCode2 &&& 0x80 ≠ 0

/-- A fault is set in a state. -/
def Has (state : UInt32) (e : FaultWarn) : Prop := state &&& e.toInt ≠ 0

instance (state : UInt32) (e : FaultWarn) : Decidable (Has state e) :=
  inferInstanceAs (Decidable (_ ≠ _))

/-- A mask of two joined words. -/
theorem or_and (a b k : UInt32) : (a ||| b) &&& k = (a &&& k) ||| (b &&& k) := by
  apply UInt32.toBitVec_inj.mp
  simp only [UInt32.toBitVec_and, UInt32.toBitVec_or]
  exact BitVec.and_or_distrib_right

/-- Two faults share no bit. -/
theorem toInt_and_toInt (e e' : FaultWarn) :
    e.toInt &&& e'.toInt = if e = e' then e.toInt else 0 := by
  cases e <;> cases e' <;> rfl

/-- No fault is the empty word. -/
theorem toInt_ne_zero (e : FaultWarn) : e.toInt ≠ 0 := by
  cases e <;> decide

/-- The empty word shows no fault. -/
theorem not_has_zero (e : FaultWarn) : ¬Has 0 e := fun h => h UInt32.zero_and

/-- Setting a fault sets this fault only. -/
theorem has_or (s : UInt32) (e e' : FaultWarn) : Has (s ||| e.toInt) e' ↔ Has s e' ∨ e = e' := by
  unfold Has
  rw [or_and, toInt_and_toInt]
  by_cases he : e = e'
  · subst he
    rw [if_pos rfl]
    exact iff_of_true (fun h => toInt_ne_zero e (UInt32.or_eq_zero_iff.mp h).2) (Or.inr rfl)
  · rw [if_neg he, UInt32.or_zero]
    exact ⟨Or.inl, fun h => h.resolve_right he⟩

/-- Raising shows the fault when the mask is hit, and keeps the others. -/
theorem has_raise (code mask : UInt8) (s : UInt32) (e e' : FaultWarn) :
    Has (raise code mask e s) e' ↔ Has s e' ∨ (e = e' ∧ code &&& mask ≠ 0) := by
  unfold raise
  by_cases hc : code &&& mask ≠ 0
  · rw [if_pos hc, has_or]
    simp only [hc, ne_eq, not_false_eq_true, and_true]
  · rw [if_neg hc]
    simp only [hc, and_false, or_false]

/-- Every fault of a sample stands for its bit, communication errors for the
count of samples. -/
theorem has_warnState (warnCode warnCode2 : UInt8) (commError : Bool) (e : FaultWarn) :
    Has (warnState warnCode warnCode2 commError) e ↔ Reported warnCode warnCode2 commError e := by
  have hcomm : ∀ s : UInt32, Has (if commError then s ||| FaultWarn.E07.toInt else s) e ↔
      Has s e ∨ (FaultWarn.E07 = e ∧ commError = true) := by
    intro s
    cases commError with
    | true => simp only [if_true, has_or, and_true]
    | false => simp only [Bool.false_eq_true, if_false, and_false, or_false]
  unfold warnState
  simp only [has_raise, hcomm, not_has_zero, false_or]
  cases e <;> simp [Reported]

/-- The bits of all faults. -/
def faultBits : UInt32 := 0x1dff

/-- A fault is one of them. -/
theorem toInt_and_not_faultBits (e : FaultWarn) : e.toInt &&& ~~~faultBits = 0 := by
  cases e <;> rfl

/-- Raising a fault sets no other bit. -/
theorem raise_and_not_faultBits (code mask : UInt8) (e : FaultWarn) {s : UInt32}
    (h : s &&& ~~~faultBits = 0) : raise code mask e s &&& ~~~faultBits = 0 := by
  unfold raise
  split
  · rw [or_and, h, toInt_and_not_faultBits, UInt32.or_zero]
  · exact h

/-- A sample has no bits but those of faults. -/
theorem warnState_and_not_faultBits (warnCode warnCode2 : UInt8) (commError : Bool) :
    warnState warnCode warnCode2 commError &&& ~~~faultBits = 0 := by
  have hcomm : ∀ s : UInt32, s &&& ~~~faultBits = 0 →
      (if commError then s ||| FaultWarn.E07.toInt else s) &&& ~~~faultBits = 0 := by
    intro s hs
    cases commError with
    | true => rw [if_pos rfl, or_and, hs, toInt_and_not_faultBits, UInt32.or_zero]
    | false => exact hs
  unfold warnState
  iterate 5 refine raise_and_not_faultBits _ _ _ ?_
  refine hcomm _ ?_
  iterate 6 refine raise_and_not_faultBits _ _ _ ?_
  exact UInt32.zero_and

/-! ## Counting samples -/

/-- A sample with communication errors. -/
def Sample.commError (x : Sample) : Bool := decide (x.warnCode &&& 0x40 ≠ 0)

/-- The count goes round after 30 samples with communication errors. -/
theorem countCommError_eq (code : UInt8) (k : ℕ) :
    countCommError code (k % 30) =
      if code &&& 0x40 ≠ 0 then ((k + 1) % 30, decide (30 ∣ k + 1)) else (0, false) := by
  unfold countCommError
  split
  · split
    · rename_i hk
      have hz : (k + 1) % 30 = 0 := by omega
      rw [hz, decide_eq_true (Nat.dvd_of_mod_eq_zero hz)]
    · rename_i hk
      have hne : ¬30 ∣ k + 1 := by omega
      rw [decide_eq_false hne]
      have hs : (k + 1) % 30 = k % 30 + 1 := by omega
      rw [hs]
  · rfl

/-- The state of a sample behind others. -/
def Right (pre : List Sample) (x : Sample) : Prop :=
  x.warnState = warnState x.warnCode x.warnCode2
    (decide (x.commError = true ∧ 30 ∣ trailing Sample.commError (pre ++ [x])))

/-- What the fields say about the samples since `t₀`. -/
structure Sampled (t₀ : ℤ) (w : Watch) (samples : List Sample) : Prop where
  /-- There is no product test. -/
  factory : w.mIsFactory = false
  /-- The last look was taken then. -/
  last : w.mLastWarnTime = lastTime t₀ (samples.map Sample.time)
  /-- The failed looks at the end are counted up to 30. -/
  count : w.commErrorCount = trailing Sample.commError samples % 30
  /-- The looks are at least 30 s apart. -/
  apart : Apart (30 * 1000) t₀ (samples.map Sample.time)
  /-- Each look sets the word as it must. -/
  right : Each Right samples

/-- A packet shows a warning. -/
def Alarming (ack : List UInt8) : Prop := getData ack 12 ≠ 0 ∨ getData ack 13 ≠ 0

instance (ack : List UInt8) : Decidable (Alarming ack) := inferInstanceAs (Decidable (_ ∨ _))

/-- A packet is looked at when it shows a warning and the last look is 30
seconds ago. -/
theorem onCommDeal_eq {w : Watch} (hf : w.mIsFactory = false) (nowTick : ℤ) (ack : List UInt8) :
    onCommDeal w nowTick ack =
      if Alarming ack ∧ 30 * 1000 ≤ nowTick - w.mLastWarnTime then
        let code := getData ack 12
        let code2 := getData ack 13
        let r := countCommError code w.commErrorCount
        ({w with mLastWarnTime := nowTick, commErrorCount := r.1},
          [⟨nowTick, code, code2, warnState code code2 r.2⟩])
      else (w, []) := by
  unfold onCommDeal Alarming
  rw [hf, if_neg Bool.false_ne_true]
  dsimp only
  split
  · rename_i ha
    simp only [ha, true_and]
  · rename_i ha
    simp only [ha, false_and, if_false]

/-- One more packet. -/
theorem Sampled.deal {t₀ : ℤ} {w : Watch} {samples : List Sample} (h : Sampled t₀ w samples)
    (nowTick : ℤ) (ack : List UInt8) :
    Sampled t₀ (onCommDeal w nowTick ack).1 (samples ++ (onCommDeal w nowTick ack).2) := by
  rw [onCommDeal_eq h.factory]
  split
  · rename_i hgo
    have htrail : ∀ x : Sample, x.warnCode = getData ack 12 →
        countCommError (getData ack 12) w.commErrorCount =
          (trailing Sample.commError (samples ++ [x]) % 30,
            decide (x.commError = true ∧ 30 ∣ trailing Sample.commError (samples ++ [x]))) := by
      intro x hx
      rw [h.count, countCommError_eq, trailing_concat, Sample.commError, hx]
      by_cases hc : getData ack 12 &&& 0x40 ≠ 0
      · simp only [hc, ne_eq, not_false_eq_true, if_true, decide_true, true_and]
      · simp only [hc, if_false, decide_false, Bool.false_eq_true, false_and, Nat.zero_mod]
    dsimp only
    refine ⟨h.factory, ?_, ?_, ?_, ?_⟩
    · rw [List.map_append, List.map_singleton, lastTime_concat]
    · exact congrArg Prod.fst (htrail _ rfl)
    · rw [List.map_append, List.map_singleton]
      refine h.apart.concat ?_
      rw [← h.last]
      exact hgo.2
    · refine h.right.concat ?_
      exact congrArg (warnState (getData ack 12) (getData ack 13))
        (congrArg Prod.snd (htrail _ rfl))
  · rw [List.append_nil]
    exact h

/-- A run of packets extends the samples. -/
theorem Sampled.watch {t₀ : ℤ} {w : Watch} {samples : List Sample} (h : Sampled t₀ w samples)
    (packets : List Packet) :
    Sampled t₀ (StatusWatch.watch w packets).1 (samples ++ (StatusWatch.watch w packets).2) :=
  outputs_keeps (fun _ => True) (fun _ _ x _ hs => hs.deal x.1 x.2) h fun _ _ => trivial

/-- Packets without warnings leave everything as it is, the count included. -/
theorem watch_alarming (w : Watch) (packets : List Packet) :
    watch w (packets.filter fun x => decide (Alarming x.2)) = watch w packets := by
  refine outputs_filter fun w x hx => ?_
  have hq : ¬Alarming x.2 := of_decide_eq_false hx
  unfold onCommDeal
  split
  · rfl
  · exact if_neg hq

/-! ## What is reported -/

/-- A sample reports communication errors after 30 in a row. -/
theorem Sampled.has_E07 {t₀ : ℤ} {w : Watch} {pre post : List Sample} {x : Sample}
    (h : Sampled t₀ w (pre ++ x :: post)) :
    Has x.warnState .E07 ↔ x.commError = true ∧ 30 ∣ trailing Sample.commError (pre ++ [x]) := by
  rw [h.right pre x post rfl, has_warnState]
  exact decide_eq_true_iff

/-- A look that fails is counted. -/
theorem trailing_pos {pre : List Sample} {x : Sample} (hx : x.commError = true) :
    0 < trailing Sample.commError (pre ++ [x]) := by
  rw [trailing_concat, if_pos hx]
  exact Nat.succ_pos _

/-- The time of a sample that comes some samples after a start. -/
theorem sample_after {t₀ : ℤ} {mid post : List Sample} {y : Sample}
    (h : Apart (30 * 1000) t₀ ((mid ++ y :: post).map Sample.time)) {n : ℕ}
    (hn : n ≤ mid.length + 1) : 30 * 1000 * n ≤ y.time - t₀ := by
  rw [List.append_cons, List.map_append] at h
  have htotal := (apart_append.mp h).1.total
  rw [List.map_append, List.map_singleton, lastTime_concat, List.length_append, List.length_map,
    List.length_singleton] at htotal
  push_cast at htotal
  omega

/-- Samples are at least 30 seconds apart and show the faults of their bytes
and nothing else; communication errors are shown by every 30th sample in a row
that has them, so at most every 15 minutes, and packets without warnings are
not looked at. -/
theorem warnings_sampled {w : Watch} (hf : w.mIsFactory = false) (hc : w.commErrorCount = 0)
    (packets : List Packet) :
    let samples := (watch w packets).2
    Apart (30 * 1000) w.mLastWarnTime (samples.map Sample.time) ∧
      (∀ pre x post, samples = pre ++ x :: post → ∀ e,
        Has x.warnState e ↔ Reported x.warnCode x.warnCode2
          (decide (x.commError = true ∧ 30 ∣ trailing Sample.commError (pre ++ [x]))) e) ∧
      (∀ x ∈ samples, x.warnState &&& ~~~faultBits = 0) ∧
      (∀ x ∈ samples, Has x.warnState .E07 → 15 * 60 * 1000 ≤ x.time - w.mLastWarnTime) ∧
      (∀ pre x mid y post, samples = pre ++ x :: (mid ++ y :: post) → Has x.warnState .E07 →
        Has y.warnState .E07 → 15 * 60 * 1000 ≤ y.time - x.time) ∧
      watch w (packets.filter fun x => decide (Alarming x.2)) = watch w packets := by
  have hstart : Sampled w.mLastWarnTime w [] := ⟨hf, rfl, hc, apart_nil, each_nil⟩
  have h := hstart.watch packets
  rw [List.nil_append] at h
  refine ⟨h.apart, ?_, ?_, ?_, ?_, watch_alarming w packets⟩
  · intro pre x post hs e
    rw [h.right pre x post hs, has_warnState]
  · intro x hx
    obtain ⟨pre, post, hs⟩ := List.append_of_mem hx
    rw [h.right pre x post hs]
    exact warnState_and_not_faultBits _ _ _
  · intro x hx hE
    obtain ⟨pre, post, hs⟩ := List.append_of_mem hx
    rw [hs] at h
    obtain ⟨hcomm, hdvd⟩ := h.has_E07.mp hE
    have hsteps : 30 ≤ (pre ++ [x]).length :=
      le_length_of_dvd (h := []) (dvd_zero 30) hdvd (trailing_pos hcomm)
        (List.append_ne_nil_of_right_ne_nil _ (List.cons_ne_nil _ _))
    rw [List.length_append, List.length_singleton] at hsteps
    exact sample_after h.apart hsteps
  · intro pre x mid y post hs hx hy
    rw [hs] at h
    obtain ⟨-, hdvd⟩ := h.has_E07.mp hx
    rw [List.append_cons, ← List.append_assoc] at h
    obtain ⟨hcomm, hdvd'⟩ := h.has_E07.mp hy
    rw [List.append_assoc] at hdvd'
    have hsteps := le_length_of_dvd hdvd hdvd' (by
      rw [← List.append_assoc]
      exact trailing_pos hcomm) (List.append_ne_nil_of_right_ne_nil _ (List.cons_ne_nil _ _))
    rw [List.length_append, List.length_singleton] at hsteps
    have hapart := h.apart
    rw [List.append_assoc, List.map_append] at hapart
    have hrest := (apart_append.mp hapart).2
    rw [List.map_append, List.map_singleton, lastTime_concat] at hrest
    exact sample_after hrest hsteps

/-- A warning byte with a communication error, every 30 seconds. -/
def commErrors (n : ℕ) : List Packet :=
  (List.range n).map fun i => (30000 * (i + 1), [0x02, 0x10, 0, 0, 0, 0, 0, 0, 0, 0, 0, 0, 0x40])

/-- Thirty looks without an answer raise the fault, and the pause is kept. -/
theorem warnings_sampled_commErrors :
    Has ((watch ⟨false, 0, 0⟩ (commErrors 30)).2.getLast?.elim 0 Sample.warnState) .E07 ∧
      ∀ pre x mid y post, (watch ⟨false, 0, 0⟩ (commErrors 60)).2 = pre ++ x :: (mid ++ y :: post) →
        Has x.warnState .E07 → Has y.warnState .E07 → 15 * 60 * 1000 ≤ y.time - x.time := by
  refine ⟨by decide +kernel, ?_⟩
  exact (warnings_sampled rfl rfl (commErrors 60)).2.2.2.2.1

end CdroidDemo.StatusWatch
