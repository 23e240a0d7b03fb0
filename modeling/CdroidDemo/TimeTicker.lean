import CdroidDemo.StepRuns
import Mathlib.Algebra.Order.Group.Int

/-!
# The ticker of the clock

`TimeTextView` blinks the colon between hours and minutes. While it is started
one message is on its way that toggles the colon and posts itself again. Starts
come from the page and, some time after a measuring, from the view itself.
-/

namespace CdroidDemo.TimeTicker

/-! ## The code -/

/-- What the view posts to itself. -/
inductive Message
  /-- `mTicker`. -/
  | ticker
  /-- The call of `start` that `onMeasure` posts. -/
  | start
  deriving DecidableEq

/-- The fields of `TimeTextView` that the ticker works on, and its messages with
their due times. -/
structure TimeTextView where
  /-- The clock starts by itself. -/
  mAutoStart : Bool
  /-- The text is to be updated. -/
  mIsUpdate : Bool
  /-- The colon is shown. -/
  mIsDot : Bool
  /-- The clock runs. -/
  mIsStart : Bool
  /-- The time between two ticks. -/
  mTickerTime : ℤ
  /-- The messages that are pending, with their due times. -/
  messages : List (ℤ × Message)

/-- What is seen of the view. -/
inductive Event
  /-- `start` has begun the clock. -/
  | started (time : ℤ)
  /-- `onTicker`, with the colon afterwards. -/
  | ticked (time : ℤ) (mIsDot : Bool)
  /-- `stop` has ended the clock. -/
  | stopped

/-- `initViewData` with the two attributes. -/
def create (autoStart : Bool) (tickerTime : ℤ) : TimeTextView where
  mAutoStart := autoStart
  mIsUpdate := true
  mIsDot := true
  mIsStart := false
  mTickerTime := tickerTime
  messages := []

/-- `View::postDelayed` at a clock reading. As the framework documents it, the
message is handed over once, in any order with others, and not before its delay
has passed. -/
def postDelayed (s : TimeTextView) (now : ℤ) (what : Message) (delay : ℤ) : TimeTextView :=
  {s with messages := s.messages ++ [(now + delay, what)]}

/-- `View::removeCallbacks`. As the framework documents it, messages of the kind
that have not been handed over yet are dropped, and no others. -/
def removeCallbacks (s : TimeTextView) (what : Message) : TimeTextView :=
  {s with messages := s.messages.filter fun m => m.2 ≠ what}

/-- `start`. -/
def start (s : TimeTextView) (now : ℤ) : TimeTextView × List Event :=
  if s.mIsStart then (s, [])
  else
    let s := {s with mIsStart := true, mIsDot := false, mIsUpdate := true}
    (postDelayed s now .ticker s.mTickerTime, [.started now])

/-- `stop`. -/
def stop (s : TimeTextView) : TimeTextView × List Event :=
  if !s.mIsStart then (s, [])
  else
    let s := {s with mIsStart := false, mIsDot := true, mIsUpdate := false}
    (removeCallbacks s .ticker, [.stopped])

/-- `onTicker`. -/
def onTicker (s : TimeTextView) (now : ℤ) : TimeTextView × List Event :=
  let s := postDelayed s now .ticker s.mTickerTime
  let s := {s with mIsDot := !s.mIsDot}
  (s, [.ticked now s.mIsDot])

/-- The end of `onMeasure`. -/
def onMeasure (s : TimeTextView) (now : ℤ) : TimeTextView :=
  if s.mAutoStart && !s.mIsStart then postDelayed s now .start 10 else s

/-- `setIsUpdate`. -/
def setIsUpdate (s : TimeTextView) (flag : Bool) : TimeTextView := {s with mIsUpdate := flag}

/-- What happens to the view. -/
inductive Op
  /-- The clock is started. -/
  | start (now : ℤ)
  /-- It is stopped. -/
  | stop
  /-- The update is switched. -/
  | setIsUpdate (flag : Bool)
  /-- The view is measured. -/
  | onMeasure (now : ℤ)
  /-- A pending message arrives. -/
  | message (index : ℕ) (now : ℤ)

/-- A message is handled. -/
def handle (s : TimeTextView) (now : ℤ) : Message → TimeTextView × List Event
  | .ticker => onTicker s now
  | .start => start s now

/-- The message at an index is taken out and handled, if it is due. -/
def handleMessage (s : TimeTextView) (index : ℕ) (now : ℤ) : TimeTextView × List Event :=
  match s.messages[index]? with
  | none => (s, [])
  | some m =>
    if now < m.1 then (s, [])
    else handle {s with messages := s.messages.eraseIdx index} now m.2

/-- One step. -/
def step (s : TimeTextView) : Op → TimeTextView × List Event
  | .start now => start s now
  | .stop => stop s
  | .setIsUpdate flag => (setIsUpdate s flag, [])
  | .onMeasure now => (onMeasure s now, [])
  | .message index now => handleMessage s index now

/-! ## Regular ticks -/

/-- The clock as it is seen: stopped, or the time of its last beat with the
colon. It is started and stopped in turn, and beats only while it is started, at
least `d` after the beat before. Each beat toggles the colon. -/
def beat (d : ℤ) : Option (ℤ × Bool) → Event → Option (Option (ℤ × Bool))
  | none, .started time => some (some (time, false))
  | some (last, dot), .ticked time mIsDot =>
    if d ≤ time - last ∧ mIsDot = !dot then some (some (time, mIsDot)) else none
  | some _, .stopped => some none
  | _, _ => none

/-- The messages of the ticker. -/
def tickers (s : TimeTextView) : List (ℤ × Message) := s.messages.filter fun m => m.2 = .ticker

/-- A view whose clock looks like this has one ticker on its way, or none. -/
def Looks (d : ℤ) (s : TimeTextView) : Option (ℤ × Bool) → Prop
  | none => s.mTickerTime = d ∧ s.mIsStart = false ∧ s.mIsDot = true ∧ tickers s = []
  | some (last, dot) =>
    s.mTickerTime = d ∧ s.mIsStart = true ∧ s.mIsDot = dot ∧ tickers s = [(last + d, .ticker)]

variable {d : ℤ} {s : TimeTextView} {b : Option (ℤ × Bool)}

/-- A posted tick is pending at its time. -/
theorem tickers_post_ticker (s : TimeTextView) (now delay : ℤ) :
    tickers (postDelayed s now .ticker delay) = tickers s ++ [(now + delay, .ticker)] := by
  unfold tickers postDelayed
  rw [List.filter_append]
  rfl

/-- A posted start is no tick. -/
theorem tickers_post_start (s : TimeTextView) (now delay : ℤ) :
    tickers (postDelayed s now .start delay) = tickers s := by
  unfold tickers postDelayed
  rw [List.filter_append]
  exact List.append_nil _

/-- The messages around the one that is handled. -/
theorem tickers_split {index : ℕ} {due : ℤ} {what : Message}
    (h : s.messages[index]? = some (due, what)) :
    ∃ l r, tickers s = l ++ (if what = .ticker then [(due, what)] else []) ++ r ∧
      tickers {s with messages := s.messages.eraseIdx index} = l ++ r := by
  obtain ⟨hlt, hget⟩ := List.getElem?_eq_some_iff.mp h
  have hsplit : s.messages = s.messages.take index ++ (due, what) ::
      s.messages.drop (index + 1) := by
    rw [← hget, ← List.drop_eq_getElem_cons hlt, List.take_append_drop]
  refine ⟨(s.messages.take index).filter fun m => m.2 = .ticker,
    (s.messages.drop (index + 1)).filter fun m => m.2 = .ticker, ?_, ?_⟩
  · unfold tickers
    conv_lhs => rw [hsplit]
    rw [List.filter_append, List.filter_cons, List.append_assoc]
    cases what <;> rfl
  · unfold tickers
    rw [List.eraseIdx_eq_take_drop_succ, List.filter_append]

/-- Starting a stopped clock. -/
theorem start_looks (h : Looks d s b) (now : ℤ) :
    ∃ b', StepRuns.run (beat d) b (start s now).2 = some b' ∧ Looks d (start s now).1 b' := by
  unfold start
  cases b with
  | none =>
    obtain ⟨hd, hs, hdot, ht⟩ := h
    rw [hs, if_neg Bool.false_ne_true]
    refine ⟨some (now, false), rfl, hd, rfl, rfl, ?_⟩
    rw [tickers_post_ticker]
    change tickers s ++ _ = _
    rw [ht, hd]
    rfl
  | some last =>
    rw [if_pos h.2.1]
    exact ⟨some last, rfl, h⟩

/-- A stop keeps the look of the clock. -/
theorem stop_looks (h : Looks d s b) :
    ∃ b', StepRuns.run (beat d) b (stop s).2 = some b' ∧ Looks d (stop s).1 b' := by
  unfold stop
  cases b with
  | none =>
    rw [h.2.1, Bool.not_false, if_pos rfl]
    exact ⟨none, rfl, h⟩
  | some last =>
    rw [h.2.1, Bool.not_true, if_neg Bool.false_ne_true]
    refine ⟨none, rfl, h.1, rfl, rfl, ?_⟩
    unfold tickers removeCallbacks
    rw [List.filter_filter]
    refine List.filter_eq_nil_iff.mpr fun m _ => ?_
    simp

/-- The ticker of a started clock beats and posts itself again. -/
theorem onTicker_looks {last now : ℤ} {dot : Bool} (hd : s.mTickerTime = d)
    (hs : s.mIsStart = true) (hdot : s.mIsDot = dot) (ht : tickers s = [])
    (hlate : d ≤ now - last) :
    ∃ b', StepRuns.run (beat d) (some (last, dot)) (onTicker s now).2 = some b' ∧
      Looks d (onTicker s now).1 b' := by
  have hbeat : beat d (some (last, dot)) (.ticked now (!s.mIsDot)) =
      some (some (now, !s.mIsDot)) := if_pos ⟨hlate, by rw [hdot]⟩
  refine ⟨some (now, !s.mIsDot), ?_, hd, hs, rfl, ?_⟩
  · exact StepRuns.run_cons hbeat
  · change tickers (postDelayed s now .ticker s.mTickerTime) = _
    rw [tickers_post_ticker, ht, hd]
    rfl

/-- A message keeps the look of the clock. -/
theorem message_looks (h : Looks d s b) (index : ℕ) (now : ℤ) :
    ∃ b', StepRuns.run (beat d) b (handleMessage s index now).2 = some b' ∧
      Looks d (handleMessage s index now).1 b' := by
  unfold handleMessage
  cases hm : s.messages[index]? with
  | none => exact ⟨b, rfl, h⟩
  | some m =>
    obtain ⟨due, what⟩ := m
    dsimp only
    by_cases hearly : now < due
    · rw [if_pos hearly]
      exact ⟨b, rfl, h⟩
    · rw [if_neg hearly]
      obtain ⟨l, r, hall, hrest⟩ := tickers_split hm
      cases what with
      | start =>
        rw [if_neg Message.noConfusion, List.append_nil] at hall
        refine start_looks ?_ now
        cases b with
        | none => exact ⟨h.1, h.2.1, h.2.2.1, hrest.trans (hall.symm.trans h.2.2.2)⟩
        | some last => exact ⟨h.1, h.2.1, h.2.2.1, hrest.trans (hall.symm.trans h.2.2.2)⟩
      | ticker =>
        rw [if_pos rfl, List.append_assoc, List.singleton_append] at hall
        cases b with
        | none =>
          rw [h.2.2.2] at hall
          exact absurd hall.symm (by simp)
        | some last =>
          obtain ⟨hd, hs, hdot, ht⟩ := h
          rw [ht] at hall
          cases l with
          | cons y l =>
            have hlen := congrArg List.length hall
            rw [List.length_singleton, List.cons_append, List.length_cons, List.length_append,
              List.length_cons] at hlen
            omega
          | nil =>
            obtain ⟨hone, hnil⟩ := List.cons.inj hall
            obtain ⟨hdue, -⟩ := Prod.mk.inj hone
            rw [← hnil] at hrest
            exact onTicker_looks hd hs hdot hrest (by omega)

/-- Every step keeps the look of the clock. -/
theorem step_looks (h : Looks d s b) (op : Op) :
    ∃ b', StepRuns.run (beat d) b (step s op).2 = some b' ∧ Looks d (step s op).1 b' := by
  cases op with
  | start now => exact start_looks h now
  | stop => exact stop_looks h
  | setIsUpdate flag =>
    refine ⟨b, rfl, ?_⟩
    cases b with
    | none => exact h
    | some last => exact h
  | onMeasure now =>
    refine ⟨b, rfl, ?_⟩
    change Looks d (onMeasure s now) b
    unfold onMeasure
    split
    · cases b with
      | none => exact ⟨h.1, h.2.1, h.2.2.1, (tickers_post_start s now 10).trans h.2.2.2⟩
      | some last => exact ⟨h.1, h.2.1, h.2.2.1, (tickers_post_start s now 10).trans h.2.2.2⟩
    · exact h
  | message index now => exact message_looks h index now

/-- Whatever starts, stops and measures the view and whenever its messages are
handled, its clock beats regularly: starts and stops take turns, there are ticks
only in between, at least the ticker time apart, and each toggles the colon,
which is off behind a start and on behind a stop. The next tick is on its way
exactly once while the clock is started, for the ticker time behind the last
beat, and not at all while it is stopped. -/
theorem ticks_regular (autoStart : Bool) (tickerTime : ℤ) (ops : List Op) :
    ∃ b, StepRuns.run (beat tickerTime) none
        (StepRuns.outputs step (create autoStart tickerTime) ops).2 = some b ∧
      Looks tickerTime (StepRuns.outputs step (create autoStart tickerTime) ops).1 b := by
  have hkeeps : ∀ s es op, True →
      (∃ b, StepRuns.run (beat tickerTime) none es = some b ∧ Looks tickerTime s b) →
      ∃ b, StepRuns.run (beat tickerTime) none (es ++ (step s op).2) = some b ∧
        Looks tickerTime (step s op).1 b := by
    rintro s es op - ⟨b, hb, hlooks⟩
    obtain ⟨b', hb', hlooks'⟩ := step_looks hlooks op
    refine ⟨b', ?_, hlooks'⟩
    rw [StepRuns.run_append, hb]
    exact hb'
  have hinit : ∃ b, StepRuns.run (beat tickerTime) none [] = some b ∧
      Looks tickerTime (create autoStart tickerTime) b := ⟨none, rfl, rfl, rfl, rfl, rfl⟩
  exact StepRuns.outputs_keeps (fun _ => True) hkeeps hinit fun _ _ => trivial

/-- The view starts itself after a measuring, is stopped behind one tick, and
starts once more, since it has been measured while it was stopped. -/
example : (StepRuns.outputs step (create true 1000) [.onMeasure 0, .message 0 12,
    .message 0 1015, .stop, .onMeasure 1500, .message 0 1510]).2.length = 4 := by decide

end CdroidDemo.TimeTicker
