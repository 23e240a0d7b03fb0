import CdroidDemo.PacketBuffer

/-!
# The receiving side of the serial client

`UartClient::onUartData` feeds the bytes of one read into the current
receive buffer, checks each completed packet, suppresses repeats and hands
the others on. The two receive buffers are distinct objects and appear here
by value. Every run of reads is a run of the framed receiver, no access
leaves a payload and every call ends.
-/

namespace CdroidDemo.UartReceiver

open HeaderResync FramedReceiver PacketMemory BuffData PacketBuffer McuPackets TuyaPackets

/-- What became of a completed packet; `content` is the whole receive buffer. -/
inductive RecvEvent
  /-- The check failed. -/
  | checkFail (content : List UInt8)
  /-- Handed to the callback, or to the command handlers; `repeatAt` is the
  clock reading at which a repeat was let through. -/
  | dispatched (content : List UInt8) (toCallback : Bool) (repeatAt : Option ℤ)
  /-- A repeat that was dropped at the given clock reading. -/
  | suppressed (content : List UInt8) (now : ℤ)
  deriving DecidableEq

/-- The fields of `UartClient` that receiving works on. -/
structure Receiver where
  /-- `mCurrRecv`: the packet being received. -/
  mCurrRecv : BuffData
  /-- `mLastRecv`: the packet dispatched last. -/
  mLastRecv : BuffData
  /-- `mRecvCount`: completed packets. -/
  mRecvCount : ℕ
  /-- `mChkErrCount`: consecutive check failures. -/
  mChkErrCount : ℕ
  /-- `mLastDealDataTime`: when a repeat was last let through. -/
  mLastDealDataTime : ℤ
  /-- `mLastSendTime`: reset when a packet is dispatched. -/
  mLastSendTime : ℤ
  /-- `mCallbackFunc`: whether the product callback is set. -/
  mCallbackFunc : Bool

/-- `checkDealData` at the clock reading `now`. -/
def checkDealData (s : Receiver) (now : ℤ) : Receiver × Bool :=
  if 1000 ≤ now - s.mLastDealDataTime then ({s with mLastDealDataTime := now}, true)
  else (s, false)

/-- Hand the packet on and save it as the last one. -/
def dispatch (s : Receiver) (repeatAt : Option ℤ) : Option (Receiver × RecvEvent) := do
  let src ← s.mCurrRecv.first s.mCurrRecv.len
  let last ← (s.mLastRecv.setLen s.mCurrRecv.len).memcpy 0 src
  return ({s with mLastRecv := last, mLastSendTime := 0},
    .dispatched s.mCurrRecv.content s.mCallbackFunc repeatAt)

/-- The part of the receive loop behind a completed packet. The clock is read
only for a repeat, at most once for each packet. -/
def dealPacket (mType : BufferType) (clock : ℕ → ℤ) (s : Receiver) :
    Option (Receiver × RecvEvent) := do
  let now := clock s.mRecvCount
  let s := {s with mRecvCount := s.mRecvCount + 1}
  if ← check mType s.mCurrRecv then
    let s := {s with mChkErrCount := 0}
    if !(← compare mType s.mCurrRecv s.mLastRecv) then dispatch s none
    else
      let (s, through) := checkDealData s now
      if through then dispatch s (some now)
      else return (s, .suppressed s.mCurrRecv.content now)
  else return ({s with mChkErrCount := s.mChkErrCount + 1}, .checkFail s.mCurrRecv.content)

/-- The loop of `onUartData`. The first argument bounds the number of turns;
the result is the state, the final `offset` and what became of the packets. -/
def onUartDataLoop (mType : BufferType) (clock : ℕ → ℤ) :
    ℕ → Receiver → List UInt8 → ℕ → Option (Receiver × ℕ × List RecvEvent)
  | 0, _, _, _ => none
  | fuel + 1, s, buf, offset =>
    if offset < buf.length then do
      let (curr, n) ← add mType s.mCurrRecv (buf.drop offset)
      let s := {s with mCurrRecv := curr}
      let offset := offset + n
      if ← complete mType s.mCurrRecv then
        let (s, e) ← dealPacket mType clock s
        let s := {s with mCurrRecv := s.mCurrRecv.setLen 0}
        let (s, offset, es) ← onUartDataLoop mType clock fuel s buf offset
        return (s, offset, e :: es)
      else return (s, offset, [])
    else some (s, offset, [])

/-- `UartClient::onUartData`; `clock n` is the clock reading for packet `n`. -/
def onUartData (mType : BufferType) (clock : ℕ → ℤ) (s : Receiver) (buf : List UInt8) :
    Option (Receiver × ℕ × List RecvEvent) :=
  onUartDataLoop mType clock (buf.length + 1) s buf 0

/-- `UartClient::onRecvData`: the unread bytes of the socket buffer are handed
over and the socket buffer is emptied. Returns the packet count. -/
def onRecvData (mType : BufferType) (clock : ℕ → ℤ) (s : Receiver) (unread : List UInt8) :
    Option (Receiver × List UInt8 × ℕ) := do
  let (s', _, _) ← onUartData mType clock s unread
  return (s', [], s'.mRecvCount - s.mRecvCount)

/-- A run of reads, one `onUartData` call for each chunk. -/
def receive (mType : BufferType) (clock : ℕ → ℤ) (s : Receiver) :
    List (List UInt8) → Option (Receiver × List RecvEvent)
  | [] => some (s, [])
  | x :: xs => do
    let (s, _, es) ← onUartData mType clock s x
    let (s, es') ← receive mType clock s xs
    return (s, es ++ es')

/-! ## Frames of a run -/

namespace RecvEvent

/-- The buffer content of the packet. -/
def content : RecvEvent → List UInt8
  | checkFail c => c
  | dispatched c _ _ => c
  | suppressed c _ => c

/-- Both `complete` and `check` succeeded. -/
def isValid : RecvEvent → Bool
  | checkFail _ => false
  | dispatched _ _ _ => true
  | suppressed _ _ => true

/-- The packet was handed on. -/
def isDispatched : RecvEvent → Bool
  | dispatched _ _ _ => true
  | _ => false

end RecvEvent

/-- Length of the frame in front of a completed buffer content. -/
def frameSize : BufferType → List UInt8 → ℕ
  | .mcu, _ => 16
  | .tuyaMcu, c => declaredLen c + 7
  | _, _ => 0

/-- The completed packet of an event. -/
def packet (t : BufferType) (e : RecvEvent) : Packet UInt8 := ⟨e.content, frameSize t e.content⟩

/-- The frames for which `complete` and then `check` succeeded, in order. -/
def validFrames (t : BufferType) (es : List RecvEvent) : List (List UInt8) :=
  (es.filter RecvEvent.isValid).map fun e => (packet t e).frame

/-- The length of the framing is the size the code computes. -/
theorem frameSize_eq {t : BufferType} {F : Framing UInt8} (hF : framing t = some F)
    {c : List UInt8} {n : ℕ} (hn : F.frameLen c = some n) : n = frameSize t c := by
  cases t with
  | null => cases hF
  | factory => cases hF
  | mcu => cases hF; exact (MCU2UI.frameLen_iff.mp hn).1
  | tuyaMcu => cases hF; exact (TUYA2UI.frameLen_iff.mp hn).1

/-! ## One completed packet -/

/-- The receiver between two calls: both buffers come from the pool of the
type, and the current one is aligned and holds no completed packet. -/
structure Receiver.Ok (t : BufferType) (F : Framing UInt8) (s : Receiver) : Prop where
  /-- The current buffer has the size of its kind. -/
  curr : Sized t s.mCurrRecv
  /-- So has the last one. -/
  last : Sized t s.mLastRecv
  /-- The content begins like a header. -/
  aligned : Aligned F s.mCurrRecv.content
  /-- It is no whole packet yet. -/
  incomplete : F.frameLen s.mCurrRecv.content = none

/-- The packet just received repeats the last dispatched one. -/
def Repeats (t : BufferType) (s : Receiver) : Prop :=
  t = .mcu ∧ s.mCurrRecv.len = s.mLastRecv.len ∧
    s.mCurrRecv.content = s.mLastRecv.content ∧ KeysZero s.mCurrRecv.buf

/-- The last packet is the current one. -/
def SavedLast (t : BufferType) (s : Receiver) (last : BuffData) : Prop :=
  Sized t last ∧ last.len = s.mCurrRecv.len ∧ last.content = s.mCurrRecv.content

/-- All that can become of a completed packet with frame length `n`. -/
inductive Dealt (t : BufferType) (now : ℤ) (n : ℕ) (s : Receiver) : Receiver → RecvEvent → Prop
  /-- The check code fails, and the error is counted. -/
  | failed (hv : verified (s.mCurrRecv.content.take n) = false) :
      Dealt t now n s
        {s with mRecvCount := s.mRecvCount + 1, mChkErrCount := s.mChkErrCount + 1}
        (.checkFail s.mCurrRecv.content)
  /-- A new frame is dispatched. -/
  | fresh {last : BuffData} (hv : verified (s.mCurrRecv.content.take n) = true)
      (hr : ¬Repeats t s) (hl : SavedLast t s last) :
      Dealt t now n s
        {s with mRecvCount := s.mRecvCount + 1, mChkErrCount := 0, mLastRecv := last,
                mLastSendTime := 0}
        (.dispatched s.mCurrRecv.content s.mCallbackFunc none)
  /-- A repeat is dispatched after a second. -/
  | through {last : BuffData} (hv : verified (s.mCurrRecv.content.take n) = true)
      (hr : Repeats t s) (ht : 1000 ≤ now - s.mLastDealDataTime) (hl : SavedLast t s last) :
      Dealt t now n s
        {s with mRecvCount := s.mRecvCount + 1, mChkErrCount := 0, mLastRecv := last,
                mLastSendTime := 0, mLastDealDataTime := now}
        (.dispatched s.mCurrRecv.content s.mCallbackFunc (some now))
  /-- A repeat within a second is not. -/
  | suppressed (hv : verified (s.mCurrRecv.content.take n) = true)
      (hr : Repeats t s) (ht : now - s.mLastDealDataTime < 1000) :
      Dealt t now n s
        {s with mRecvCount := s.mRecvCount + 1, mChkErrCount := 0}
        (.suppressed s.mCurrRecv.content now)

/-- Saving the packet stays inside both payloads. -/
theorem dispatch_eq {t : BufferType} {s : Receiver} (hc : Sized t s.mCurrRecv)
    (hl : Sized t s.mLastRecv) (repeatAt : Option ℤ) :
    ∃ last, SavedLast t s last ∧
      dispatch s repeatAt = some ({s with mLastRecv := last, mLastSendTime := 0},
        .dispatched s.mCurrRecv.content s.mCallbackFunc repeatAt) := by
  have hfit : s.mCurrRecv.len ≤ s.mCurrRecv.slen := hc.fits
  have hsize : s.mLastRecv.slen = s.mCurrRecv.slen := hl.slen.trans hc.slen.symm
  have hlen := content_length hc.fits
  obtain ⟨last, hcopy, ht, hs, hn, hbuf⟩ := memcpy_front
    (s.mLastRecv.setLen s.mCurrRecv.len) s.mCurrRecv.content (by
      rw [setLen_slen, hlen, hsize]
      exact hfit)
  refine ⟨last, ⟨⟨ht.trans hl.type, hs.trans hl.slen, ?_⟩, hn, ?_⟩, ?_⟩
  · show last.len ≤ last.slen
    rw [hn, hs, setLen_len, setLen_slen, hsize]
    exact hfit
  · rw [content, hn, setLen_len, ← hlen, hbuf]
  · rw [dispatch, first_eq_some hfit]
    change (do
      let last ← (s.mLastRecv.setLen s.mCurrRecv.len).memcpy 0 s.mCurrRecv.content
      return ({s with mLastRecv := last, mLastSendTime := 0},
        RecvEvent.dispatched s.mCurrRecv.content s.mCallbackFunc repeatAt)) = _
    rw [hcopy]
    rfl

/-- `compare` says whether the frame repeats the last one. -/
theorem compare_eq {t : BufferType} {F : Framing UInt8} (hF : framing t = some F) {s : Receiver}
    (hc : Sized t s.mCurrRecv) (hl : Sized t s.mLastRecv) :
    ∃ r : Bool, compare t s.mCurrRecv s.mLastRecv = some r ∧ (r = true ↔ Repeats t s) := by
  cases t with
  | null => cases hF
  | factory => cases hF
  | mcu =>
    refine ⟨_, compare_mcu hc hl, ?_⟩
    rw [decide_eq_true_iff, Repeats]
    exact ⟨fun h => ⟨rfl, h⟩, fun h => h.2⟩
  | tuyaMcu => exact ⟨false, rfl, by simp [Repeats]⟩

/-- Dealing with a completed packet always succeeds, in one of four ways. -/
theorem dealPacket_dealt {t : BufferType} {F : Framing UInt8} (hF : framing t = some F)
    {s : Receiver} (hc : Sized t s.mCurrRecv) (hl : Sized t s.mLastRecv) {n : ℕ}
    (hn : F.frameLen s.mCurrRecv.content = some n) (clock : ℕ → ℤ) :
    ∃ s' e, dealPacket t clock s = some (s', e) ∧ Dealt t (clock s.mRecvCount) n s s' e := by
  obtain ⟨r, hcmp, hr⟩ := compare_eq hF hc hl
  have hcheck := check_eq hF hc hn
  rw [dealPacket]
  simp only [hcheck, Option.bind_eq_bind, Option.bind_some]
  cases hv : verified (s.mCurrRecv.content.take n) with
  | false => exact ⟨_, _, rfl, Dealt.failed hv⟩
  | true =>
    simp only [if_true, hcmp, Option.bind_some]
    cases r with
    | false =>
      obtain ⟨last, hsave, hd⟩ := dispatch_eq
        (s := {s with mRecvCount := s.mRecvCount + 1, mChkErrCount := 0}) hc hl none
      exact ⟨_, _, hd, Dealt.fresh hv (fun h => Bool.false_ne_true (hr.mpr h)) hsave⟩
    | true =>
      have hrep := hr.mp rfl
      by_cases ht : 1000 ≤ clock s.mRecvCount - s.mLastDealDataTime
      · obtain ⟨last, hsave, hd⟩ := dispatch_eq
          (s := {s with mRecvCount := s.mRecvCount + 1, mChkErrCount := 0,
                        mLastDealDataTime := clock s.mRecvCount}) hc hl
          (some (clock s.mRecvCount))
        simp only [checkDealData, if_pos ht]
        exact ⟨_, _, hd, Dealt.through hv hrep ht hsave⟩
      · simp only [checkDealData, if_neg ht]
        exact ⟨_, _, rfl, Dealt.suppressed hv hrep (by omega)⟩

/-- Dealing with a frame keeps the current buffer. -/
theorem Dealt.curr {t : BufferType} {now : ℤ} {n : ℕ} {s s' : Receiver} {e : RecvEvent}
    (h : Dealt t now n s s' e) : s'.mCurrRecv = s.mCurrRecv := by
  cases h <;> rfl

/-- Dealing with a frame keeps the size of the last buffer. -/
theorem Dealt.last {t : BufferType} {now : ℤ} {n : ℕ} {s s' : Receiver} {e : RecvEvent}
    (h : Dealt t now n s s' e) (hl : Sized t s.mLastRecv) : Sized t s'.mLastRecv := by
  cases h with
  | failed => exact hl
  | fresh _ _ hsave => exact hsave.1
  | through _ _ _ hsave => exact hsave.1
  | suppressed => exact hl

/-- Every frame dealt with is counted. -/
theorem Dealt.count {t : BufferType} {now : ℤ} {n : ℕ} {s s' : Receiver} {e : RecvEvent}
    (h : Dealt t now n s s' e) : s'.mRecvCount = s.mRecvCount + 1 := by
  cases h <;> rfl

/-- The event of a frame shows the current buffer. -/
theorem Dealt.content {t : BufferType} {now : ℤ} {n : ℕ} {s s' : Receiver} {e : RecvEvent}
    (h : Dealt t now n s s' e) : e.content = s.mCurrRecv.content := by
  cases h <;> rfl

/-- An event is valid when the frame of its packet verifies. -/
theorem Dealt.valid {t : BufferType} {now : ℤ} {n : ℕ} {s s' : Receiver} {e : RecvEvent}
    (h : Dealt t now n s s' e) : e.isValid = verified (s.mCurrRecv.content.take n) := by
  cases h with
  | failed hv => exact hv.symm
  | fresh hv _ _ => exact hv.symm
  | through hv _ _ _ => exact hv.symm
  | suppressed hv _ _ => exact hv.symm

/-- The packets of a run, dealt with one after the other; between them only
the current buffer changes. -/
inductive Deals (t : BufferType) (F : Framing UInt8) (clock : ℕ → ℤ) :
    Receiver → List RecvEvent → Receiver → Prop
  /-- Nothing was completed. -/
  | nil (s : Receiver) : Deals t F clock s [] s
  /-- The current buffer is filled. -/
  | fill {s s' : Receiver} {es : List RecvEvent} (b : BuffData)
      (h : Deals t F clock {s with mCurrRecv := b} es s') : Deals t F clock s es s'
  /-- A completed packet is dealt with. -/
  | deal {s s₁ s' : Receiver} {e : RecvEvent} {es : List RecvEvent} {n : ℕ}
      (hc : Sized t s.mCurrRecv) (hn : F.frameLen s.mCurrRecv.content = some n)
      (hd : Dealt t (clock s.mRecvCount) n s s₁ e) (h : Deals t F clock s₁ es s') :
      Deals t F clock s (e :: es) s'

/-- Two stretches of frames are dealt with one after the other. -/
theorem Deals.append {t : BufferType} {F : Framing UInt8} {clock : ℕ → ℤ} {s s₁ s₂ : Receiver}
    {es gs : List RecvEvent} (h : Deals t F clock s es s₁) (h' : Deals t F clock s₁ gs s₂) :
    Deals t F clock s (es ++ gs) s₂ := by
  induction h with
  | nil s => exact h'
  | fill b _ ih => exact Deals.fill b (ih h')
  | deal hc hn hd _ ih => exact Deals.deal hc hn hd (ih h')

/-- Every packet is counted. -/
theorem Deals.count {t : BufferType} {F : Framing UInt8} {clock : ℕ → ℤ} {s s' : Receiver}
    {es : List RecvEvent} (h : Deals t F clock s es s') :
    s'.mRecvCount = s.mRecvCount + es.length := by
  induction h with
  | nil s => rfl
  | fill b _ ih => exact ih
  | deal _ _ hd _ ih =>
    rw [ih, hd.count, List.length_cons]
    omega

/-- An event is valid exactly when its frame verifies. -/
theorem Deals.valid {t : BufferType} {F : Framing UInt8} (hF : framing t = some F)
    {clock : ℕ → ℤ} {s s' : Receiver} {es : List RecvEvent} (h : Deals t F clock s es s') :
    ∀ e ∈ es, e.isValid = verified (packet t e).frame := by
  induction h with
  | nil s => simp
  | fill b _ ih => exact ih
  | deal _ hn hd _ ih =>
    intro e he
    rcases List.mem_cons.mp he with rfl | he
    · rw [hd.valid, Packet.frame, packet, hd.content, frameSize_eq hF hn]
    · exact ih e he

/-- Receiving changes neither the callback nor, unless it dispatches a packet,
the time of the last transmission. -/
theorem Deals.undispatched {t : BufferType} {F : Framing UInt8} {clock : ℕ → ℤ}
    {s s' : Receiver} {es : List RecvEvent} (h : Deals t F clock s es s')
    (he : ∀ e ∈ es, e.isDispatched = false) : s'.mLastSendTime = s.mLastSendTime := by
  induction h with
  | nil s => rfl
  | fill b _ ih => exact ih he
  | deal _ _ hd _ ih =>
    have hhead := he _ List.mem_cons_self
    rw [ih fun e h' => he e (List.mem_cons_of_mem _ h')]
    cases hd with
    | failed => rfl
    | fresh => cases hhead
    | through => cases hhead
    | suppressed => rfl

/-! ## One call -/

/-- A fill that completes a packet of an incomplete buffer has read a byte. -/
theorem rest_lt {F : Framing UInt8} {c x c' rest : List UInt8} {n : ℕ} (hc : c.length ≤ F.cap)
    (hi : F.frameLen c = none) (hx : x ≠ []) (hs : Synced F (c ++ x) c' rest) (hr : rest <:+ x)
    (hn : F.frameLen c' = some n) : rest.length < x.length := by
  by_contra hle
  obtain rfl : rest = x := hr.eq_of_length_le (by omega)
  obtain ⟨pre, hp⟩ := hs.split
  have hpre : c = pre ++ c' := List.append_cancel_right hp
  have hfull := (hs.full_of_rest hx).1
  have hnil : pre = [] := by
    rw [hpre, List.length_append] at hc
    exact List.length_eq_zero_iff.mp (by omega)
  rw [hpre, hnil, List.nil_append, hn] at hi
  cases hi

/-- A fill of a buffer with room reads a byte. -/
theorem rest_lt_of_room {F : Framing UInt8} {c x c' rest : List UInt8} (hc : c.length < F.cap)
    (hx : x ≠ []) (hs : Synced F (c ++ x) c' rest) (hr : rest <:+ x) :
    rest.length < x.length := by
  by_contra hle
  obtain rfl : rest = x := hr.eq_of_length_le (by omega)
  obtain ⟨pre, hp⟩ := hs.split
  have hlen := congrArg List.length (List.append_cancel_right hp)
  have hfull := (hs.full_of_rest hx).1
  rw [List.length_append] at hlen
  omega

/-- What one call, or the rest of one, guarantees: the run it performs, the
packets it deals with and the bytes it reads. -/
structure Received (t : BufferType) (F : Framing UInt8) (clock : ℕ → ℤ) (s : Receiver)
    (buf : List UInt8) (offset : ℕ) (s' : Receiver) (offset' : ℕ) (es : List RecvEvent) :
    Prop where
  /-- The receiver stays in order. -/
  ok : s'.Ok t F
  /-- The rest of the read was framed to the events. -/
  run : Run F s.mCurrRecv.content [buf.drop offset] (es.map (packet t)) s'.mCurrRecv.content
  /-- The packets were dealt with. -/
  deals : Deals t F clock s es s'
  /-- The read was used up, unless the buffer is stuck. -/
  consumed : offset' = buf.length ∨ Stuck F s'.mCurrRecv.content
  /-- Nothing is read twice. -/
  advance : offset ≤ offset'
  /-- A buffer that is not full takes something. -/
  accepts : s.mCurrRecv.content.length < F.cap → offset < buf.length → offset < offset'

/-- The loop over a read takes in the rest of the read. -/
theorem onUartDataLoop_received {t : BufferType} {F : Framing UInt8} (hF : framing t = some F)
    (clock : ℕ → ℤ) {buf : List UInt8} {fuel : ℕ} {s : Receiver} {offset : ℕ} (hs : s.Ok t F)
    (ho : offset ≤ buf.length) (hfuel : buf.length - offset < fuel) :
    ∃ s' offset' es, onUartDataLoop t clock fuel s buf offset = some (s', offset', es) ∧
      Received t F clock s buf offset s' offset' es := by
  induction fuel generalizing s offset with
  | zero => omega
  | succ fuel ih =>
    by_cases hgo : offset < buf.length
    · have hx : buf.drop offset ≠ [] := fun h => by
        have := List.drop_eq_nil_iff.mp h
        omega
      obtain ⟨curr, rest, hadd, hcurr, hsuf, hsync⟩ := add_eq hF hs.curr hs.aligned (buf.drop offset)
      have hrest := hsuf.length_le
      rw [List.length_drop] at hrest hadd
      have hdrop : buf.drop (offset + (buf.length - offset - rest.length)) = rest := by
        rw [← List.drop_drop, List.suffix_iff_eq_drop.mp hsuf, List.length_drop, List.length_drop]
        congr 1
        omega
      rw [onUartDataLoop, if_pos hgo, hadd]
      simp only [Option.bind_eq_bind, Option.bind_some, complete_eq hF hcurr]
      cases hn : F.frameLen curr.content with
      | none =>
        refine ⟨_, _, _, rfl, ⟨hcurr, hs.last, hsync.aligned, hn⟩, ?_, ?_, ?_, by omega, ?_⟩
        · exact Run.stop hx hsync hn (Run.nil _)
        · exact Deals.fill curr (Deals.nil _)
        · by_cases hr : rest = []
          · rw [hr]
            exact Or.inl (by simp only [List.length_nil]; omega)
          · exact Or.inr ⟨(hsync.full_of_rest hr).1, (hsync.full_of_rest hr).2, hn⟩
        · intro hroom _
          have hlt := rest_lt_of_room hroom hx hsync hsuf
          rw [List.length_drop] at hlt
          omega
      | some n =>
        obtain ⟨s₁, e, hdeal, hd⟩ := dealPacket_dealt hF (s := {s with mCurrRecv := curr}) hcurr
          hs.last hn clock
        have hlt := rest_lt (by
          rw [content_length hs.curr.fits, framing_cap hF, ← hs.curr.slen]
          exact hs.curr.fits) hs.incomplete hx hsync hsuf hn
        have hok : Receiver.Ok t F {s₁ with mCurrRecv := s₁.mCurrRecv.setLen 0} := by
          rw [hd.curr]
          refine ⟨⟨hcurr.type, hcurr.slen, Nat.zero_le _⟩, hd.last hs.last, ?_, ?_⟩
          · exact Or.inl (by simp)
          · simp [frameLen_nil]
        rw [List.length_drop] at hlt
        obtain ⟨s', offset', es, hloop, hrec⟩ := ih hok
          (show offset + (buf.length - offset - rest.length) ≤ buf.length by omega) (by omega)
        have hpk : packet t e = ⟨curr.content, n⟩ := by
          rw [packet, hd.content, frameSize_eq hF hn]
        have hadv := hrec.advance
        refine ⟨s', offset', e :: es, ?_, hrec.ok, ?_, ?_, hrec.consumed, by omega,
          fun _ _ => by omega⟩
        · simp only [Option.isSome_some, if_true, hdeal, Option.bind_some, hloop]
          rfl
        · have hrun := hrec.run
          rw [hdrop] at hrun
          simp only [content_setLen_zero] at hrun
          rw [List.map_cons, hpk]
          exact Run.frame hx hsync hn hrun
        · exact Deals.fill curr (Deals.deal hcurr hn hd (Deals.fill _ hrec.deals))
    · refine ⟨s, offset, [], ?_, hs, ?_, Deals.nil s, Or.inl (by omega), le_rfl,
        fun _ h => absurd h hgo⟩
      · rw [onUartDataLoop, if_neg hgo]
      · rw [List.drop_eq_nil_of_le (by omega)]
        exact Run.skip (Run.nil _)

/-- Every call ends inside all payloads and is a run of the framed receiver. -/
theorem onUartData_received {t : BufferType} {F : Framing UInt8} (hF : framing t = some F)
    (clock : ℕ → ℤ) {s : Receiver} (hs : s.Ok t F) (buf : List UInt8) :
    ∃ s' offset es, onUartData t clock s buf = some (s', offset, es) ∧
      Received t F clock s buf 0 s' offset es :=
  onUartDataLoop_received hF clock hs (Nat.zero_le _) (Nat.lt_succ_self _)

/-! ## Runs of calls -/

/-- Every run of reads succeeds and is a run of the framed receiver. -/
theorem receive_run {t : BufferType} {F : Framing UInt8} (hF : framing t = some F)
    (clock : ℕ → ℤ) {s : Receiver} (hs : s.Ok t F) (chunks : List (List UInt8)) :
    ∃ s' es, receive t clock s chunks = some (s', es) ∧ s'.Ok t F ∧
      Run F s.mCurrRecv.content chunks (es.map (packet t)) s'.mCurrRecv.content ∧
      Deals t F clock s es s' := by
  induction chunks generalizing s with
  | nil => exact ⟨s, [], rfl, hs, Run.nil _, Deals.nil s⟩
  | cons x xs ih =>
    obtain ⟨s₁, offset, es, hcall, hrec⟩ := onUartData_received hF clock hs x
    obtain ⟨s', es', hrest, hok, hrun, hdeals⟩ := ih hrec.ok
    refine ⟨s', es ++ es', ?_, hok, ?_, hrec.deals.append hdeals⟩
    · rw [receive, hcall]
      simp only [Option.bind_eq_bind, Option.bind_some, hrest]
      rfl
    · have := hrec.run.append hrun
      rwa [List.drop_zero, ← List.map_append] at this

/-- One more read continues the run. -/
theorem receive_concat {t : BufferType} {clock : ℕ → ℤ} {s s₁ s₂ : Receiver}
    {chunks : List (List UInt8)} {x : List UInt8} {es es' : List RecvEvent} {offset : ℕ}
    (h : receive t clock s chunks = some (s₁, es))
    (hx : onUartData t clock s₁ x = some (s₂, offset, es')) :
    receive t clock s (chunks ++ [x]) = some (s₂, es ++ es') := by
  induction chunks generalizing s es with
  | nil =>
    cases h
    simp only [List.nil_append, receive, hx, Option.bind_eq_bind, Option.bind_some,
      Option.pure_def, List.append_nil]
  | cons y ys ih =>
    rw [receive] at h
    obtain ⟨⟨s', off, gs⟩, hy, h⟩ := Option.bind_eq_some_iff.mp h
    obtain ⟨⟨s'', gs'⟩, hys, h⟩ := Option.bind_eq_some_iff.mp h
    cases h
    rw [List.cons_append, receive, hy]
    simp only [Option.bind_eq_bind, Option.bind_some, ih hys, Option.pure_def, List.append_assoc]

/-- The valid frames of a run are the accepted packets of the framed run. -/
theorem validFrames_eq {t : BufferType} {es : List RecvEvent}
    (h : ∀ e ∈ es, e.isValid = verified (packet t e).frame) :
    validFrames t es = accepted verified (es.map (packet t)) := by
  induction es with
  | nil => rfl
  | cons e es ih =>
    have he := h e List.mem_cons_self
    have ih' := ih fun e' h' => h e' (List.mem_cons_of_mem e h')
    simp only [validFrames, accepted] at ih' ⊢
    rw [List.filter_cons, he, List.map_cons, List.map_cons, List.filter_cons]
    split
    · rw [List.map_cons, ih']
    · exact ih'

end CdroidDemo.UartReceiver
