import CdroidDemo.BufferPool
import CdroidDemo.UartReceiver

/-!
# The serial client

`UartClient` keeps packets to be sent in a queue of pointers into the pool of
its packet buffer, sends at most one of them for each tick, and owns the two
buffers that receiving works on. The socket timer and the log lines of a tick
change no packet and are left out.
-/

namespace CdroidDemo.SerialClient

open HeaderResync FramedReceiver PacketMemory BuffData PacketBuffer BufferPool UartReceiver
open SDHWPacketBuffer

/-- `UartClient`, as far as packets are concerned. -/
structure UartClient where
  /-- `mSendQueue`: packets to be sent, oldest first. -/
  mSendQueue : List ℕ
  /-- `mLastRecv`: the packet dispatched last. -/
  mLastRecv : ℕ
  /-- `mCurrRecv`: the packet being received. -/
  mCurrRecv : ℕ
  /-- `mLastSendTime`: when a packet was sent last, reset by a dispatch. -/
  mLastSendTime : ℤ
  /-- `mSendCount`: packets sent. -/
  mSendCount : ℕ
  /-- `mRecvCount`: completed packets. -/
  mRecvCount : ℕ
  /-- `mChkErrCount`: consecutive check failures. -/
  mChkErrCount : ℕ
  /-- `mLastDealDataTime`: when a repeat was last let through. -/
  mLastDealDataTime : ℤ
  /-- `mCallbackFunc`: whether the product callback is set. -/
  mCallbackFunc : Bool
  /-- `isConn()`: the serial port is open. -/
  isConn : Bool

namespace UartClient

/-- The fields that the constructor sets. -/
def created (last curr : ℕ) : UartClient := ⟨[], last, curr, 0, 0, 0, 0, 0, false, false⟩

/-- `UartClient::UartClient`. -/
def create (p : SDHWPacketBuffer) : Option (SDHWPacketBuffer × UartClient) := do
  let (p, last) ← p.obtain
  let (p, curr) ← p.obtain
  return (p, created last curr)

/-- Recycle the pointers of a list in order. -/
def recycleAll (p : SDHWPacketBuffer) : List ℕ → Option SDHWPacketBuffer
  | [] => some p
  | ask :: rest => do recycleAll (← p.recycle ask) rest

/-- `UartClient::~UartClient`. -/
def destroy (p : SDHWPacketBuffer) (c : UartClient) : Option SDHWPacketBuffer := do
  let p ← p.recycle c.mLastRecv
  let p ← p.recycle c.mCurrRecv
  recycleAll p c.mSendQueue

/-- The search loop of `send`: whether a queued packet equals the new one. -/
def sameQueued (p : SDHWPacketBuffer) (ask : BuffData) : List ℕ → Option Bool
  | [] => some false
  | it :: rest => do
    if ← compare p.mType ask (← p.load it) then return true
    else sameQueued p ask rest

/-- `UartClient::send`. -/
def send (p : SDHWPacketBuffer) (c : UartClient) (ask : ℕ) :
    Option (SDHWPacketBuffer × UartClient × ℤ) := do
  if !c.isConn then return (← p.recycle ask, c, -1)
  else if ← sameQueued p (← p.load ask) c.mSendQueue then return (← p.recycle ask, c, 1)
  else return (p, {c with mSendQueue := c.mSendQueue ++ [ask]}, 0)

/-- The client after its oldest packet has been sent. -/
def drained (c : UartClient) (nowTick : ℤ) (rest : List ℕ) : UartClient :=
  {c with mLastSendTime := nowTick, mSendQueue := rest, mSendCount := c.mSendCount + 1}

/-- `UartClient::onTick` at the clock reading `nowTick`, with the packet handed
to `sendTrans` and the bytes sent for it. -/
def onTick (p : SDHWPacketBuffer) (c : UartClient) (nowTick : ℤ) :
    Option (SDHWPacketBuffer × UartClient × Option (ℕ × List UInt8)) :=
  match c.mSendQueue with
  | [] => some (p, c, none)
  | ask :: rest =>
    if 100 ≤ nowTick - c.mLastSendTime then do
      let b ← checkCode p.mType (← p.load ask)
      let frame ← b.first b.len
      let p ← p.store ask b
      let p ← p.recycle ask
      return (p, c.drained nowTick rest, some (ask, frame))
    else some (p, c, none)

/-- What receiving works on. -/
def receiver (c : UartClient) (curr last : BuffData) : Receiver :=
  ⟨curr, last, c.mRecvCount, c.mChkErrCount, c.mLastDealDataTime, c.mLastSendTime,
    c.mCallbackFunc⟩

/-- The client after receiving. -/
def received (c : UartClient) (s : Receiver) : UartClient :=
  {c with mRecvCount := s.mRecvCount, mChkErrCount := s.mChkErrCount,
          mLastDealDataTime := s.mLastDealDataTime, mLastSendTime := s.mLastSendTime}

/-- `UartClient::onUartData` on the pool. Saving a packet over itself would be
an overlapping `memcpy`. -/
def onUartData (p : SDHWPacketBuffer) (c : UartClient) (clock : ℕ → ℤ) (buf : List UInt8) :
    Option (SDHWPacketBuffer × UartClient × ℕ × List RecvEvent) :=
  if c.mCurrRecv = c.mLastRecv then none
  else do
    let s := c.receiver (← p.load c.mCurrRecv) (← p.load c.mLastRecv)
    let (s, offset, es) ← UartReceiver.onUartData p.mType clock s buf
    let p ← p.store c.mCurrRecv s.mCurrRecv
    let p ← p.store c.mLastRecv s.mLastRecv
    return (p, c.received s, offset, es)

/-- The pointers a client owns. -/
def owned (c : UartClient) : List ℕ := c.mLastRecv :: c.mCurrRecv :: c.mSendQueue

/-! ## What the operations compute -/

/-- The buffers of a client: two distinct receive buffers, the current one
aligned and incomplete, and queued packets that can be completed. -/
structure Ok (p : SDHWPacketBuffer) (F : Framing UInt8) (c : UartClient) : Prop where
  /-- The two receive buffers are different. -/
  distinct : c.mCurrRecv ≠ c.mLastRecv
  /-- The current one holds the start of a frame. -/
  curr : ∃ b, p.load c.mCurrRecv = some b ∧ Aligned F b.content ∧ F.frameLen b.content = none
  /-- The last one is there. -/
  last : ∃ b, p.load c.mLastRecv = some b
  /-- The packets that wait can be closed. -/
  queue : ∀ ask ∈ c.mSendQueue, ∃ b, p.load ask = some b ∧ Codable p.mType b

/-- A client keeps its buffers when the pool changes elsewhere. -/
theorem Ok.frame {p p' : SDHWPacketBuffer} {F : Framing UInt8} {c : UartClient} (h : c.Ok p F)
    (ht : p'.mType = p.mType) (hl : ∀ q ∈ c.owned, p'.load q = p.load q) : c.Ok p' F := by
  have hlast := hl c.mLastRecv List.mem_cons_self
  have hcurr := hl c.mCurrRecv (List.mem_cons_of_mem _ List.mem_cons_self)
  refine ⟨h.distinct, ?_, ?_, ?_⟩
  · rw [hcurr]
    exact h.curr
  · rw [hlast]
    exact h.last
  · intro ask hask
    rw [hl ask (List.mem_cons_of_mem _ (List.mem_cons_of_mem _ hask)), ht]
    exact h.queue ask hask

/-- The constructor takes two buffers out of the pool. -/
theorem create_eq {p : SDHWPacketBuffer} (hp : p.Pooled) :
    ∃ p₁ p₂ last curr, Obtained p p₁ last ∧ Obtained p₁ p₂ curr ∧
      create p = some (p₂, created last curr) := by
  obtain ⟨p₁, last, h₁, ho₁⟩ := obtain_obtained hp
  obtain ⟨p₂, curr, h₂, ho₂⟩ := obtain_obtained (ho₁.pooled hp)
  refine ⟨p₁, p₂, last, curr, ho₁, ho₂, ?_⟩
  simp only [create, h₁, h₂, Option.bind_eq_bind, Option.bind_some, Option.pure_def]

/-- The pool after the pointers of a list have been recycled. -/
def recycledAll (p : SDHWPacketBuffer) (l : List ℕ) : SDHWPacketBuffer :=
  l.foldl recycled p

/-- A pool that takes buffers back keeps its kind. -/
@[simp] theorem recycledAll_mType (p : SDHWPacketBuffer) (l : List ℕ) :
    (recycledAll p l).mType = p.mType := by
  induction l generalizing p with
  | nil => rfl
  | cons q l ih => exact ih (p.recycled q)

/-- The buffers taken back are appended. -/
@[simp] theorem recycledAll_mBuffs (p : SDHWPacketBuffer) (l : List ℕ) :
    (recycledAll p l).mBuffs = p.mBuffs ++ l := by
  induction l generalizing p with
  | nil => exact (List.append_nil _).symm
  | cons q l ih =>
    rw [List.append_cons]
    exact ih (p.recycled q)

/-- Taking buffers back allocates nothing. -/
@[simp] theorem recycledAll_heap_length (p : SDHWPacketBuffer) (l : List ℕ) :
    (recycledAll p l).heap.length = p.heap.length := by
  induction l generalizing p with
  | nil => rfl
  | cons q l ih => exact (ih (p.recycled q)).trans (recycled_heap_length p q)

/-- Other buffers are not touched. -/
theorem load_recycledAll {p : SDHWPacketBuffer} {l : List ℕ} (hl : ∀ q ∈ l, q < p.heap.length)
    {r : ℕ} (hr : r ∉ l) : (recycledAll p l).load r = p.load r := by
  induction l generalizing p with
  | nil => rfl
  | cons q l ih =>
    have hq := hl q List.mem_cons_self
    have hrest := ih (p := p.recycled q) (fun x hx => by
      rw [recycled_heap_length]
      exact hl x (List.mem_cons_of_mem q hx)) (fun hm => hr (List.mem_cons_of_mem q hm))
    have hne : r ≠ q := fun he => hr (he ▸ List.mem_cons_self)
    rw [load_recycled hq, if_neg hne] at hrest
    exact hrest

/-- Buffers of the pool are taken back without a fault. -/
theorem recycleAll_eq {p : SDHWPacketBuffer} (hp : p.Pooled) {l : List ℕ}
    (hl : ∀ q ∈ l, q < p.heap.length) :
    recycleAll p l = some (recycledAll p l) ∧ (recycledAll p l).Pooled := by
  induction l generalizing p with
  | nil => exact ⟨rfl, hp⟩
  | cons q l ih =>
    have hq := hl q List.mem_cons_self
    have hload := load_eq_some hq
    have hrest := ih (hp.recycled hq) fun r hr => by
      rw [recycled_heap_length]
      exact hl r (List.mem_cons_of_mem q hr)
    rw [recycleAll, recycle_eq hload (hp.sized q _ hload)]
    exact hrest

/-- The destructor recycles every pointer the client owns. -/
theorem destroy_eq {p : SDHWPacketBuffer} (hp : p.Pooled) {c : UartClient}
    (hc : ∀ q ∈ c.owned, q < p.heap.length) :
    destroy p c = some (recycledAll p c.owned) ∧ (recycledAll p c.owned).Pooled :=
  recycleAll_eq hp hc

/-- Comparing buffers of one type always gives an answer. -/
theorem compare_isSome {t : BufferType} {a b : BuffData} (ha : Sized t a) (hb : Sized t b) :
    ∃ r, compare t a b = some r := by
  cases t with
  | null => exact ⟨true, rfl⟩
  | factory => exact ⟨true, rfl⟩
  | mcu => exact ⟨_, compare_mcu ha hb⟩
  | tuyaMcu => exact ⟨false, rfl⟩

/-- A queued packet equals the given one. -/
def Queued (p : SDHWPacketBuffer) (c : UartClient) (b : BuffData) : Prop :=
  ∃ it ∈ c.mSendQueue, ∃ dst, p.load it = some dst ∧ compare p.mType b dst = some true

/-- `sameQueued` says whether an equal packet waits. -/
theorem sameQueued_eq {p : SDHWPacketBuffer} (hp : p.Pooled) {b : BuffData}
    (hb : Sized p.mType b) {l : List ℕ} (hl : ∀ it ∈ l, ∃ dst, p.load it = some dst) :
    ∃ r, sameQueued p b l = some r ∧
      (r = true ↔ ∃ it ∈ l, ∃ dst, p.load it = some dst ∧ compare p.mType b dst = some true) := by
  induction l with
  | nil => exact ⟨false, rfl, by simp⟩
  | cons it l ih =>
    obtain ⟨dst, hd⟩ := hl it List.mem_cons_self
    obtain ⟨r, hr⟩ := compare_isSome hb (hp.sized it dst hd)
    obtain ⟨r', hrest, hiff⟩ := ih fun q hq => hl q (List.mem_cons_of_mem it hq)
    have hhead : (∃ d, p.load it = some d ∧ compare p.mType b d = some true) ↔ r = true := by
      simp only [hd, Option.some.injEq, exists_eq_left', hr]
    rw [sameQueued, hd]
    simp only [Option.bind_eq_bind, Option.bind_some, hr, List.exists_mem_cons_iff, hhead]
    cases r with
    | true => exact ⟨true, rfl, by simp⟩
    | false => exact ⟨r', hrest, by simp [hiff]⟩

/-- All that `send` can do with a packet. -/
inductive Sent (p : SDHWPacketBuffer) (c : UartClient) (ask : ℕ) (b : BuffData) :
    SDHWPacketBuffer → UartClient → ℤ → Prop
  /-- Without a connection the packet is recycled. -/
  | disconnected (hc : c.isConn = false) : Sent p c ask b (p.recycled ask) c (-1)
  /-- A packet like one that waits is recycled. -/
  | duplicate (hc : c.isConn = true) (hq : c.Queued p b) : Sent p c ask b (p.recycled ask) c 1
  /-- The packet is queued. -/
  | accepted (hc : c.isConn = true) (hq : ¬c.Queued p b) :
      Sent p c ask b p {c with mSendQueue := c.mSendQueue ++ [ask]} 0

/-- `send` touches the given buffer only. -/
theorem Sent.load {p p' : SDHWPacketBuffer} {c c' : UartClient} {ask : ℕ} {b : BuffData} {r : ℤ}
    (h : Sent p c ask b p' c' r) (hlt : ask < p.heap.length) {q : ℕ} (hq : q ≠ ask) :
    p'.load q = p.load q := by
  cases h with
  | disconnected _ => rw [load_recycled hlt, if_neg hq]
  | duplicate _ _ => rw [load_recycled hlt, if_neg hq]
  | accepted _ _ => rfl

/-- `send` always succeeds, in one of three ways. -/
theorem send_sent {p : SDHWPacketBuffer} {F : Framing UInt8} {c : UartClient} (hp : p.Pooled)
    (hc : c.Ok p F) {ask : ℕ} {b : BuffData} (hb : p.load ask = some b) :
    ∃ p' c' r, send p c ask = some (p', c', r) ∧ Sent p c ask b p' c' r := by
  have hs := hp.sized ask b hb
  have hrec := recycle_eq hb hs
  unfold send
  rcases Bool.eq_false_or_eq_true c.isConn with hconn | hconn
  · obtain ⟨r, hr, hiff⟩ := sameQueued_eq hp hs fun it hit =>
      (hc.queue it hit).imp fun dst hd => hd.1
    rw [if_neg (by rw [hconn]; exact Bool.false_ne_true)]
    simp only [hb, hr, hrec, Option.bind_eq_bind, Option.bind_some]
    cases r with
    | true => exact ⟨_, _, _, rfl, Sent.duplicate hconn (hiff.mp rfl)⟩
    | false =>
      exact ⟨_, _, _, rfl, Sent.accepted hconn fun h => Bool.false_ne_true (hiff.mpr h)⟩
  · rw [if_pos (by rw [hconn]; rfl)]
    simp only [hrec, Option.bind_eq_bind, Option.bind_some]
    exact ⟨_, _, _, rfl, Sent.disconnected hconn⟩

/-- All that a tick can do. -/
inductive Ticked (p : SDHWPacketBuffer) (c : UartClient) (nowTick : ℤ) :
    SDHWPacketBuffer → UartClient → Option (ℕ × List UInt8) → Prop
  /-- Nothing waits, or the pause is not over. -/
  | idle (h : c.mSendQueue = [] ∨ nowTick - c.mLastSendTime < 100) : Ticked p c nowTick p c none
  /-- The oldest packet is transmitted. -/
  | sent {ask : ℕ} {rest : List ℕ} {b b' : BuffData} (hq : c.mSendQueue = ask :: rest)
      (ht : 100 ≤ nowTick - c.mLastSendTime) (hb : p.load ask = some b)
      (hc : checkCode p.mType b = some b') :
      Ticked p c nowTick (p.recycled ask) (c.drained nowTick rest) (some (ask, b'.content))

/-- A tick touches a buffer of the client only. -/
theorem Ticked.load {p p' : SDHWPacketBuffer} {c c' : UartClient} {nowTick : ℤ}
    {out : Option (ℕ × List UInt8)} (h : Ticked p c nowTick p' c' out) {q : ℕ}
    (hq : q ∉ c.owned) : p'.load q = p.load q := by
  cases h with
  | idle _ => rfl
  | @sent ask rest b b' hqueue _ hb _ =>
    have hmem : ask ∈ c.owned := by
      rw [owned, hqueue]
      exact List.mem_cons_of_mem _ (List.mem_cons_of_mem _ List.mem_cons_self)
    have hne : q ≠ ask := fun he => hq (he ▸ hmem)
    rw [load_recycled (lt_of_load hb), if_neg hne]

/-- A tick always succeeds and sends at most the oldest packet. -/
theorem onTick_ticked {p : SDHWPacketBuffer} {F : Framing UInt8} {c : UartClient} (hp : p.Pooled)
    (hc : c.Ok p F) (nowTick : ℤ) :
    ∃ p' c' out, onTick p c nowTick = some (p', c', out) ∧ Ticked p c nowTick p' c' out := by
  unfold onTick
  cases hq : c.mSendQueue with
  | nil => exact ⟨_, _, _, rfl, Ticked.idle (Or.inl hq)⟩
  | cons ask rest =>
    by_cases ht : 100 ≤ nowTick - c.mLastSendTime
    · obtain ⟨b, hb, hcode⟩ := hc.queue ask (by rw [hq]; exact List.mem_cons_self)
      have hs := hp.sized ask b hb
      obtain ⟨b', hb', hs'⟩ := checkCode_sized hs hcode
      have hlt := lt_of_load hb
      have hstore := store_eq_some hlt b'
      have hload : (p.written ask b').load ask = some b' := by
        rw [load_written hlt, if_pos rfl]
      have hrec := recycle_eq hload hs'
      rw [written_recycled] at hrec
      simp only [if_pos ht, hb, hb', first_eq_some hs'.fits, hstore, hrec, Option.bind_eq_bind,
        Option.bind_some]
      exact ⟨_, _, _, rfl, Ticked.sent hq ht hb hb'⟩
    · simp only [if_neg ht]
      exact ⟨_, _, _, rfl, Ticked.idle (Or.inr (by omega))⟩

/-- What receiving does to the pool and the client: the two receive buffers
are those of the receiver, and nothing else changes. -/
structure Fed (p : SDHWPacketBuffer) (F : Framing UInt8) (c : UartClient) (clock : ℕ → ℤ)
    (p' : SDHWPacketBuffer) (c' : UartClient) (es : List RecvEvent) : Prop where
  /-- The receiver dealt with the bytes. -/
  deals : ∃ curr last s', p.load c.mCurrRecv = some curr ∧ p.load c.mLastRecv = some last ∧
    Deals p.mType F clock (c.receiver curr last) es s' ∧ c' = c.received s'
  /-- The kind of the pool stays. -/
  mType : p'.mType = p.mType
  /-- The free buffers stay. -/
  mBuffs : p'.mBuffs = p.mBuffs
  /-- Nothing is allocated. -/
  heap : p'.heap.length = p.heap.length
  /-- The pool stays in order. -/
  pooled : p'.Pooled
  /-- So does the client. -/
  ok : c'.Ok p' F
  /-- No other buffer is touched. -/
  other : ∀ q, q ≠ c.mCurrRecv → q ≠ c.mLastRecv → p'.load q = p.load q

/-- Receiving touches buffers of the client only. -/
theorem Fed.load {p p' : SDHWPacketBuffer} {F : Framing UInt8} {c c' : UartClient}
    {clock : ℕ → ℤ} {es : List RecvEvent} (h : Fed p F c clock p' c' es) {q : ℕ}
    (hq : q ∉ c.owned) : p'.load q = p.load q := by
  have hl : q ≠ c.mLastRecv := fun he => hq (he ▸ List.mem_cons_self)
  have hc : q ≠ c.mCurrRecv := fun he => hq (he ▸ List.mem_cons_of_mem _ List.mem_cons_self)
  exact h.other q hc hl

/-- Receiving always succeeds. -/
theorem onUartData_fed {p : SDHWPacketBuffer} {F : Framing UInt8} {c : UartClient}
    (hF : framing p.mType = some F) (hp : p.Pooled) (hc : c.Ok p F)
    (hfree : c.mCurrRecv ∉ p.mBuffs ∧ c.mLastRecv ∉ p.mBuffs)
    (hq : c.mCurrRecv ∉ c.mSendQueue ∧ c.mLastRecv ∉ c.mSendQueue)
    (clock : ℕ → ℤ) (buf : List UInt8) :
    ∃ p' c' offset es, onUartData p c clock buf = some (p', c', offset, es) ∧
      Fed p F c clock p' c' es := by
  obtain ⟨curr, hcurr, hal, hin⟩ := hc.curr
  obtain ⟨last, hlast⟩ := hc.last
  have hok : (c.receiver curr last).Ok p.mType F :=
    ⟨hp.sized _ _ hcurr, hp.sized _ _ hlast, hal, hin⟩
  obtain ⟨s, offset, es, hrun, hrec⟩ := onUartData_received hF clock hok buf
  have hlt₁ := lt_of_load hcurr
  have hlt₂ : c.mLastRecv < (p.written c.mCurrRecv s.mCurrRecv).heap.length := by
    rw [written_heap_length]
    exact lt_of_load hlast
  have hp₁ := hp.written hlt₁ hfree.1 hrec.ok.curr
  have hp₂ := hp₁.written hlt₂ hfree.2 hrec.ok.last
  have hload : ∀ q, ((p.written c.mCurrRecv s.mCurrRecv).written c.mLastRecv s.mLastRecv).load q =
      if q = c.mLastRecv then some s.mLastRecv
      else if q = c.mCurrRecv then some s.mCurrRecv else p.load q := by
    intro q
    rw [load_written hlt₂, load_written hlt₁]
  refine ⟨(p.written c.mCurrRecv s.mCurrRecv).written c.mLastRecv s.mLastRecv, _, offset, es, ?_,
    ⟨⟨curr, last, s, hcurr, hlast, hrec.deals, rfl⟩, rfl, rfl, ?_, hp₂,
      ⟨hc.distinct, ?_, ?_, ?_⟩, ?_⟩⟩
  · unfold onUartData
    rw [if_neg hc.distinct]
    simp only [hcurr, hlast, hrun, store_eq_some hlt₁, store_eq_some hlt₂, Option.bind_eq_bind,
      Option.bind_some, Option.pure_def]
  · simp only [written_heap_length]
  · refine ⟨s.mCurrRecv, ?_, hrec.ok.aligned, hrec.ok.incomplete⟩
    change SDHWPacketBuffer.load _ c.mCurrRecv = _
    rw [hload, if_neg hc.distinct, if_pos rfl]
  · refine ⟨s.mLastRecv, ?_⟩
    change SDHWPacketBuffer.load _ c.mLastRecv = _
    rw [hload, if_pos rfl]
  · intro ask hask
    have hask' : ask ∈ c.mSendQueue := hask
    have hc' : ask ≠ c.mCurrRecv := fun h => hq.1 (h ▸ hask')
    have hl' : ask ≠ c.mLastRecv := fun h => hq.2 (h ▸ hask')
    rw [hload, if_neg hl', if_neg hc']
    exact hc.queue ask hask'
  · intro q hqc hql
    rw [hload, if_neg hql, if_neg hqc]

end UartClient

end CdroidDemo.SerialClient
