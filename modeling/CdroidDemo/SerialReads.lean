import CdroidDemo.ReceiverRecovery
import CdroidDemo.TcpClient

/-!
# Reading the serial line

The client reads the line into the receive buffer of its base class and hands
what it has read to the packet receiver, either from the event loop or, with a
long `mRecvSpace`, when it is polled. A transmission keeps it from reading for
a while, and so does its construction. Whatever the kernel and the clocks
answer is an argument.
-/

namespace CdroidDemo.SerialReads

open FramedReceiver PacketMemory PacketBuffer UartReceiver ReceiverFraming ReceiverRecovery
open TcpClient

/-! ## The code -/

/-- `RECV_PACKET_TIME_SPACE`. -/
def RECV_PACKET_TIME_SPACE : ℤ := 50

/-- The fields of `UartClient` that reading works on. -/
structure SerialPort where
  /-- What `onUartData` works on. -/
  uart : Receiver
  /-- The buffer of the reads. -/
  mRSBuf : SockBuf
  /-- The status of the connection. -/
  mStatus : STATUS
  /-- When a read was attempted last. -/
  mLastRecvTime : ℤ
  /-- The least time between two attempts. -/
  mRecvSpace : ℤ
  /-- `setFd` has registered the descriptor with the event loop. -/
  looper : Bool
  /-- `init` has registered the client with the application. -/
  handler : Bool

/-- What one attempt to read meets: the clock read before it, the result of
`select`, the bytes that wait or an error of `read`, and `errno` afterwards. -/
structure Line where
  /-- The clock before the read. -/
  tick : ℤ
  /-- What `select` returns. -/
  select : ℤ
  /-- The bytes that wait, if `read` does not fail. -/
  waiting : Option (List UInt8)
  /-- The error afterwards. -/
  errno : ℤ

/-- What is seen of the client. -/
inductive Seen
  /-- `UART0_Recv` was called at a clock reading and took these bytes. -/
  | taken (tick : ℤ) (bytes : List UInt8)
  /-- `onUartData` was called with these bytes and dealt with these packets. -/
  | fed (bytes : List UInt8) (es : List RecvEvent)
  /-- `sendTrans` was over at a clock reading. -/
  | sent (now : ℤ)

/-- `UART0_Recv`: its result and the bytes it stores. -/
def UART0_Recv (x : Line) (data_len : ℕ) : ℤ × List UInt8 :=
  if x.select = 0 then (0, [])
  else
    match x.waiting with
    | none => (-1, [])
    | some w => ((w.take data_len).length, w.take data_len)

/-- The bytes from `pos` to `last`. -/
def unread (b : SockBuf) : List UInt8 := (b.buf.drop b.pos).take (b.last - b.pos)

/-- The constructor, with a clock reading. -/
def create (t : BufferType) (uptime recv_space : ℤ) : SerialPort where
  uart := newReceiver t
  mRSBuf := SockBuf.new
  mStatus := .disconnect
  mLastRecvTime := uptime + 5000
  mRecvSpace := recv_space
  looper := false
  handler := false

/-- The loop of `init` that drops what has piled up on the line. -/
def giveUp (b : SockBuf) : List Line → SockBuf
  | [] => b
  | x :: xs =>
    let r := UART0_Recv x b.free
    let b' := {b.store r.2 with last := b.last, last_le := b.last_le}
    if (b.free : ℤ) ≤ r.1 then giveUp b' xs else b'

/-- `init`: the results of `UART0_Open` and `UART0_Init`, and the old data. -/
def init (s : SerialPort) (uart_fd : ℤ) (result : Bool) (old : List Line) : SerialPort × ℤ :=
  if uart_fd ≤ 0 then (s, -1)
  else if !result then (s, -2)
  else
    let s := {s with mRSBuf := giveUp s.mRSBuf old, mStatus := .connected}
    if s.mRecvSpace < RECV_PACKET_TIME_SPACE then
      ({s with looper := decide (s.mRecvSpace ≤ 10)}, 0)
    else ({s with handler := true}, 0)

/-- `readData`, with what is seen of it. -/
def readData (s : SerialPort) (x : Line) : SerialPort × ℤ × List Seen :=
  if x.tick - s.mLastRecvTime < s.mRecvSpace then (s, 1, [])
  else
    let s := {s with mLastRecvTime := x.tick}
    let r := UART0_Recv x s.mRSBuf.free
    if 0 < r.1 then ({s with mRSBuf := s.mRSBuf.store r.2}, r.1, [.taken x.tick r.2])
    else (s, 0, [.taken x.tick r.2])

/-- `onRecvData`, with what is seen of it. -/
def onRecvData (t : BufferType) (clock : ℕ → ℤ) (s : SerialPort) :
    Option (SerialPort × ℤ × List Seen) := do
  let (u, _, es) ← onUartData t clock s.uart (unread s.mRSBuf)
  let count : ℤ := u.mRecvCount - s.uart.mRecvCount
  return ({s with uart := u, mRSBuf := s.mRSBuf.reset}, count, [.fed (unread s.mRSBuf) es])

/-- The loop of `handleEvent` for a readable line. Behind the last attempt the
loop stops where it is. -/
def handleEvent (t : BufferType) (clock : ℕ → ℤ) (s : SerialPort) :
    List Line → Option (SerialPort × List Seen)
  | [] => some (s, [])
  | x :: xs => do
    let free_len := s.mRSBuf.free
    let (s, read_len, seen) := readData s x
    if read_len ≤ 0 then
      if x.errno = ENOENT then return ({s with mStatus := .disconnect}, seen)
      else return (s, seen)
    else
      let (s, deal_count, fed) ← onRecvData t clock s
      if deal_count < 0 then return ({s with mStatus := .disconnect}, seen ++ fed)
      else if read_len < (free_len : ℤ) then return (s, seen ++ fed)
      else if 0 < deal_count then return (s, seen ++ fed)
      else
        let (s, more) ← handleEvent t clock s xs
        return (s, seen ++ fed ++ more)

/-- `checkEvents`. -/
def checkEvents (s : SerialPort) (now : ℤ) : SerialPort × Bool :=
  if s.mRecvSpace ≤ now - s.mLastRecvTime then ({s with mLastRecvTime := now}, true)
  else (s, false)

/-- `handleEvents`; the clock was read by `checkEvents`. -/
def handleEvents (t : BufferType) (clock : ℕ → ℤ) (s : SerialPort) (x : Line) :
    Option (SerialPort × List Seen) := do
  let r := UART0_Recv x s.mRSBuf.free
  if 0 < r.1 then
    let (s, _, fed) ← onRecvData t clock {s with mRSBuf := s.mRSBuf.store r.2}
    return (s, .taken x.tick r.2 :: fed)
  else return (s, [.taken x.tick r.2])

/-- What happens to the client. -/
inductive Op
  /-- The line is readable, with the attempts to read it. -/
  | handleEvent (xs : List Line)
  /-- The application polls the client. -/
  | poll (x : Line)
  /-- `sendTrans`; the clock is read behind it. -/
  | sendTrans (now : ℤ)

/-- The event loop and the application call registered clients only. -/
def Registered (s : SerialPort) : Op → Prop
  | .handleEvent _ => s.looper = true
  | .poll _ => s.handler = true
  | .sendTrans _ => True

/-- One happening. -/
def step (t : BufferType) (clock : ℕ → ℤ) (s : SerialPort) :
    Op → Option (SerialPort × List Seen)
  | .handleEvent xs => handleEvent t clock s xs
  | .poll x =>
    let r := checkEvents s x.tick
    if r.2 then handleEvents t clock r.1 x else some (r.1, [])
  | .sendTrans now => some ({s with mLastRecvTime := now}, [.sent now])

/-- Happenings in order. -/
def run (t : BufferType) (clock : ℕ → ℤ) (s : SerialPort) :
    List Op → Option (SerialPort × List Seen)
  | [] => some (s, [])
  | op :: ops => do
    let (s, seen) ← step t clock s op
    let (s, more) ← run t clock s ops
    return (s, seen ++ more)

/-! ## What is seen of a run -/

/-- The bytes that the calls of `UART0_Recv` took. -/
def takes : List Seen → List (List UInt8)
  | [] => []
  | .taken _ bytes :: l => bytes :: takes l
  | _ :: l => takes l

/-- The bytes that `onUartData` was called with. -/
def feeds : List Seen → List (List UInt8)
  | [] => []
  | .fed bytes _ :: l => bytes :: feeds l
  | _ :: l => feeds l

/-- The packets it dealt with. -/
def packets : List Seen → List RecvEvent
  | [] => []
  | .fed _ es :: l => es ++ packets l
  | _ :: l => packets l

/-- Every attempt to read comes at least `d` after the attempt or the
transmission before it, the first one after `last`. -/
def Gated (d : ℤ) : ℤ → List Seen → Prop
  | _, [] => True
  | last, .taken tick _ :: l => d ≤ tick - last ∧ Gated d tick l
  | _, .sent now :: l => Gated d now l
  | last, .fed _ _ :: l => Gated d last l

/-- The time of the last attempt or transmission. -/
def lastTime : ℤ → List Seen → ℤ
  | last, [] => last
  | _, .taken tick _ :: l => lastTime tick l
  | _, .sent now :: l => lastTime now l
  | last, .fed _ _ :: l => lastTime last l

variable {t : BufferType} {F : Framing UInt8} {clock : ℕ → ℤ} {s s' s'' : SerialPort}
  {l m : List Seen}

/-- The bytes taken in two logs. -/
theorem takes_append : takes (l ++ m) = takes l ++ takes m := by
  induction l with
  | nil => rfl
  | cons x l ih =>
    cases x with
    | taken tick bytes => exact congrArg (bytes :: ·) ih
    | fed bytes es => exact ih
    | sent now => exact ih

/-- The bytes fed in two logs. -/
theorem feeds_append : feeds (l ++ m) = feeds l ++ feeds m := by
  induction l with
  | nil => rfl
  | cons x l ih =>
    cases x with
    | taken tick bytes => exact ih
    | fed bytes es => exact congrArg (bytes :: ·) ih
    | sent now => exact ih

/-- The packets of two logs. -/
theorem packets_append : packets (l ++ m) = packets l ++ packets m := by
  induction l with
  | nil => rfl
  | cons x l ih =>
    cases x with
    | taken tick bytes => exact ih
    | fed bytes es =>
      rw [List.cons_append, packets, packets, ih, List.append_assoc]
    | sent now => exact ih

/-- Two logs are gated when each is, the second from the first's last read on.
-/
theorem gated_append {d last : ℤ} :
    Gated d last (l ++ m) ↔ Gated d last l ∧ Gated d (lastTime last l) m := by
  induction l generalizing last with
  | nil => exact ⟨fun h => ⟨trivial, h⟩, fun h => h.2⟩
  | cons x l ih =>
    cases x with
    | taken tick bytes => rw [List.cons_append, Gated, Gated, lastTime, ih, and_assoc]
    | fed bytes es => exact ih
    | sent now => exact ih

/-- The last read of two logs. -/
theorem lastTime_append {last : ℤ} : lastTime last (l ++ m) = lastTime (lastTime last l) m := by
  induction l generalizing last with
  | nil => rfl
  | cons x l ih =>
    cases x with
    | taken tick bytes => exact ih
    | fed bytes es => exact ih
    | sent now => exact ih

/-! ## One step -/

/-- Between two events the receive buffer is empty. -/
structure Calm (t : BufferType) (F : Framing UInt8) (s : SerialPort) : Prop where
  /-- The receiver is in order. -/
  ok : s.uart.Ok t F
  /-- No byte of the buffer was taken. -/
  pos : s.mRSBuf.pos = 0
  /-- The buffer holds none. -/
  last : s.mRSBuf.last = 0

/-- What happens from one state without transferred bytes to another: what was
taken is fed to the receiver, in time. -/
structure Passes (t : BufferType) (F : Framing UInt8) (clock : ℕ → ℤ) (s : SerialPort)
    (l : List Seen) (s' : SerialPort) : Prop where
  /-- The port is calm again. -/
  calm : Calm t F s'
  /-- The receiver was fed what it was fed. -/
  received : receive t clock s.uart (feeds l) = some (s'.uart, packets l)
  /-- That is what was taken from the line. -/
  fed : (feeds l).flatten = (takes l).flatten
  /-- No read takes more than the buffer holds. -/
  size : ∀ x ∈ takes l, x.length ≤ len4K
  /-- The attempts keep their distance. -/
  gated : Gated s.mRecvSpace s.mLastRecvTime l
  /-- When the last attempt was made. -/
  time : s'.mLastRecvTime = lastTime s.mLastRecvTime l
  /-- The distance stays. -/
  space : s'.mRecvSpace = s.mRecvSpace
  /-- The event loop knows the port as before. -/
  looper : s'.looper = s.looper
  /-- So does the application. -/
  handler : s'.handler = s.handler

/-- A calm port passes nothing on. -/
theorem Passes.refl (h : Calm t F s) : Passes t F clock s [] s :=
  ⟨h, rfl, rfl, fun _ hx => (by cases hx), trivial, rfl, rfl, rfl, rfl⟩

/-- Two logs are passed one after the other. -/
theorem Passes.append (h : Passes t F clock s l s') (h' : Passes t F clock s' m s'') :
    Passes t F clock s (l ++ m) s'' := by
  refine ⟨h'.calm, ?_, ?_, ?_, ?_, ?_, h'.space.trans h.space, h'.looper.trans h.looper,
    h'.handler.trans h.handler⟩
  · rw [feeds_append, packets_append]
    exact receive_append h.received h'.received
  · rw [feeds_append, takes_append, List.flatten_append, List.flatten_append, h.fed, h'.fed]
  · intro x hx
    rw [takes_append] at hx
    rcases List.mem_append.mp hx with hx | hx
    · exact h.size x hx
    · exact h'.size x hx
  · rw [gated_append, ← h.time]
    refine ⟨h.gated, ?_⟩
    rw [← h.space]
    exact h'.gated
  · rw [lastTime_append, ← h.time]
    exact h'.time

/-- A status that no longer matters to reading. -/
theorem Passes.status (h : Passes t F clock s l s') (st : STATUS) :
    Passes t F clock s l {s' with mStatus := st} :=
  ⟨⟨h.calm.ok, h.calm.pos, h.calm.last⟩, h.received, h.fed, h.size, h.gated, h.time, h.space,
    h.looper, h.handler⟩

/-- What is taken fits into the room there is. -/
theorem UART0_Recv_length (x : Line) (n : ℕ) : (UART0_Recv x n).2.length ≤ n := by
  unfold UART0_Recv
  split
  · exact Nat.zero_le n
  · cases x.waiting with
    | none => exact Nat.zero_le n
    | some w => exact List.length_take_le n w

/-- A result of 0 or less takes nothing. -/
theorem UART0_Recv_none {x : Line} {n : ℕ} (h : (UART0_Recv x n).1 ≤ 0) :
    (UART0_Recv x n).2 = [] := by
  unfold UART0_Recv at h ⊢
  split at h
  · next hsel => rw [if_pos hsel]
  · next hsel =>
    rw [if_neg hsel]
    cases hw : x.waiting with
    | none => rfl
    | some w =>
      rw [hw] at h
      have hlen : ((w.take n).length : ℤ) ≤ 0 := h
      have hzero : (w.take n).length = 0 := by omega
      exact List.length_eq_zero_iff.mp hzero

/-- Bytes stored in an empty buffer are the unread ones. -/
theorem unread_store {b : SockBuf} (hp : b.pos = 0) (hl : b.last = 0) {w : List UInt8}
    (hw : w.length ≤ len4K) : unread (b.store w) = w := by
  have hroom : b.room w = w := by
    unfold SockBuf.room SockBuf.free
    rw [hl]
    exact List.take_of_length_le hw
  unfold unread SockBuf.store
  dsimp only
  rw [hroom, hp, hl, List.drop_zero, Nat.zero_add, Nat.sub_zero]
  unfold BuffData.overwrite
  rw [List.take_zero, List.nil_append, List.take_left]

/-- Feeding what was stored in an empty buffer. -/
theorem onRecvData_feeds (hF : framing t = some F) (hs : Calm t F s) (clock : ℕ → ℤ)
    {w : List UInt8} (hw : w.length ≤ len4K) :
    ∃ u k es, onRecvData t clock {s with mRSBuf := s.mRSBuf.store w} =
        some ({s with uart := u, mRSBuf := (s.mRSBuf.store w).reset}, k, [.fed w es]) ∧ 0 ≤ k ∧
      u.Ok t F ∧ receive t clock s.uart [w] = some (u, es) := by
  obtain ⟨u, offset, es, hcall, hrec⟩ := onUartData_received hF clock hs.ok w
  have hun := unread_store hs.pos hs.last hw
  refine ⟨u, (u.mRecvCount : ℤ) - s.uart.mRecvCount, es, ?_, ?_, hrec.ok, ?_⟩
  · unfold onRecvData
    dsimp only
    rw [hun, hcall]
    rfl
  · have hcount := hrec.deals.count
    omega
  · simp only [receive, hcall, Option.bind_eq_bind, Option.bind_some, Option.pure_def,
      List.append_nil]

/-- A reading that takes bytes and feeds them. -/
theorem Passes.read {x : Line} {w : List UInt8} {u : Receiver}
    {es : List RecvEvent} (hw : w.length ≤ len4K)
    (hok : u.Ok t F) (hrec : receive t clock s.uart [w] = some (u, es))
    (hgate : s.mRecvSpace ≤ x.tick - s.mLastRecvTime) :
    Passes t F clock s [.taken x.tick w, .fed w es]
      {s with uart := u, mRSBuf := (s.mRSBuf.store w).reset, mLastRecvTime := x.tick} := by
  refine ⟨⟨hok, rfl, rfl⟩, ?_, rfl, ?_, ⟨hgate, trivial⟩, rfl, rfl, rfl, rfl⟩
  · have hes : packets [.taken x.tick w, .fed w es] = es := List.append_nil es
    rw [hes]
    exact hrec
  · intro y hy
    rw [List.mem_singleton.mp hy]
    exact hw

/-- A reading that takes nothing. -/
theorem Passes.miss (hs : Calm t F s) {x : Line}
    (hgate : s.mRecvSpace ≤ x.tick - s.mLastRecvTime) :
    Passes t F clock s [.taken x.tick []] {s with mLastRecvTime := x.tick} := by
  refine ⟨⟨hs.ok, hs.pos, hs.last⟩, rfl, rfl, ?_, ⟨hgate, trivial⟩, rfl, rfl, rfl, rfl⟩
  intro y hy
  rw [List.mem_singleton.mp hy]
  exact Nat.zero_le _

/-- Feeding nothing changes nothing that is seen. -/
theorem Passes.closed (hF : framing t = some F) (hs : Calm t F s) (clock : ℕ → ℤ) :
    ∃ s' n fed, onRecvData t clock s = some (s', n, fed) ∧ 0 ≤ n ∧ Passes t F clock s fed s' := by
  obtain ⟨u, offset, es, hcall, hrec⟩ := onUartData_received hF clock hs.ok []
  have hun : unread s.mRSBuf = [] := by
    unfold unread
    rw [hs.pos, hs.last]
    rfl
  refine ⟨{s with uart := u, mRSBuf := s.mRSBuf.reset}, (u.mRecvCount : ℤ) - s.uart.mRecvCount,
    [.fed [] es], ?_, ?_, ?_⟩
  · unfold onRecvData
    rw [hun, hcall]
    rfl
  · have hcount := hrec.deals.count
    omega
  · refine ⟨⟨hrec.ok, rfl, rfl⟩, ?_, rfl, fun x hx => (by cases hx), trivial, rfl, rfl, rfl, rfl⟩
    have hes : packets [.fed [] es] = es := List.append_nil es
    rw [hes]
    simp only [feeds, receive, hcall, Option.bind_eq_bind, Option.bind_some, Option.pure_def,
      List.append_nil]

/-- One turn of the loop, up to the decision whether to go on. -/
theorem turn (hF : framing t = some F) (hs : Calm t F s) (clock : ℕ → ℤ) (x : Line) :
    ∃ s₁ n seen, readData s x = (s₁, n, seen) ∧
      (n ≤ 0 → Passes t F clock s seen s₁) ∧
      (0 < n → ∃ s₂ k fed, onRecvData t clock s₁ = some (s₂, k, fed) ∧ 0 ≤ k ∧
        Passes t F clock s (seen ++ fed) s₂) := by
  unfold readData
  by_cases hgate : x.tick - s.mLastRecvTime < s.mRecvSpace
  · rw [if_pos hgate]
    exact ⟨s, 1, [], rfl, fun hn => by omega, fun _ => Passes.closed hF hs clock⟩
  · rw [if_neg hgate]
    dsimp only
    have hopen : s.mRecvSpace ≤ x.tick - s.mLastRecvTime := by omega
    by_cases hgot : 0 < (UART0_Recv x s.mRSBuf.free).1
    · rw [if_pos hgot]
      have hlen : (UART0_Recv x s.mRSBuf.free).2.length ≤ len4K :=
        (UART0_Recv_length x _).trans (Nat.sub_le _ _)
      refine ⟨_, _, _, rfl, fun hn => by omega, fun _ => ?_⟩
      have hs₁ : Calm t F {s with mLastRecvTime := x.tick} := ⟨hs.ok, hs.pos, hs.last⟩
      obtain ⟨u, k, es, hfeed, hk, hok, hrec⟩ := onRecvData_feeds hF hs₁ clock hlen
      exact ⟨_, _, _, hfeed, hk, Passes.read hlen hok hrec hopen⟩
    · rw [if_neg hgot]
      have hnil := UART0_Recv_none (not_lt.mp hgot)
      refine ⟨_, _, _, rfl, fun _ => ?_, fun hn => by omega⟩
      rw [hnil]
      exact Passes.miss hs hopen

/-- The loop of a readable line. -/
theorem handleEvent_passes (hF : framing t = some F) (hs : Calm t F s) (clock : ℕ → ℤ)
    (xs : List Line) :
    ∃ s' l, handleEvent t clock s xs = some (s', l) ∧ Passes t F clock s l s' := by
  induction xs generalizing s with
  | nil => exact ⟨s, [], rfl, Passes.refl hs⟩
  | cons x xs ih =>
    obtain ⟨s₁, n, seen, hread, hmiss, hgot⟩ := turn hF hs clock x
    rw [handleEvent]
    simp only [hread]
    by_cases hn : n ≤ 0
    · simp only [if_pos hn]
      split
      · exact ⟨_, _, rfl, (hmiss hn).status _⟩
      · exact ⟨_, _, rfl, hmiss hn⟩
    · obtain ⟨s₂, k, fed, hfeed, hk, hpass⟩ := hgot (not_le.mp hn)
      simp only [if_neg hn, hfeed, Option.bind_eq_bind, Option.bind_some, if_neg (not_lt.mpr hk)]
      split
      · exact ⟨_, _, rfl, hpass⟩
      · split
        · exact ⟨_, _, rfl, hpass⟩
        · obtain ⟨s', l, hmore, hpass'⟩ := ih hpass.calm
          rw [hmore]
          exact ⟨s', _, rfl, hpass.append hpass'⟩

/-- A poll that comes in time reads once. -/
theorem handleEvents_passes (hF : framing t = some F) (hs : Calm t F s) (clock : ℕ → ℤ)
    {x : Line} (hgate : s.mRecvSpace ≤ x.tick - s.mLastRecvTime) :
    ∃ s' l, handleEvents t clock {s with mLastRecvTime := x.tick} x = some (s', l) ∧
      Passes t F clock s l s' := by
  unfold handleEvents
  dsimp only
  by_cases hgot : 0 < (UART0_Recv x s.mRSBuf.free).1
  · rw [if_pos hgot]
    have hlen : (UART0_Recv x s.mRSBuf.free).2.length ≤ len4K :=
      (UART0_Recv_length x _).trans (Nat.sub_le _ _)
    have hs₁ : Calm t F {s with mLastRecvTime := x.tick} := ⟨hs.ok, hs.pos, hs.last⟩
    obtain ⟨u, k, es, hfeed, -, hok, hrec⟩ := onRecvData_feeds hF hs₁ clock hlen
    rw [hfeed]
    exact ⟨_, _, rfl, Passes.read hlen hok hrec hgate⟩
  · rw [if_neg hgot]
    have hnil := UART0_Recv_none (not_lt.mp hgot)
    refine ⟨_, _, rfl, ?_⟩
    rw [hnil]
    exact Passes.miss hs hgate

/-- Every happening passes on what it takes. -/
theorem step_passes (hF : framing t = some F) (hs : Calm t F s) (clock : ℕ → ℤ) (op : Op) :
    ∃ s' l, step t clock s op = some (s', l) ∧ Passes t F clock s l s' := by
  cases op with
  | handleEvent xs => exact handleEvent_passes hF hs clock xs
  | poll x =>
    rw [step]
    unfold checkEvents
    by_cases hgate : s.mRecvSpace ≤ x.tick - s.mLastRecvTime
    · rw [if_pos hgate]
      exact handleEvents_passes hF hs clock hgate
    · rw [if_neg hgate]
      exact ⟨s, [], rfl, Passes.refl hs⟩
  | sendTrans now =>
    exact ⟨_, _, rfl, ⟨hs.ok, hs.pos, hs.last⟩, rfl, rfl, fun x hx => (by cases hx), trivial, rfl,
      rfl, rfl, rfl⟩

/-- Every run of a calm port passes the bytes on. -/
theorem run_passes (hF : framing t = some F) (hs : Calm t F s) (clock : ℕ → ℤ) (ops : List Op) :
    ∃ s' l, run t clock s ops = some (s', l) ∧ Passes t F clock s l s' := by
  induction ops generalizing s with
  | nil => exact ⟨s, [], rfl, Passes.refl hs⟩
  | cons op ops ih =>
    obtain ⟨s₁, l, hstep, hpass⟩ := step_passes hF hs clock op
    obtain ⟨s', m, hrun, hpass'⟩ := ih hpass.calm
    refine ⟨s', l ++ m, ?_, hpass.append hpass'⟩
    simp only [run, hstep, hrun, Option.bind_eq_bind, Option.bind_some, Option.pure_def]

/-! ## From construction on -/

/-- Old data leaves the receive buffer empty. -/
theorem giveUp_empty (b : SockBuf) (xs : List Line) :
    (giveUp b xs).pos = b.pos ∧ (giveUp b xs).last = b.last := by
  induction xs generalizing b with
  | nil => exact ⟨rfl, rfl⟩
  | cons x xs ih =>
    rw [giveUp]
    dsimp only
    split
    · exact ih _
    · exact ⟨rfl, rfl⟩

/-- What a successful `init` leaves of a new client. -/
theorem init_calm {uptime recv_space uart_fd : ℤ} {result : Bool} {old : List Line}
    {port : SerialPort} (h : init (create t uptime recv_space) uart_fd result old = (port, 0)) :
    port.uart = newReceiver t ∧ port.mRSBuf.pos = 0 ∧ port.mRSBuf.last = 0 ∧
      port.mLastRecvTime = uptime + 5000 ∧ port.mRecvSpace = recv_space ∧
      (port.looper = true → recv_space ≤ 10) ∧
      (port.handler = true → RECV_PACKET_TIME_SPACE ≤ recv_space) := by
  obtain ⟨hpos, hlast⟩ := giveUp_empty SockBuf.new old
  unfold init at h
  split at h
  · cases h
  · split at h
    · cases h
    · dsimp only at h
      split at h
      · cases h
        exact ⟨rfl, hpos, hlast, rfl, rfl, fun hl => of_decide_eq_true hl,
          fun hh => by cases hh⟩
      · next hspace =>
        cases h
        exact ⟨rfl, hpos, hlast, rfl, rfl, fun hl => (by cases hl), fun _ => not_lt.mp hspace⟩

/-- A client that nothing calls takes nothing. -/
theorem run_unregistered {ops : List Op} (h : ∀ op ∈ ops, ∃ now, op = .sendTrans now)
    (hr : run t clock s ops = some (s', l)) : takes l = [] := by
  induction ops generalizing s l with
  | nil =>
    cases hr
    rfl
  | cons op ops ih =>
    obtain ⟨now, rfl⟩ := h op List.mem_cons_self
    obtain ⟨⟨s₁, l₁⟩, hrest, hr⟩ := Option.bind_eq_some_iff.mp hr
    cases hr
    have hnone := ih (fun op hop => h op (List.mem_cons_of_mem _ hop)) hrest
    exact hnone

/-- From a successful `init` on, whatever the line and the clocks do: the bytes
taken from the line reach the packet receiver once each and in order, and
nothing is left in between. So the frames delivered are disjoint blocks of
these bytes. The line is read at least `recv_space` after the last attempt or
transmission, at first 5 seconds later, and never for a space of 11 to 49. -/
theorem line_passes_in_order (ht : t = .mcu ∨ t = .tuyaMcu) (clock : ℕ → ℤ)
    {uptime recv_space uart_fd : ℤ} {result : Bool} {old : List Line} {port : SerialPort}
    (hinit : init (create t uptime recv_space) uart_fd result old = (port, 0)) {ops : List Op}
    (hreg : ∀ op ∈ ops, Registered port op) :
    ∃ s' seen, run t clock port ops = some (s', seen) ∧
      receive t clock (newReceiver t) (feeds seen) = some (s'.uart, packets seen) ∧
      (feeds seen).flatten = (takes seen).flatten ∧ s'.mRSBuf.last = s'.mRSBuf.pos ∧
      Blocks (validFrames t (packets seen)) (takes seen).flatten ∧
      Gated recv_space (uptime + 5000) seen ∧
      (10 < recv_space → recv_space < RECV_PACKET_TIME_SPACE → takes seen = []) := by
  obtain ⟨F, hF⟩ := framing_exists ht
  obtain ⟨huart, hpos, hlast, htime, hspace, hlooper, hhandler⟩ := init_calm hinit
  have hidle := newReceiver_idle t
  have hcalm : Calm t F port := ⟨by rw [huart]; exact hidle.ok F, hpos, hlast⟩
  obtain ⟨s', seen, hrun, hpass⟩ := run_passes hF hcalm clock ops
  have hrec := hpass.received
  have hgated := hpass.gated
  rw [huart] at hrec
  rw [hspace, htime] at hgated
  obtain ⟨u, es, hrec', -, hframed, hdeals⟩ := receive_run hF clock (hidle.ok F) (feeds seen)
  rw [hrec] at hrec'
  cases hrec'
  refine ⟨s', seen, hrun, hrec, hpass.fed, ?_, ?_, hgated, fun hlow hhigh => ?_⟩
  · rw [hpass.calm.pos, hpass.calm.last]
  · have hblocks := hframed.accepted_blocks verified
    rw [hidle.content, List.nil_append, ← validFrames_eq (hdeals.valid hF), hpass.fed] at hblocks
    exact hblocks
  · refine run_unregistered (fun op hop => ?_) hrun
    have hop' := hreg op hop
    cases op with
    | handleEvent xs => exact absurd (hlooper hop') (by omega)
    | poll x => exact absurd (hhandler hop') (by omega)
    | sendTrans now => exact ⟨now, rfl⟩

/-- A client on which a readable line is left alone until the first
transmission. -/
def firstCommand : List Op :=
  [.handleEvent [⟨100, 1, some [2, 16], 0⟩], .sendTrans 300,
    .handleEvent [⟨310, 1, some [2, 16], 0⟩]]

/-- The bytes of the first command pass in order. -/
theorem line_passes_in_order_firstCommand :
    ∃ port s' seen, init (create .mcu 0 0) 3 true [] = (port, 0) ∧
      run .mcu (fun _ => 0) port firstCommand = some (s', seen) ∧
      Gated 0 5000 seen ∧ (feeds seen).flatten = (takes seen).flatten := by
  have hinit : init (create .mcu 0 0) 3 true [] = ((init (create .mcu 0 0) 3 true []).1, 0) := rfl
  have hreg : ∀ op ∈ firstCommand, Registered (init (create .mcu 0 0) 3 true []).1 op := by
    intro op hop
    rcases List.mem_cons.mp hop with rfl | hop
    · rfl
    · rcases List.mem_cons.mp hop with rfl | hop
      · trivial
      · rw [List.mem_singleton.mp hop]
        rfl
  obtain ⟨s', seen, hrun, -, hfed, -, -, hgated, -⟩ :=
    line_passes_in_order (Or.inl rfl) (fun _ => 0) hinit hreg
  exact ⟨_, s', seen, hinit, hrun, hgated, hfed⟩

end CdroidDemo.SerialReads
