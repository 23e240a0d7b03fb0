import CdroidDemo.ClientConnection
import CdroidDemo.SerialClient
import CdroidDemo.SerialReads
import CdroidDemo.SizedMessages
import CdroidDemo.StepRuns
import Mathlib.Data.List.Chain

/-!
# The serial line behind a socket

In a debug build the client reaches the serial line through a TCP connection:
it asks the other side to open the line whenever it has connected, wraps the
packets of its queue, and sends a heartbeat when nothing has gone on for a
while. What is received are the bytes of the line. Multi-byte fields are sent
with their low byte first.
-/

namespace CdroidDemo.SocketBridge

open Descriptors PacketMemory PacketBuffer BufferPool TcpClient ClientConnection
open SerialClient SerialReads SizedMessages

/-! ## Messages -/

/-- The bytes of a number in memory, low byte first. -/
def le : ℕ → ℕ → List UInt8
  | 0, _ => []
  | n + 1, x => UInt8.ofNat x :: le n (x / 256)

/-- `UartOpenReq`. -/
structure UartOpenReq where
  /-- The name of the port. -/
  serialPort : List UInt8
  /-- The speed. -/
  speed : UInt32
  /-- The flow control. -/
  flow_ctrl : UInt8
  /-- The data bits. -/
  databits : UInt8
  /-- The stop bits. -/
  stopbits : UInt8
  /-- The parity. -/
  parity : UInt8
  /-- `UART_PORT_LEN`. -/
  serialPort_length : serialPort.length = 16

/-- The packed request. -/
def UartOpenReq.packed (r : UartOpenReq) : List UInt8 :=
  r.serialPort ++ le 4 r.speed.toNat ++ [r.flow_ctrl, r.databits, r.stopbits, r.parity]

/-- `UartHeader` in front of its data. -/
def message (mcmd scmd : UInt8) (data : List UInt8) : List UInt8 × List UInt8 :=
  (le 2 (4 + data.length) ++ [mcmd, scmd], data)

/-- The message of `sendConn`. -/
def openReq (r : UartOpenReq) : List UInt8 × List UInt8 := message 1 1 r.packed

/-- The message of `sendTrans`. -/
def dataTrans (frame : List UInt8) : List UInt8 × List UInt8 := message 2 1 frame

/-- The message of `sendHeart`. -/
def heartAsk (tt : ℤ) : List UInt8 × List UInt8 := message 2 2 (le 8 (BitVec.ofInt 64 tt).toNat)

/-- The size of the data, as the other side finds it in a `UartHeader`. -/
def dataLen (head : List UInt8) : ℕ :=
  (head.getD 0 0).toNat + 256 * (head.getD 1 0).toNat - 4

/-! ## The client -/

/-- `HEART_TIME`. -/
def HEART_TIME : ℤ := 5000

/-- `UartClient` of a debug build. -/
structure Bridge where
  /-- The connection. -/
  sock : SocketClient
  /-- The queue and the receiver. -/
  uart : UartClient
  /-- The request to open the port. -/
  mUartInfo : UartOpenReq
  /-- When a heartbeat was sent last. -/
  mLastSndHeart : ℤ
  /-- What `mPacketBuff` points to. -/
  buff : SDHWPacketBuffer
  /-- The descriptors of the process. -/
  table : Table ℤ

/-- What is seen of the client. -/
inductive Event
  /-- A connection was made. -/
  | connected (fd : ℤ)
  /-- It was lost. -/
  | lost
  /-- A message was handed to `send`. -/
  | handed (fd : ℤ) (time : ℤ) (m : List UInt8 × List UInt8)
  /-- A packet has left the queue, on a connection or without one. -/
  | drained (frame : List UInt8) (isConn : Bool)

namespace Bridge

/-- `isConn` of the socket. -/
def isConn (s : Bridge) : Bool := s.sock.toClient.isConn

/-- `sendData` of a whole message. -/
def sendMessage (s : Bridge) (time : ℤ) (m : List UInt8 × List UInt8) : Bridge × List Event :=
  let r := s.sock.toClient.sendData time (bytes m)
  ({ s with sock := { s.sock with toClient := r.1 } },
    (r.2.map fun out => .handed out.1 time m).toList)

/-- The readings of the uptime clock during a tick, and what the calls of the
socket meet. -/
structure TickCalls where
  /-- The clock at the start. -/
  nowTick : ℤ
  /-- What the calls of the socket meet. -/
  calls : Calls
  /-- In `sendConn`. -/
  connTime : ℤ
  /-- In `isTimeout`. -/
  heartTime : ℤ
  /-- `tt` of `sendHeart`. -/
  heartTick : ℤ
  /-- In `sendHeart`. -/
  heartSend : ℤ
  /-- In `sendTrans`. -/
  transSend : ℤ

/-- The client behind `SocketClient::onTick`, but for the status callback of the
class. -/
def ticked (s : Bridge) (k : TickCalls) : Bridge :=
  { s with
    sock := (s.sock.onTick s.table k.calls).1
    table := (s.sock.onTick s.table k.calls).2 }

/-- `SocketClient::onTick`. When `setFd` has made a connection, the status
callback asks to open the line. -/
def tickSocket (s : Bridge) (k : TickCalls) : Bridge × List Event :=
  match s.isConn, (s.ticked k).isConn with
  | false, true =>
    let r := (s.ticked k).sendMessage k.connTime (openReq s.mUartInfo)
    (r.1, .connected (s.ticked k).sock.mFd :: r.2)
  | true, false => (s.ticked k, [.lost])
  | _, _ => (s.ticked k, [])

/-- The heartbeat of a tick. -/
def tickHeart (s : Bridge) (k : TickCalls) : Bridge × List Event :=
  if HEART_TIME ≤ k.nowTick - s.mLastSndHeart ∧
      s.sock.toClient.isTimeout HEART_TIME k.heartTime = true then
    { s with mLastSndHeart := k.nowTick }.sendMessage k.heartSend (heartAsk k.heartTick)
  else (s, [])

/-- The queue in a tick. A packet beyond the buffer of `sendTrans` would be
written behind its end. -/
def tickQueue (s : Bridge) (k : TickCalls) : Option (Bridge × List Event) := do
  let (buff, uart, out) ← UartClient.onTick s.buff s.uart k.nowTick
  let s := { s with buff, uart }
  match out with
  | none => return (s, [])
  | some (_, frame) =>
    if 4 + frame.length ≤ len4K then
      let r := s.sendMessage k.transSend (dataTrans frame)
      return (r.1, .drained frame s.isConn :: r.2)
    else none

/-- `onTick`. -/
def onTick (s : Bridge) (k : TickCalls) : Option (Bridge × List Event) := do
  let (s, es₁) := s.tickSocket k
  let (s, es₂) := s.tickHeart k
  let (s, es₃) ← s.tickQueue k
  return (s, es₁ ++ es₂ ++ es₃)

/-- `send`. -/
def send (s : Bridge) (ask : ℕ) : Option (Bridge × ℤ) := do
  let (buff, uart, r) ← UartClient.send s.buff { s.uart with isConn := s.isConn } ask
  return ({ s with buff, uart }, r)

/-- The read loop of `handleEvent`, with the answers of `recv`, and whether it
finds the connection lost. -/
def readLoop (clock : ℕ → ℤ) (s : Bridge) : List Recv → Option (Bridge × Bool)
  | [] => some (s, false)
  | r :: answers => do
    let freeLen := s.sock.mRSBuf.free
    let got := s.sock.toClient.recv r
    if got = [] then return (s, decide (s.sock.toClient.recvErrno r = ENOENT))
    else
      let c := s.sock.toClient.readData r
      let (buff, uart, _, _) ← UartClient.onUartData s.buff s.uart clock (unread c.mRSBuf)
      let dealCount := uart.mRecvCount - s.uart.mRecvCount
      let s := { s with
        buff, uart, sock := { s.sock with toClient := { c with mRSBuf := c.mRSBuf.reset } } }
      if got.length < freeLen then return (s, false)
      else if 0 < dealCount then return (s, false)
      else readLoop clock s answers

/-- `handleEvent` for a readable socket. -/
def handleEvent (clock : ℕ → ℤ) (s : Bridge) (answers : List Recv) :
    Option (Bridge × List Event) := do
  let (new, lost) ← s.readLoop clock answers
  if lost then
    let (sock, table) := SocketClient.onStatusChange
      { new.sock with toClient := { new.sock.toClient with mStatus := .disconnect } } new.table
    return ({ new with sock, table }, if s.isConn then [.lost] else [])
  else return (new, [])

/-- The constructor and `init`, on two buffers of the pool. -/
def create (buff : SDHWPacketBuffer) (last curr : ℕ) (mUartInfo : UartOpenReq) (rcv snd : ℤ)
    (ip : String) (port : UInt16) (uptime : ℤ) : Bridge where
  sock := (SocketClient.create rcv snd).init (some ip) port
  uart := UartClient.created last curr
  mUartInfo := mUartInfo
  mLastSndHeart := uptime
  buff := buff
  table := Table.empty

end Bridge

/-- What happens to the client. -/
inductive Op
  /-- A tick. -/
  | onTick (k : Bridge.TickCalls)
  /-- A packet is queued. -/
  | send (ask : ℕ)
  /-- Answers of the other side come in. -/
  | handleEvent (clock : ℕ → ℤ) (answers : List Recv)
  /-- Other users of the packet buffer. -/
  | others (buff : SDHWPacketBuffer)

/-- One happening. -/
def step (s : Bridge) : Op → Option (Bridge × List Event)
  | .onTick k => s.onTick k
  | .send ask => (s.send ask).map fun r => (r.1, [])
  | .handleEvent clock answers => s.handleEvent clock answers
  | .others buff => some ({ s with buff }, [])

/-- Happenings in order. -/
def run (s : Bridge) : List Op → Option (Bridge × List Event)
  | [] => some (s, [])
  | op :: ops => do
    let (s, es) ← step s op
    let (s, more) ← run s ops
    return (s, es ++ more)

/-! ## What the other side hears -/

/-- A connection, and the messages on it with their times. -/
structure Talk where
  /-- The descriptor of the connection. -/
  fd : ℤ
  /-- The messages on it, with their times. -/
  sent : List (ℤ × (List UInt8 × List UInt8))

/-- The connections, the newest first, and whether it is open. -/
structure Log where
  /-- The connections, the newest first. -/
  talks : List Talk
  /-- The newest is open. -/
  online : Bool

/-- Connections follow one another, and messages go to the one that is open. -/
def hear (l : Log) : Event → Option Log
  | .connected fd => if l.online then none else some ⟨⟨fd, []⟩ :: l.talks, true⟩
  | .lost => if l.online then some { l with online := false } else none
  | .handed fd time m =>
    match l.online, l.talks with
    | true, t :: ts =>
      if t.fd = fd then some ⟨{ t with sent := t.sent ++ [(time, m)] } :: ts, true⟩ else none
    | _, _ => none
  | .drained _ _ => some l

/-- Messages behind the request to open the line. -/
def Later (m : List UInt8 × List UInt8) : Prop :=
  (∃ frame, 4 + frame.length ≤ len4K ∧ m = dataTrans frame) ∨ ∃ tt, m = heartAsk tt

/-- A connection begins with the request to open the line, and no two messages
on it are more than `d` apart. -/
structure Orderly (r : UartOpenReq) (d : ℤ) (t : Talk) : Prop where
  /-- The first message opens the port, and it comes once. -/
  opened : ∃ time rest, t.sent = (time, openReq r) :: rest ∧ ∀ m ∈ rest, Later m.2
  /-- The messages follow each other in time. -/
  gaps : t.sent.IsChain fun a b => b.1 - a.1 ≤ d

/-- The readings of a tick that starts at `x` or later and is over at `x + g`. -/
structure Timely (g x : ℤ) (k : Bridge.TickCalls) : Prop where
  /-- The tick starts after `x`. -/
  start : x ≤ k.nowTick
  /-- The connect is in time. -/
  conn : k.nowTick ≤ k.connTime ∧ k.connTime ≤ x + g
  /-- The clock of the check is later than the start. -/
  check : k.nowTick ≤ k.heartTime
  /-- The heartbeat is in time. -/
  heart : k.nowTick ≤ k.heartSend ∧ k.heartSend ≤ x + g
  /-- The transmission is in time. -/
  trans : k.nowTick ≤ k.transSend ∧ k.transSend ≤ x + g

/-- Each tick is over at most `g` after the start of the one before. -/
def Ticking (g : ℤ) : ℤ → List Op → Prop
  | _, [] => True
  | x, .onTick k :: ops => Timely g x k ∧ Ticking g k.nowTick ops
  | x, _ :: ops => Ticking g x ops

/-- The start of the last tick. -/
def lastTick : ℤ → List Op → ℤ
  | x, [] => x
  | _, .onTick k :: ops => lastTick k.nowTick ops
  | x, _ :: ops => lastTick x ops

/-- What goes through a connection. -/
def Talk.stream (t : Talk) : List UInt8 := t.sent.flatMap fun m => bytes m.2

/-- The packets among messages. -/
def frames (ms : List (List UInt8 × List UInt8)) : List (List UInt8) :=
  (ms.filter fun m => m.1.drop 2 = [2, 1]).map Prod.snd

/-- The packets of a connection. -/
def Talk.packets (t : Talk) : List (List UInt8) := frames (t.sent.map Prod.snd)

/-- The packets that have left the queue on a connection. -/
def taken (es : List Event) : List (List UInt8) :=
  es.filterMap fun
    | .drained frame true => some frame
    | _ => none

/-- The packets that have been handed over. -/
def carried (es : List Event) : List (List UInt8) :=
  frames <| es.filterMap fun
    | .handed _ _ m => some m
    | _ => none

/-- The client has been heard up to here, and `x` is not long after its last
message. -/
structure Heard (r : UartOpenReq) (g x : ℤ) (s : Bridge) (l : Log) : Prop where
  /-- The request to open the port is `r`. -/
  info : s.mUartInfo = r
  /-- The log says whether the client is connected. -/
  online : l.online = s.isConn
  /-- Every connection was orderly. -/
  orderly : ∀ t ∈ l.talks, Orderly r (HEART_TIME + g) t
  /-- The last heartbeat is in the past. -/
  heart : s.mLastSndHeart ≤ x
  /-- The open connection is the newest, and its last message is not old. -/
  current : s.isConn = true → ∃ t ts m, l.talks = t :: ts ∧ t.fd = s.sock.mFd ∧
    t.sent.getLast? = some (s.sock.mLastSndTime, m) ∧ s.mLastSndHeart ≤ s.sock.mLastSndTime ∧
    x - s.sock.mLastSndTime ≤ HEART_TIME

section Steps

variable {r : UartOpenReq} {g x : ℤ} {s s' : Bridge} {l : Log}

/-- What concerns neither the connection nor the times of sending. -/
structure SameTalk (s s' : Bridge) : Prop where
  /-- The request to open the port stays. -/
  info : s'.mUartInfo = s.mUartInfo
  /-- The client stays connected or not. -/
  conn : s'.isConn = s.isConn
  /-- Its descriptor stays. -/
  fd : s'.sock.mFd = s.sock.mFd
  /-- The time of its last message stays. -/
  snd : s'.sock.mLastSndTime = s.sock.mLastSndTime
  /-- The time of the last heartbeat stays. -/
  heart : s'.mLastSndHeart = s.mLastSndHeart

/-- What is heard depends on the talk only. -/
theorem Heard.same (h : Heard r g x s l) (hs : SameTalk s s') : Heard r g x s' l := by
  refine ⟨hs.info.trans h.info, h.online.trans hs.conn.symm, h.orderly, ?_, fun hconn => ?_⟩
  · rw [hs.heart]
    exact h.heart
  · rw [hs.conn] at hconn
    rw [hs.fd, hs.snd, hs.heart]
    exact h.current hconn

/-- Without a connection only the heartbeat time matters. -/
theorem Heard.offline (h : Heard r g x s l) (hinfo : s'.mUartInfo = s.mUartInfo)
    (hconn : s'.isConn = false) (hheart : s'.mLastSndHeart ≤ x) :
    Heard r g x s' { l with online := false } :=
  ⟨hinfo.trans h.info, hconn.symm, h.orderly, hheart, fun hc => by simp [hconn] at hc⟩

/-- One more message in time keeps a talk orderly. -/
theorem Orderly.append {d : ℤ} {t : Talk} (h : Orderly r d t) {time last : ℤ}
    {m m' : List UInt8 × List UInt8} (hm : Later m) (hlast : t.sent.getLast? = some (last, m'))
    (hd : time - last ≤ d) : Orderly r d { t with sent := t.sent ++ [(time, m)] } := by
  obtain ⟨⟨first, rest, hsent, hrest⟩, hgaps⟩ := h
  refine ⟨⟨first, rest ++ [(time, m)], ?_, fun y hy => ?_⟩, ?_⟩
  · dsimp only
    rw [hsent, List.cons_append]
  · rcases List.mem_append.mp hy with hy | hy
    · exact hrest y hy
    · cases List.mem_singleton.mp hy
      exact hm
  · refine List.isChain_append.mpr ⟨hgaps, List.isChain_singleton _, fun y hy z hz => ?_⟩
    rw [hlast] at hy
    cases hy
    cases hz
    exact hd

/-- Nothing is handed over without a connection. -/
theorem sendMessage_offline (h : s.isConn = false) (time : ℤ) (m : List UInt8 × List UInt8) :
    s.sendMessage time m = (s, []) := by
  have hc : s.sock.toClient.isConn = false := h
  unfold Bridge.sendMessage Client.sendData
  rw [hc, if_neg Bool.false_ne_true]
  rfl

/-- With a connection the message is handed over and its time kept. -/
theorem sendMessage_online (h : s.isConn = true) (time : ℤ) (m : List UInt8 × List UInt8) :
    s.sendMessage time m =
      ({ s with sock := { s.sock with
          toClient := { s.sock.toClient with mLastSndTime := time } } },
        [.handed s.sock.mFd time m]) := by
  have hc : s.sock.toClient.isConn = true := h
  unfold Bridge.sendMessage Client.sendData
  rw [hc, if_pos rfl]
  rfl

/-- A message on the open connection, with the time of the last heartbeat. -/
theorem Heard.message (h : Heard r g x s l) {y beat time : ℤ} {m : List UInt8 × List UInt8}
    (hm : Later m) (hbeat : beat ≤ y) (hy : y ≤ time) (hg : time ≤ x + g) :
    ∃ l', StepRuns.run hear l ({ s with mLastSndHeart := beat }.sendMessage time m).2 = some l' ∧
      Heard r g y ({ s with mLastSndHeart := beat }.sendMessage time m).1 l' := by
  cases hconn : s.isConn with
  | false =>
    have hoff : ({ s with mLastSndHeart := beat } : Bridge).isConn = false := hconn
    rw [sendMessage_offline hoff]
    refine ⟨l, rfl, h.info, h.online, h.orderly, hbeat, fun hc => ?_⟩
    exact absurd (hconn.symm.trans hc) Bool.false_ne_true
  | true =>
    have hon : ({ s with mLastSndHeart := beat } : Bridge).isConn = true := hconn
    rw [sendMessage_online hon]
    obtain ⟨t, ts, m', htalks, hfd, hlast, hheart, hnear⟩ := h.current hconn
    have honline : l.online = true := h.online.trans hconn
    have hhear : hear l (.handed s.sock.mFd time m) =
        some ⟨{ t with sent := t.sent ++ [(time, m)] } :: ts, true⟩ := by
      unfold hear
      rw [honline, htalks]
      exact if_pos hfd
    refine ⟨_, StepRuns.run_cons hhear, h.info, hconn.symm, ?_, hbeat, fun _ => ?_⟩
    · intro u hu
      rcases List.mem_cons.mp hu with rfl | hu
      · have ht : Orderly r (HEART_TIME + g) t := h.orderly t (htalks ▸ List.mem_cons_self)
        exact ht.append hm hlast (by omega)
      · exact h.orderly u (htalks ▸ List.mem_cons_of_mem t hu)
    · refine ⟨_, ts, m, rfl, hfd, List.getLast?_concat, ?_, ?_⟩
      · exact hbeat.trans hy
      · dsimp only
        unfold HEART_TIME
        omega

/-- A lost connection is not connected. -/
theorem lost_isConn {sock : SocketClient} (h : sock.mStatus = .disconnect) (t : Table ℤ) :
    (sock.onStatusChange t).1.toClient.isConn = false := by
  have hst : (sock.onStatusChange t).1.mStatus = .disconnect := by
    simp only [SocketClient.onStatusChange, h, if_true]
    exact (Client.onStatusChange_lost h t).2.1
  rw [Bool.eq_false_iff]
  intro hc
  rw [Client.isConn_iff, hst] at hc
  cases hc

/-- A connected client that stays connected is left alone by its socket. -/
theorem onTick_sock {sock : SocketClient} {t : Table ℤ} {k : Calls}
    (h : sock.toClient.isConn = true) (h' : (sock.onTick t k).1.toClient.isConn = true) :
    (sock.onTick t k).1 = sock := by
  unfold SocketClient.onTick at h' ⊢
  split
  · rfl
  · next hi =>
    rw [if_neg hi, if_pos h] at h'
    split at h'
    · rw [lost_isConn rfl] at h'
      cases h'
    · next hto => rw [if_neg hto]

/-- A new connection starts with the request to open the line. -/
theorem Heard.connected {k : Bridge.TickCalls} (h : Heard r g x s l) (hold : s.isConn = false)
    (hconn : (s.ticked k).isConn = true) (hk : Timely g x k) :
    ∃ l', StepRuns.run hear l [.connected (s.ticked k).sock.mFd,
        .handed (s.ticked k).sock.mFd k.connTime (openReq s.mUartInfo)] = some l' ∧
      Heard r g x { s.ticked k with sock := { (s.ticked k).sock with
        toClient := { (s.ticked k).sock.toClient with mLastSndTime := k.connTime } } } l' := by
  have hstart := hk.start
  have hconnTime := hk.conn.1
  have hopen : hear l (.connected (s.ticked k).sock.mFd) =
      some ⟨⟨(s.ticked k).sock.mFd, []⟩ :: l.talks, true⟩ := by
    unfold hear
    rw [h.online.trans hold]
    rfl
  have hask : hear ⟨⟨(s.ticked k).sock.mFd, []⟩ :: l.talks, true⟩
      (.handed (s.ticked k).sock.mFd k.connTime (openReq s.mUartInfo)) =
      some ⟨⟨(s.ticked k).sock.mFd, [(k.connTime, openReq s.mUartInfo)]⟩ :: l.talks, true⟩ :=
    if_pos rfl
  refine ⟨_, (StepRuns.run_cons hopen).trans (StepRuns.run_cons hask), h.info, hconn.symm, ?_,
    h.heart, fun _ => ⟨_, l.talks, openReq s.mUartInfo, rfl, rfl, rfl, ?_, ?_⟩⟩
  · intro u hu
    rcases List.mem_cons.mp hu with rfl | hu
    · refine ⟨⟨k.connTime, [], ?_, fun m hm => absurd hm List.not_mem_nil⟩,
        List.isChain_singleton _⟩
      rw [h.info]
    · exact h.orderly u hu
  · exact h.heart.trans (hstart.trans hconnTime)
  · dsimp only
    unfold HEART_TIME
    omega

/-- A tick of the socket side is heard. -/
theorem tickSocket_heard {k : Bridge.TickCalls} (h : Heard r g x s l) (hk : Timely g x k) :
    ∃ l', StepRuns.run hear l (s.tickSocket k).2 = some l' ∧
      Heard r g x (s.tickSocket k).1 l' := by
  unfold Bridge.tickSocket
  cases hold : s.isConn with
  | false =>
    cases hconn : (s.ticked k).isConn with
    | false =>
      have hl : { l with online := false } = l := by rw [← h.online.trans hold]
      refine ⟨l, rfl, ?_⟩
      rw [← hl]
      exact h.offline rfl hconn h.heart
    | true =>
      dsimp only
      rw [sendMessage_online hconn]
      exact h.connected hold hconn hk
  | true =>
    cases hconn : (s.ticked k).isConn with
    | false =>
      have hlost : hear l .lost = some { l with online := false } :=
        if_pos (h.online.trans hold)
      exact ⟨_, StepRuns.run_cons hlost, h.offline rfl hconn h.heart⟩
    | true =>
      have hsock : (s.ticked k).sock = s.sock := onTick_sock hold hconn
      exact ⟨l, rfl, h.same ⟨rfl, hconn.trans hold.symm, by rw [hsock], by rw [hsock], rfl⟩⟩

/-- A client that has not timed out sent something lately. -/
theorem not_timeout {c : Client} {tt : ℤ} (h : ¬c.isTimeout HEART_TIME tt = true) :
    tt ≤ c.mLastSndTime + HEART_TIME := by
  have hpos : ¬HEART_TIME ≤ 0 := by decide
  unfold Client.isTimeout at h
  rw [if_neg hpos, Bool.or_eq_true, not_or, decide_eq_true_eq, decide_eq_true_eq] at h
  exact not_lt.mp h.2

/-- Behind the heartbeat the last message is not long before the tick. -/
theorem tickHeart_heard {k : Bridge.TickCalls} (h : Heard r g x s l) (hk : Timely g x k) :
    ∃ l', StepRuns.run hear l (s.tickHeart k).2 = some l' ∧
      Heard r g k.nowTick (s.tickHeart k).1 l' := by
  have hstart := hk.start
  have hbefore := h.heart
  unfold Bridge.tickHeart
  by_cases hsend : HEART_TIME ≤ k.nowTick - s.mLastSndHeart ∧
      s.sock.toClient.isTimeout HEART_TIME k.heartTime = true
  · rw [if_pos hsend]
    exact h.message (Or.inr ⟨k.heartTick, rfl⟩) (le_refl _) hk.heart.1 hk.heart.2
  · rw [if_neg hsend]
    refine ⟨l, rfl, h.info, h.online, h.orderly, hbefore.trans hstart, fun hconn => ?_⟩
    obtain ⟨t, ts, m, htalks, hfd, hlast, hheart, hnear⟩ := h.current hconn
    refine ⟨t, ts, m, htalks, hfd, hlast, hheart, ?_⟩
    dsimp only
    by_cases hlong : HEART_TIME ≤ k.nowTick - s.mLastSndHeart
    · have hin := not_timeout fun hto => hsend ⟨hlong, hto⟩
      have hcheck := hk.check
      omega
    · omega

/-- A tick of the queue is heard. -/
theorem tickQueue_heard {k : Bridge.TickCalls} {es : List Event}
    (h : Heard r g k.nowTick s l) (hk : Timely g x k) (hs : s.tickQueue k = some (s', es)) :
    ∃ l', StepRuns.run hear l es = some l' ∧ Heard r g k.nowTick s' l' := by
  have hstart := hk.start
  obtain ⟨htrans, hend⟩ := hk.trans
  unfold Bridge.tickQueue at hs
  obtain ⟨⟨buff, uart, out⟩, -, hs⟩ := Option.bind_eq_some_iff.mp hs
  have hsame : Heard r g k.nowTick { s with buff, uart } l := h.same ⟨rfl, rfl, rfl, rfl, rfl⟩
  cases out with
  | none =>
    cases hs
    exact ⟨l, rfl, hsame⟩
  | some sent =>
    obtain ⟨ask, frame⟩ := sent
    dsimp only at hs
    split at hs
    · next hfit =>
      cases hs
      obtain ⟨l', hl', hheard⟩ := hsame.message (Or.inl ⟨frame, hfit, rfl⟩) hsame.heart htrans
        (by omega)
      exact ⟨l', (StepRuns.run_cons rfl).trans hl', hheard⟩
    · cases hs

/-- A tick is heard. -/
theorem onTick_heard {k : Bridge.TickCalls} {es : List Event} (h : Heard r g x s l)
    (hk : Timely g x k) (hs : s.onTick k = some (s', es)) :
    ∃ l', StepRuns.run hear l es = some l' ∧ Heard r g k.nowTick s' l' := by
  obtain ⟨l₁, hl₁, h₁⟩ := tickSocket_heard h hk
  obtain ⟨l₂, hl₂, h₂⟩ := tickHeart_heard h₁ hk
  unfold Bridge.onTick at hs
  obtain ⟨⟨s₃, es₃⟩, hq, hs⟩ := Option.bind_eq_some_iff.mp hs
  obtain ⟨l₃, hl₃, h₃⟩ := tickQueue_heard h₂ hk hq
  cases hs
  refine ⟨l₃, ?_, h₃⟩
  change StepRuns.run hear l
    ((s.tickSocket k).2 ++ ((s.tickSocket k).1.tickHeart k).2 ++ es₃) = some l₃
  rw [StepRuns.run_append, StepRuns.run_append, hl₁, Option.bind_some, hl₂, Option.bind_some]
  exact hl₃

/-- Reading leaves the connection as it is. -/
theorem readLoop_same {clock : ℕ → ℤ} {answers : List Recv} {lost : Bool}
    (hs : s.readLoop clock answers = some (s', lost)) : SameTalk s s' := by
  induction answers generalizing s with
  | nil =>
    cases hs
    exact ⟨rfl, rfl, rfl, rfl, rfl⟩
  | cons a answers ih =>
    unfold Bridge.readLoop at hs
    dsimp only at hs
    split at hs
    · cases hs
      exact ⟨rfl, rfl, rfl, rfl, rfl⟩
    · obtain ⟨⟨buff, uart, offset, es⟩, -, hs⟩ := Option.bind_eq_some_iff.mp hs
      dsimp only at hs
      split at hs
      · cases hs
        exact ⟨rfl, rfl, rfl, rfl, rfl⟩
      · split at hs
        · cases hs
          exact ⟨rfl, rfl, rfl, rfl, rfl⟩
        · have hrest := ih hs
          exact ⟨hrest.info, hrest.conn, hrest.fd, hrest.snd, hrest.heart⟩

/-- An event of the socket is heard. -/
theorem handleEvent_heard {clock : ℕ → ℤ} {answers : List Recv} {es : List Event}
    (h : Heard r g x s l) (hs : s.handleEvent clock answers = some (s', es)) :
    ∃ l', StepRuns.run hear l es = some l' ∧ Heard r g x s' l' := by
  unfold Bridge.handleEvent at hs
  obtain ⟨⟨new, lost⟩, hread, hs⟩ := Option.bind_eq_some_iff.mp hs
  have hnew := h.same (readLoop_same hread)
  have hconn := (readLoop_same hread).conn
  cases lost with
  | false =>
    cases hs
    exact ⟨l, rfl, hnew⟩
  | true =>
    cases hs
    have hlostc : (SocketClient.onStatusChange { new.sock with
        toClient := { new.sock.toClient with mStatus := .disconnect } }
        new.table).1.toClient.isConn = false := @lost_isConn _ rfl _
    have hoff : Heard r g x { new with
        sock := (SocketClient.onStatusChange { new.sock with
          toClient := { new.sock.toClient with mStatus := .disconnect } } new.table).1
        table := (SocketClient.onStatusChange { new.sock with
          toClient := { new.sock.toClient with mStatus := .disconnect } } new.table).2 }
        { l with online := false } := hnew.offline rfl hlostc hnew.heart
    cases hold : s.isConn with
    | true =>
      have hlost : hear l .lost = some { l with online := false } :=
        if_pos (h.online.trans hold)
      exact ⟨_, StepRuns.run_cons hlost, hoff⟩
    | false =>
      have hl : { l with online := false } = l := by
        rw [← h.online.trans hold]
      rw [hl] at hoff
      exact ⟨l, rfl, hoff⟩

/-- Queueing a packet leaves the talk alone. -/
theorem send_same {ask : ℕ} {ret : ℤ} (hs : s.send ask = some (s', ret)) : SameTalk s s' := by
  unfold Bridge.send at hs
  obtain ⟨⟨buff, uart, ret'⟩, -, hs⟩ := Option.bind_eq_some_iff.mp hs
  cases hs
  exact ⟨rfl, rfl, rfl, rfl, rfl⟩

/-- Along a run the client is heard up to the last tick. -/
theorem run_heard {ops : List Op} {es : List Event} (h : Heard r g x s l) (hops : Ticking g x ops)
    (hs : run s ops = some (s', es)) :
    ∃ l', StepRuns.run hear l es = some l' ∧ Heard r g (lastTick x ops) s' l' := by
  induction ops generalizing x s l es with
  | nil =>
    cases hs
    exact ⟨l, rfl, h⟩
  | cons op ops ih =>
    unfold run at hs
    obtain ⟨⟨s₁, es₁⟩, hstep, hs⟩ := Option.bind_eq_some_iff.mp hs
    obtain ⟨⟨s₂, es₂⟩, hrest, hs⟩ := Option.bind_eq_some_iff.mp hs
    cases hs
    have happend : ∀ {l₁ l' : Log}, StepRuns.run hear l es₁ = some l₁ →
        StepRuns.run hear l₁ es₂ = some l' → StepRuns.run hear l (es₁ ++ es₂) = some l' := by
      intro l₁ l' hl₁ hl'
      rw [StepRuns.run_append, hl₁]
      exact hl'
    cases op with
    | onTick k =>
      obtain ⟨l₁, hl₁, h₁⟩ := onTick_heard h hops.1 hstep
      obtain ⟨l', hl', h'⟩ := ih h₁ hops.2 hrest
      exact ⟨l', happend hl₁ hl', h'⟩
    | send ask =>
      obtain ⟨⟨s₃, ret⟩, hsend, he⟩ := Option.map_eq_some_iff.mp hstep
      cases he
      exact ih (h.same (send_same hsend)) hops hrest
    | handleEvent clock answers =>
      obtain ⟨l₁, hl₁, h₁⟩ := handleEvent_heard h hstep
      obtain ⟨l', hl', h'⟩ := ih h₁ hops hrest
      exact ⟨l', happend hl₁ hl', h'⟩
    | others buff =>
      cases hstep
      have hsame : Heard r g x { s with buff } l := h.same ⟨rfl, rfl, rfl, rfl, rfl⟩
      exact ih hsame hops hrest

end Steps

/-! ## Reading the messages back -/

/-- A number is written in as many bytes as asked for. -/
theorem le_length (n x : ℕ) : (le n x).length = n := by
  induction n generalizing x with
  | zero => rfl
  | succ n ih => rw [le, List.length_cons, ih]

/-- A request to open the port takes 24 bytes. -/
theorem packed_length (r : UartOpenReq) : r.packed.length = 24 := by
  unfold UartOpenReq.packed
  rw [List.length_append, List.length_append, r.serialPort_length, le_length]
  rfl

/-- A message that fits a buffer announces its data. -/
theorem message_announces (mcmd scmd : UInt8) {data : List UInt8} (h : 4 + data.length ≤ len4K) :
    Announces 4 dataLen (message mcmd scmd data) := by
  have hsize : 4 + data.length < 65536 := lt_of_le_of_lt h (by decide)
  refine ⟨rfl, ?_⟩
  change (UInt8.ofNat (4 + data.length)).toNat +
    256 * (UInt8.ofNat ((4 + data.length) / 256)).toNat - 4 = data.length
  rw [UInt8.toNat_ofNat', UInt8.toNat_ofNat']
  omega

/-- A later message announces its length. -/
theorem Later.announces {m : List UInt8 × List UInt8} (h : Later m) : Announces 4 dataLen m := by
  rcases h with ⟨frame, hfit, rfl⟩ | ⟨tt, rfl⟩
  · exact message_announces 2 1 hfit
  · refine message_announces 2 2 ?_
    rw [le_length]
    decide

/-- The first message announces its length. -/
theorem openReq_announces (r : UartOpenReq) : Announces 4 dataLen (openReq r) := by
  refine message_announces 1 1 ?_
  rw [packed_length]
  decide

/-- An orderly connection is taken apart again by the sizes in its heads. -/
theorem Orderly.readBack {r : UartOpenReq} {d : ℤ} {t : Talk} (h : Orderly r d t) :
    takeAll 4 dataLen t.sent.length t.stream = (t.sent.map Prod.snd, []) := by
  obtain ⟨time, rest, hsent, hrest⟩ := h.opened
  have hall : ∀ m ∈ t.sent.map Prod.snd, Announces 4 dataLen m := by
    intro m hm
    obtain ⟨y, hy, rfl⟩ := List.mem_map.mp hm
    rw [hsent] at hy
    rcases List.mem_cons.mp hy with rfl | hy
    · exact openReq_announces r
    · exact (hrest y hy).announces
  have hback := takeAll_bytes hall []
  rw [List.append_nil, List.length_map, List.flatMap_map] at hback
  exact hback

/-! ## Packets on the connections -/

/-- The packets of two lists of messages. -/
theorem frames_append (ms ms' : List (List UInt8 × List UInt8)) :
    frames (ms ++ ms') = frames ms ++ frames ms' := by
  unfold frames
  rw [List.filter_append, List.map_append]

/-- The packets carried in two lists of events. -/
theorem carried_append (es es' : List Event) : carried (es ++ es') = carried es ++ carried es' := by
  unfold carried
  rw [List.filterMap_append, frames_append]

/-- The packets taken in two lists of events. -/
theorem taken_append (es es' : List Event) : taken (es ++ es') = taken es ++ taken es' :=
  List.filterMap_append

/-- A message handed over belongs to the talk at hand. -/
theorem hear_handed {l l' : Log} {fd time : ℤ} {m : List UInt8 × List UInt8}
    (h : hear l (.handed fd time m) = some l') :
    ∃ t ts, l.talks = t :: ts ∧ l' = ⟨{ t with sent := t.sent ++ [(time, m)] } :: ts, true⟩ := by
  obtain ⟨talks, online⟩ := l
  cases online with
  | false => cases h
  | true =>
    cases talks with
    | nil => cases h
    | cons t ts =>
      change (if t.fd = fd then _ else none) = some l' at h
      split at h
      · cases h
        exact ⟨t, ts, rfl, rfl⟩
      · cases h

/-- What is heard of an event is the packet it carries. -/
theorem hear_event {l l' : Log} {e : Event} (h : hear l e = some l') :
    l'.talks.reverse.flatMap Talk.packets =
      l.talks.reverse.flatMap Talk.packets ++ carried [e] := by
  cases e with
  | connected fd =>
    change (if l.online then none else some ⟨⟨fd, []⟩ :: l.talks, true⟩) = some l' at h
    split at h
    · cases h
    · cases h
      rw [List.reverse_cons, List.flatMap_append]
      rfl
  | lost =>
    change (if l.online then some { l with online := false } else none) = some l' at h
    split at h
    · cases h
      exact (List.append_nil _).symm
    · cases h
  | handed fd time m =>
    obtain ⟨t, ts, htalks, rfl⟩ := hear_handed h
    have hnew : ({ t with sent := t.sent ++ [(time, m)] } : Talk).packets =
        t.packets ++ frames [m] := by
      unfold Talk.packets
      rw [List.map_append, frames_append]
      rfl
    rw [htalks, List.reverse_cons, List.reverse_cons, List.flatMap_append,
      List.flatMap_append, List.append_assoc, List.flatMap_singleton,
      List.flatMap_singleton, hnew]
    rfl
  | drained frame isConn =>
    cases h
    exact (List.append_nil _).symm

/-- The other side has the packets that were handed over, in their order. -/
theorem hear_packets {l l' : Log} {es : List Event} (h : StepRuns.run hear l es = some l') :
    l'.talks.reverse.flatMap Talk.packets = l.talks.reverse.flatMap Talk.packets ++ carried es := by
  induction es generalizing l with
  | nil =>
    cases h
    exact (List.append_nil _).symm
  | cons e es ih =>
    obtain ⟨l₁, he, hrest⟩ := StepRuns.run_cons_eq_some h
    rw [ih hrest, hear_event he, List.append_assoc, ← carried_append, List.singleton_append]

/-- The packets handed over are those that left the queue on a connection. -/
def Faithful (es : List Event) : Prop := carried es = taken es

/-- Two faithful lists of events make one. -/
theorem Faithful.append {es es' : List Event} (h : Faithful es) (h' : Faithful es') :
    Faithful (es ++ es') := by
  unfold Faithful at *
  rw [carried_append, taken_append, h, h']

/-- A message without a packet is faithful. -/
theorem sendMessage_quiet (s : Bridge) (time : ℤ) {m : List UInt8 × List UInt8}
    (h : frames [m] = []) : Faithful (s.sendMessage time m).2 := by
  cases hconn : s.isConn with
  | false =>
    rw [sendMessage_offline hconn]
    rfl
  | true =>
    rw [sendMessage_online hconn]
    exact h

/-- A packet from the queue is handed over when there is a connection. -/
theorem drained_faithful (s : Bridge) (time : ℤ) (frame : List UInt8) :
    Faithful (.drained frame s.isConn :: (s.sendMessage time (dataTrans frame)).2) := by
  cases hconn : s.isConn with
  | false =>
    rw [sendMessage_offline hconn]
    rfl
  | true =>
    rw [sendMessage_online hconn]
    rfl

/-- A tick carries what it takes from the queue. -/
theorem onTick_faithful {s s' : Bridge} {k : Bridge.TickCalls} {es : List Event}
    (hs : s.onTick k = some (s', es)) : Faithful es := by
  have hsocket : Faithful (s.tickSocket k).2 := by
    unfold Bridge.tickSocket
    split
    · have hconnected : Faithful [Event.connected (s.ticked k).sock.mFd] := rfl
      exact hconnected.append (sendMessage_quiet _ _ rfl)
    · rfl
    · rfl
  have hheart : Faithful ((s.tickSocket k).1.tickHeart k).2 := by
    unfold Bridge.tickHeart
    split
    · exact sendMessage_quiet _ _ rfl
    · rfl
  unfold Bridge.onTick at hs
  obtain ⟨⟨s₃, es₃⟩, hq, hs⟩ := Option.bind_eq_some_iff.mp hs
  cases hs
  refine (hsocket.append hheart).append ?_
  unfold Bridge.tickQueue at hq
  obtain ⟨⟨buff, uart, out⟩, -, hq⟩ := Option.bind_eq_some_iff.mp hq
  cases out with
  | none =>
    cases hq
    rfl
  | some sent =>
    obtain ⟨ask, frame⟩ := sent
    dsimp only at hq
    split at hq
    · cases hq
      exact drained_faithful _ _ _
    · cases hq

/-- A step carries what it takes from the queue. -/
theorem step_faithful {s s' : Bridge} {op : Op} {es : List Event} (hs : step s op = some (s', es)) :
    Faithful es := by
  cases op with
  | onTick k => exact onTick_faithful hs
  | send ask =>
    obtain ⟨ret, -, he⟩ := Option.map_eq_some_iff.mp hs
    cases he
    rfl
  | handleEvent clock answers =>
    change s.handleEvent clock answers = some (s', es) at hs
    unfold Bridge.handleEvent at hs
    obtain ⟨⟨new, lost⟩, -, hs⟩ := Option.bind_eq_some_iff.mp hs
    cases lost with
    | false =>
      cases hs
      rfl
    | true =>
      cases hs
      cases s.isConn <;> rfl
  | others buff =>
    cases hs
    rfl

/-- A run carries what it takes from the queue. -/
theorem run_faithful {s s' : Bridge} {ops : List Op} {es : List Event}
    (hs : run s ops = some (s', es)) : Faithful es := by
  induction ops generalizing s es with
  | nil =>
    cases hs
    rfl
  | cons op ops ih =>
    unfold run at hs
    obtain ⟨⟨s₁, es₁⟩, hstep, hs⟩ := Option.bind_eq_some_iff.mp hs
    obtain ⟨⟨s₂, es₂⟩, hrest, hs⟩ := Option.bind_eq_some_iff.mp hs
    cases hs
    exact (step_faithful hstep).append (ih hrest)

/-- On every connection the other side first hears the request to open the
line, with the right parameters, and from then on never waits longer for the
next message than the heartbeat time and the time of a tick. It takes the
messages apart by their sizes, and finds in them the packets that left the
queue while there was a connection: all of them, once, in their order. -/
theorem talks_orderly {buff : SDHWPacketBuffer} {last curr : ℕ} {r : UartOpenReq} {rcv snd : ℤ}
    {ip : String} {port : UInt16} {uptime g : ℤ} {ops : List Op} {s : Bridge} {es : List Event}
    (hops : Ticking g uptime ops)
    (hs : run (Bridge.create buff last curr r rcv snd ip port uptime) ops = some (s, es)) :
    ∃ l, StepRuns.run hear ⟨[], false⟩ es = some l ∧ l.online = s.isConn ∧
      (∀ t ∈ l.talks, Orderly r (HEART_TIME + g) t ∧
        takeAll 4 dataLen t.sent.length t.stream = (t.sent.map Prod.snd, [])) ∧
      (s.isConn = true → ∃ t ts time m, l.talks = t :: ts ∧ t.sent.getLast? = some (time, m) ∧
        lastTick uptime ops - time ≤ HEART_TIME) ∧
      l.talks.reverse.flatMap Talk.packets = taken es := by
  have hconn : (Bridge.create buff last curr r rcv snd ip port uptime).isConn = false := by
    unfold Bridge.isConn Bridge.create SocketClient.init
    rfl
  have hstart : Heard r g uptime (Bridge.create buff last curr r rcv snd ip port uptime)
      ⟨[], false⟩ :=
    ⟨rfl, hconn.symm, fun t ht => absurd ht List.not_mem_nil, le_refl _,
      fun hc => absurd (hconn.symm.trans hc) Bool.false_ne_true⟩
  obtain ⟨l, hl, h⟩ := run_heard hstart hops hs
  refine ⟨l, hl, h.online, fun t ht => ⟨h.orderly t ht, (h.orderly t ht).readBack⟩, fun hc => ?_,
    ?_⟩
  · obtain ⟨t, ts, m, htalks, -, hlast, -, hnear⟩ := h.current hc
    exact ⟨t, ts, _, m, htalks, hlast, hnear⟩
  · exact (hear_packets hl).trans (run_faithful hs)

/-- `/dev/ttyS1` at 9600 baud, 8N1. -/
def ttyS1 : UartOpenReq :=
  ⟨[47, 100, 101, 118, 47, 116, 116, 121, 83, 49, 0, 0, 0, 0, 0, 0], 9600, 0, 8, 1, 78, rfl⟩

/-- A tick of the socket that connects at once. -/
def connectsAt (x : ℤ) : Bridge.TickCalls :=
  ⟨x, { connecting with timeoutTime := x, connect := 0, setTime := x }, x, x, x, x, x⟩

/-- A tick that connects, a packet that is sent and goes out with the next
tick, and one more tick when nothing has been sent for almost six seconds. -/
def packetBetween : List Op :=
  [.onTick (connectsAt 2000), .send 2, .onTick (connectsAt 2100), .onTick (connectsAt 8000)]

/-- The coded packet. -/
def emptyFrame : List UInt8 := 2 :: List.replicate 29 0 ++ [252, 239]

/-- The buffers of the client and of the packet are obtained from a new pool.
The other side hears the request, the packet and a heartbeat. -/
theorem talks_orderly_packet :
    ∃ p₁ p₂ p₃ s es l, SDHWPacketBuffer.obtain ⟨.mcu, [], []⟩ = some (p₁, 0) ∧
      p₁.obtain = some (p₂, 1) ∧ p₂.obtain = some (p₃, 2) ∧
      run (Bridge.create p₃ 0 1 ttyS1 0 0 "127.0.0.1" 19090 1000) packetBetween = some (s, es) ∧
      StepRuns.run hear ⟨[], false⟩ es = some l ∧ l.online = s.isConn ∧
      (∀ t ∈ l.talks, Orderly ttyS1 (HEART_TIME + 7000) t ∧
        takeAll 4 dataLen t.sent.length t.stream = (t.sent.map Prod.snd, [])) ∧
      (s.isConn = true → ∃ t ts time m, l.talks = t :: ts ∧ t.sent.getLast? = some (time, m) ∧
        8000 - time ≤ HEART_TIME) ∧
      l.talks.reverse.flatMap Talk.packets = [emptyFrame] := by
  have hrun : (run (Bridge.create ⟨.mcu, [allocate .mcu, allocate .mcu, allocate .mcu], []⟩ 0 1
      ttyS1 0 0 "127.0.0.1" 19090 1000) packetBetween).any (fun x =>
        decide (taken x.2 = [emptyFrame])) = true := by
    decide +kernel
  obtain ⟨⟨s, es⟩, hs, htaken⟩ := (Option.any_eq_true _ _).mp hrun
  have hops : Ticking 7000 1000 packetBetween := by
    refine ⟨⟨?_, ?_, ?_, ?_, ?_⟩, ⟨?_, ?_, ?_, ?_, ?_⟩, ⟨?_, ?_, ?_, ?_, ?_⟩, trivial⟩ <;> decide
  obtain ⟨l, hl, honline, htalks, hlast, hpackets⟩ := talks_orderly hops hs
  exact ⟨_, _, _, s, es, l, rfl, rfl, rfl, hs, hl, honline, htalks, hlast,
    hpackets.trans (of_decide_eq_true htaken)⟩

end CdroidDemo.SocketBridge
