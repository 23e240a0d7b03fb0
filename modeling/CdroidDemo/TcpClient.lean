import CdroidDemo.Descriptors
import CdroidDemo.PacketMemory
import Mathlib.Data.Int.Notation

/-!
# TCP connections

The base class of the socket client and of the server's connections: one
descriptor, a status, a receive buffer of 4096 bytes that is never moved, and
the times of the last data. Whatever the kernel answers is an argument. The
registration with the event loop is left out; it follows `mFd`.
-/

namespace CdroidDemo.TcpClient

open Descriptors PacketMemory

/-- `Client::STATUS`. -/
inductive STATUS
  /-- Not used yet. -/
  | null
  /-- A connect is pending. -/
  | connecting
  /-- There is a connection. -/
  | connected
  /-- There is none any more. -/
  | disconnect
  deriving DecidableEq, Repr

/-- `LEN_4K`. -/
def len4K : ℕ := 4096

/-- `Client::TIME_OUT`. -/
def TIME_OUT : ℤ := 30000

/-- `ENOENT`. -/
def ENOENT : ℤ := 2

/-- `EBADF`. -/
def EBADF : ℤ := 9

/-- `SockBuf`. The pointers are offsets from `start`, and `end` is `len4K`. -/
@[ext] structure SockBuf where
  /-- `buf`: the storage, stale bytes included. -/
  buf : List UInt8
  /-- `pos`: the first byte not yet taken. -/
  pos : ℕ
  /-- `last`: behind the last received byte. -/
  last : ℕ
  /-- The size of the storage. -/
  buf_length : buf.length = len4K
  /-- Received bytes lie inside the storage. -/
  last_le : last ≤ len4K

namespace SockBuf

/-- The zeroed buffer of `calloc`. -/
def new : SockBuf := ⟨List.replicate len4K 0, 0, 0, List.length_replicate, Nat.zero_le _⟩

/-- `end - last`. -/
def free (b : SockBuf) : ℕ := len4K - b.last

/-- What a `recv` into the free space takes of the bytes that wait. -/
def room (b : SockBuf) (waiting : List UInt8) : List UInt8 := waiting.take b.free

/-- No more is read than the buffer has room for. -/
theorem room_length_le (b : SockBuf) (waiting : List UInt8) :
    b.last + (b.room waiting).length ≤ len4K := by
  have h := b.last_le
  have ht := List.length_take_le b.free waiting
  unfold room
  unfold free at *
  omega

/-- Received bytes are stored from `last` on. -/
def store (b : SockBuf) (waiting : List UInt8) : SockBuf where
  buf := BuffData.overwrite b.buf b.last (b.room waiting)
  pos := b.pos
  last := b.last + (b.room waiting).length
  buf_length := by
    rw [BuffData.overwrite_length (by rw [b.buf_length]; exact b.room_length_le waiting),
      b.buf_length]
  last_le := b.room_length_le waiting

/-- `pos = start; last = pos`. -/
def reset (b : SockBuf) : SockBuf := {b with pos := 0, last := 0, last_le := Nat.zero_le _}

end SockBuf

/-- What a call of `recv` meets: the bytes that wait, none after the peer has
closed, or an error; `errno` behind the call and the clocks read after it. -/
structure Recv where
  /-- The bytes that wait, or an error. -/
  waiting : Option (List UInt8)
  /-- `errno`, which a call that returns 0 leaves as it was. -/
  errno : ℤ
  /-- `SystemClock::uptimeMillis()`. -/
  uptime : ℤ
  /-- `time(0)`. -/
  time : ℤ

/-- `Client`. -/
structure Client where
  /-- `mFd`. -/
  mFd : ℤ
  /-- `mStatus`. -/
  mStatus : STATUS
  /-- `mRSBuf`: the receive buffer. -/
  mRSBuf : SockBuf
  /-- `mIsAuth`: the peer has sent the key. -/
  mIsAuth : Bool
  /-- `mLastRcvTime`. -/
  mLastRcvTime : ℤ
  /-- `mLastSndTime`. -/
  mLastSndTime : ℤ

namespace Client

/-- `initData`. The times stay what the memory held. -/
def initData (rcv snd : ℤ) : Client := ⟨-1, .disconnect, SockBuf.new, false, rcv, snd⟩

/-- `closeFd`. -/
def closeFd (c : Client) (t : Table ℤ) : Client × Table ℤ :=
  if c.mFd = -1 then (c, t) else ({c with mFd := -1}, t.close c.mFd)

/-- `~Client`. -/
def destroy (c : Client) (t : Table ℤ) : Table ℤ := (c.closeFd t).2

/-- `Client::onStatusChange`. -/
def onStatusChange (c : Client) (t : Table ℤ) : Client × Table ℤ :=
  if c.mStatus = .disconnect then {c with mRSBuf := c.mRSBuf.reset}.closeFd t else (c, t)

/-- `setFd` before its status callback; zero is rejected like an error. -/
def setFd (c : Client) (fd uptime : ℤ) : Option Client :=
  if fd ≤ 0 then none
  else some {c with mFd := fd, mStatus := .connected, mLastRcvTime := uptime,
                    mLastSndTime := uptime}

/-- `isConn`. -/
def isConn (c : Client) : Bool := decide (c.mStatus = .connected)

/-- `isTimeout` at the clock reading `tt`. -/
def isTimeout (c : Client) (outTime tt : ℤ) : Bool :=
  let outTime := if outTime ≤ 0 then TIME_OUT else outTime
  decide (c.mLastRcvTime + outTime < tt) || decide (c.mLastSndTime + outTime < tt)

/-- `sendData` at the clock reading `uptime`, with the call of `send`. -/
def sendData (c : Client) (uptime : ℤ) (data : List UInt8) :
    Client × Option (ℤ × List UInt8) :=
  if c.isConn then ({c with mLastSndTime := uptime}, some (c.mFd, data)) else (c, none)

/-- The bytes that `recv` returns, none for a result of 0 or less. Without a
descriptor it fails. -/
def recv (c : Client) (r : Recv) : List UInt8 :=
  if c.mFd = -1 then [] else c.mRSBuf.room (r.waiting.getD [])

/-- `errno` behind the `recv`. -/
def recvErrno (c : Client) (r : Recv) : ℤ := if c.mFd = -1 then EBADF else r.errno

/-- `readData` when `recv` returns bytes. -/
def readData (c : Client) (r : Recv) : Client :=
  {c with mRSBuf := c.mRSBuf.store (r.waiting.getD []), mLastRcvTime := r.uptime}

/-- What the read loop of `handleEvent` leaves. -/
structure Reading where
  /-- The connection. -/
  client : Client
  /-- Whether the loop found the connection lost. -/
  lost : Bool
  /-- The bytes that the calls of `recv` returned. -/
  got : List UInt8

/-- The read loop of `handleEvent`, with the `onRecvData` of the class and the
answers of `recv`; behind the last answer nothing waits (`EAGAIN`). -/
def readLoop (onRecvData : ℤ → Client → Client × ℤ) (c : Client) : List Recv → Reading
  | [] => ⟨c, false, []⟩
  | r :: answers =>
    let freeLen := c.mRSBuf.free
    let got := c.recv r
    if got = [] then ⟨c, decide (c.recvErrno r = ENOENT), []⟩
    else
      let (c, dealCount) := onRecvData r.time (c.readData r)
      if dealCount < 0 then ⟨c, true, got⟩
      else if got.length < freeLen then ⟨c, false, got⟩
      else if 0 < dealCount then ⟨c, false, got⟩
      else
        let more := readLoop onRecvData c answers
        ⟨more.client, more.lost, got ++ more.got⟩

/-! ## What the operations keep -/

/-- The descriptor that a connection owns. -/
def held (c : Client) : List ℤ := if c.mFd = -1 then [] else [c.mFd]

/-- A client is connected when its status says so. -/
theorem isConn_iff {c : Client} : c.isConn = true ↔ c.mStatus = .connected := decide_eq_true_iff

/-- A client without a descriptor holds none. -/
theorem held_of_none {c : Client} (h : c.mFd = -1) : c.held = [] := if_pos h

/-- A client with a descriptor holds it. -/
theorem held_of_some {c : Client} (h : c.mFd ≠ -1) : c.held = [c.mFd] := if_neg h

/-- After a close the client has no descriptor. -/
@[simp] theorem closeFd_mFd (c : Client) (t : Table ℤ) : (c.closeFd t).1.mFd = -1 := by
  unfold closeFd
  split
  · assumption
  · rfl

/-- A close keeps the status. -/
@[simp] theorem closeFd_mStatus (c : Client) (t : Table ℤ) :
    (c.closeFd t).1.mStatus = c.mStatus := by
  unfold closeFd
  split <;> rfl

/-- Closing gives back what the connection held. -/
theorem closeFd_owned {c : Client} {t : Table ℤ} {owners : List ℤ}
    (h : t.Owned (c.held ++ owners)) : (c.closeFd t).2.Owned owners := by
  unfold closeFd
  split
  · rename_i hfd
    rwa [held_of_none hfd] at h
  · rename_i hfd
    rw [held_of_some hfd] at h
    exact h.close

/-- A lost connection is closed and keeps its status. -/
theorem onStatusChange_lost {c : Client} (h : c.mStatus = .disconnect) (t : Table ℤ) :
    (c.onStatusChange t).1.mFd = -1 ∧ (c.onStatusChange t).1.mStatus = .disconnect ∧
      ∀ owners, t.Owned (c.held ++ owners) → (c.onStatusChange t).2.Owned owners := by
  unfold onStatusChange
  rw [if_pos h]
  refine ⟨closeFd_mFd _ t, (closeFd_mStatus _ t).trans h, fun owners ho => ?_⟩
  exact closeFd_owned (c := {c with mRSBuf := c.mRSBuf.reset}) ho

/-- On a disconnect the buffer is emptied and the descriptor closed. -/
theorem onStatusChange_of_some {c : Client} (h : c.mStatus = .disconnect) (hfd : c.mFd ≠ -1)
    (t : Table ℤ) :
    c.onStatusChange t = ({c with mRSBuf := c.mRSBuf.reset, mFd := -1}, t.close c.mFd) := by
  unfold onStatusChange closeFd
  rw [if_pos h, if_neg hfd]

/-- Nothing is closed for a client without a descriptor. -/
theorem destroy_of_none {c : Client} (h : c.mFd = -1) (t : Table ℤ) : c.destroy t = t := by
  unfold destroy closeFd
  rw [if_pos h]

/-- The descriptor of a client is closed with it. -/
theorem destroy_of_some {c : Client} (h : c.mFd ≠ -1) (t : Table ℤ) :
    c.destroy t = t.close c.mFd := by
  unfold destroy closeFd
  rw [if_neg h]

/-- Without a descriptor nothing is read and nothing is found lost. -/
theorem readLoop_closed {c : Client} (h : c.mFd = -1) (onRecvData : ℤ → Client → Client × ℤ)
    (answers : List Recv) : c.readLoop onRecvData answers = ⟨c, false, []⟩ := by
  cases answers with
  | nil => rfl
  | cons r answers =>
    have hr : c.recv r = [] := if_pos h
    have he : c.recvErrno r = EBADF := if_pos h
    simp only [readLoop, hr, he, if_true]
    rfl

/-- What reading and `onRecvData` keep holds behind the read loop. -/
theorem readLoop_keeps {P : Client → Prop} {onRecvData : ℤ → Client → Client × ℤ}
    (hread : ∀ c r, P c → P (onRecvData r.time (c.readData r)).1) {c : Client} (hc : P c)
    (answers : List Recv) : P (c.readLoop onRecvData answers).client := by
  induction answers generalizing c with
  | nil => exact hc
  | cons r answers ih =>
    simp only [readLoop]
    have hn := hread c r hc
    split
    · exact hc
    · split
      · exact hn
      · split
        · exact hn
        · split
          · exact hn
          · exact ih hn

end Client

end CdroidDemo.TcpClient
