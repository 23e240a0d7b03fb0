import CdroidDemo.ClientConnection
import CdroidDemo.ServerConnections

/-!
# When the peer closes

`handleEvent` tells a closed connection from an empty one by `errno`, which a
`recv` that returns 0 does not set. The decision is therefore about the value
that an earlier call has left there, in every turn of the read loop.
-/

namespace CdroidDemo.PeerClose

open Descriptors TcpClient Client ClientConnection ServerConnections

/-- `EAGAIN`. -/
def EAGAIN : ℤ := 11

/-- `mStatus = ST_DISCONNECT; onStatusChange()`. -/
def lose (c : Client) (t : Table ℤ) : Client × Table ℤ :=
  {c with mStatus := .disconnect}.onStatusChange t

/-- `Client::handleEvent` for a readable descriptor, with the `onRecvData` of
the class. -/
def handleEvent (onRecvData : ℤ → Client → Client × ℤ) (c : Client) (t : Table ℤ)
    (answers : List Recv) : Client × Table ℤ × ℤ :=
  let r := c.readLoop onRecvData answers
  if r.lost then ((lose r.client t).1, (lose r.client t).2, 0) else (r.client, t, 1)

/-- The turns of the read loop: the connection and the answers that are left
when a turn begins. -/
inductive Turn (onRecvData : ℤ → Client → Client × ℤ) (answers : List Recv) :
    Client → List Recv → Client → Prop
  /-- The read loop begins. -/
  | first (c : Client) : Turn onRecvData answers c answers c
  /-- The buffer was filled and dealt with, and the loop goes on. -/
  | next {c c' : Client} {r : Recv} {rest : List Recv}
    (h : Turn onRecvData answers c (r :: rest) c') (hgot : c'.recv r ≠ [])
    (hdeal : (onRecvData r.time (c'.readData r)).2 = 0)
    (hfull : c'.mRSBuf.free ≤ (c'.recv r).length) :
    Turn onRecvData answers c rest (onRecvData r.time (c'.readData r)).1

/-- What is to happen at a `recv`: a connection that the peer has closed is
lost, and one without data stays as it was. -/
def Recognised (c : Client) (t : Table ℤ) (r : Recv) (out : Client × Table ℤ × ℤ) : Prop :=
  (r.waiting = some [] →
    (out.1, out.2.1) = lose c t ∧ out.1.mStatus = .disconnect ∧ out.1.mFd = -1 ∧
      out.2.1 = t.close c.mFd) ∧
  (r.waiting = none → r.errno = EAGAIN →
    out.1.mStatus = c.mStatus ∧ out.1.mFd = c.mFd ∧ out.1.mRSBuf = c.mRSBuf ∧ out.2.1 = t)

section Turns

variable {onRecvData : ℤ → Client → Client × ℤ} {c c' : Client} {answers rest : List Recv}
  {r : Recv}

/-- Losing a connection closes its descriptor and empties its buffer. -/
theorem lose_eq (hfd : c.mFd ≠ -1) (t : Table ℤ) :
    lose c t = ({c with mStatus := .disconnect, mRSBuf := c.mRSBuf.reset, mFd := -1},
      t.close c.mFd) :=
  onStatusChange_of_some (c := {c with mStatus := .disconnect}) rfl hfd t

/-- From the beginning of a turn on the loop does what it does as a whole. -/
theorem Turn.readLoop_eq (h : Turn onRecvData answers c rest c') :
    (c.readLoop onRecvData answers).client = (c'.readLoop onRecvData rest).client ∧
      (c.readLoop onRecvData answers).lost = (c'.readLoop onRecvData rest).lost := by
  induction h with
  | first => exact ⟨rfl, rfl⟩
  | next h hgot hdeal hfull ih =>
    rw [ih.1, ih.2]
    simp only [readLoop, if_neg hgot, hdeal, Int.lt_irrefl, if_false,
      if_neg (Nat.not_lt.mpr hfull)]
    exact ⟨trivial, trivial⟩

/-- A turn is one round of the event handler. -/
theorem Turn.handleEvent_eq (h : Turn onRecvData answers c rest c') (t : Table ℤ) :
    handleEvent onRecvData c t answers = handleEvent onRecvData c' t rest := by
  simp only [handleEvent, h.readLoop_eq.1, h.readLoop_eq.2]

/-- A `recv` without bytes ends the loop, and `errno` decides. -/
theorem handleEvent_empty (hr : c.recv r = []) (t : Table ℤ) :
    handleEvent onRecvData c t (r :: rest) =
      if c.recvErrno r = ENOENT then ((lose c t).1, (lose c t).2, 0) else (c, t, 1) := by
  simp only [handleEvent, readLoop, hr, if_true, decide_eq_true_eq]

/-- In every turn of the loop with free space a peer that has closed is
recognised exactly when `errno` happens to hold `ENOENT`. -/
theorem peer_close_recognised_iff (h : Turn onRecvData answers c (r :: rest) c')
    (hst : c'.mStatus = .connected) (hfd : c'.mFd ≠ -1) (t : Table ℤ) :
    Recognised c' t r (handleEvent onRecvData c t answers) ↔
      (r.waiting = some [] → r.errno = ENOENT) := by
  have herrno : c'.recvErrno r = r.errno := if_neg hfd
  have hempty : r.waiting.getD [] = [] → c'.recv r = [] := by
    intro hw
    rw [Client.recv, if_neg hfd, hw]
    exact List.take_nil
  rw [h.handleEvent_eq t]
  constructor
  · intro hrec hw
    by_contra he
    have hout := (hrec.1 hw).2.1
    rw [handleEvent_empty (hempty (by rw [hw]; rfl)), herrno, if_neg he, hst] at hout
    cases hout
  · intro hcond
    refine ⟨fun hw => ?_, fun hw he => ?_⟩
    · rw [handleEvent_empty (hempty (by rw [hw]; rfl)), herrno, if_pos (hcond hw), lose_eq hfd]
      exact ⟨rfl, rfl, rfl, rfl⟩
    · have hne : r.errno ≠ ENOENT := by
        rw [he]
        decide
      rw [handleEvent_empty (hempty (by rw [hw]; rfl)), herrno, if_neg hne]
      exact ⟨rfl, rfl, rfl, rfl⟩

end Turns

/-! ## The classes -/

/-- A client of the program reads as the base class does. -/
theorem socketClient_handleEvent (s : SocketClient) (t : Table ℤ) (answers : List Recv) :
    ((s.handleEvent t answers).1.toClient, (s.handleEvent t answers).2) =
      handleEvent SocketClient.onRecvData s.toClient t answers := by
  cases hl : (s.toClient.readLoop SocketClient.onRecvData answers).lost with
  | false =>
    simp only [SocketClient.handleEvent, handleEvent, hl, Bool.false_eq_true, if_false]
  | true =>
    simp only [SocketClient.handleEvent, handleEvent, hl, if_true]
    rfl

/-- A connection of the server closes as the base class does, and is deleted
when it is lost. -/
theorem clientEvent_table {key : ℤ} {c : Client} (hs : Stored key c) (hfd : c.mFd = key)
    (s : SocketServer) (t : Table ℤ) (answers : List Recv) :
    (s.clientEvent t key c answers).2.1 =
      (handleEvent ServerClient.onRecvData c t answers).2.1 := by
  have hkeep := SocketServer.readLoop_stored hs answers
  have hpos := hs.pos hfd
  cases hl : (c.readLoop ServerClient.onRecvData answers).lost with
  | false =>
    rw [SocketServer.clientEvent_kept rfl hl]
    simp only [handleEvent, hl, Bool.false_eq_true, if_false]
  | true =>
    have hk : (c.readLoop ServerClient.onRecvData answers).client.mFd = key := by
      cases hkeep with
      | inl h => exact h.2.1
      | inr h => omega
    rw [SocketServer.clientEvent_lost rfl hl hs hfd]
    simp only [handleEvent, hl, if_true]
    rw [lose_eq (by omega), hk]

/-- A new connection under the descriptor 7. -/
def opened : Client := ServerClient.create 0 0 7 0

/-- `errno` holds `ENOENT`, and the connection is closed. -/
theorem peer_close_recognised_iff_enoent :
    Recognised opened ⟨[7], []⟩ ⟨some [], ENOENT, 0, 0⟩
      (handleEvent ServerClient.onRecvData opened ⟨[7], []⟩ [⟨some [], ENOENT, 0, 0⟩]) :=
  (peer_close_recognised_iff (Turn.first opened) rfl (by decide) ⟨[7], []⟩).mpr fun _ => rfl

/-- The peer has closed, and `errno` is left from a read that found nothing:
the connection stays, for the server and for a client of the program. -/
theorem peer_close_missed :
    opened.mStatus = .connected ∧ opened.mFd = 7 ∧ 0 < opened.mRSBuf.free ∧
      handleEvent ServerClient.onRecvData opened ⟨[7], []⟩ [⟨some [], EAGAIN, 0, 0⟩] =
        (opened, ⟨[7], []⟩, 1) ∧
      (∀ s : SocketServer,
        (s.clientEvent ⟨[7], []⟩ 7 opened [⟨some [], EAGAIN, 0, 0⟩]).2.1 = ⟨[7], []⟩) ∧
      (∀ s : SocketClient, s.toClient = opened →
        (s.handleEvent ⟨[7], []⟩ [⟨some [], EAGAIN, 0, 0⟩]).1.toClient = opened) ∧
      ¬Recognised opened ⟨[7], []⟩ ⟨some [], EAGAIN, 0, 0⟩
        (handleEvent ServerClient.onRecvData opened ⟨[7], []⟩ [⟨some [], EAGAIN, 0, 0⟩]) := by
  have hout : handleEvent ServerClient.onRecvData opened ⟨[7], []⟩ [⟨some [], EAGAIN, 0, 0⟩] =
      (opened, ⟨[7], []⟩, 1) := handleEvent_empty rfl _
  refine ⟨rfl, rfl, Nat.succ_pos _, hout, fun s => ?_, fun s hs => ?_, fun h => ?_⟩
  · have hst : Stored 7 opened := SocketServer.create_stored 0 0 (by decide) 0
    rw [clientEvent_table hst rfl, hout]
  · have hclient := congrArg Prod.fst
      (socketClient_handleEvent s ⟨[7], []⟩ [⟨some [], EAGAIN, 0, 0⟩])
    rw [hs, handleEvent_empty rfl, if_neg (by decide)] at hclient
    exact hclient
  · rw [hout] at h
    exact STATUS.noConfusion (h.1 rfl).2.1

end CdroidDemo.PeerClose
