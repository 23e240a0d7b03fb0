import CdroidDemo.TcpClient

/-!
# The TCP client

`SocketClient` connects from its ticks. A connect that does not finish at once
leaves its socket in `mSockId` until `onCheckConnecting` hands it on or closes
it. Everything the kernel and the clocks answer during a tick is an argument.
-/

namespace CdroidDemo.ClientConnection

open Descriptors TcpClient Client

/-- `CONN_TIMEOUT`. -/
def CONN_TIMEOUT : ℤ := 5

/-- `CONN_SPACE`. -/
def CONN_SPACE : ℤ := 5

/-- `RPORT_LEN`. -/
def RPORT_LEN : UInt16 := 0

/-- `EINPROGRESS`. -/
def EINPROGRESS : ℤ := 115

/-- `SocketClient`. -/
structure SocketClient extends Client where
  /-- `mInit`. -/
  mInit : Bool
  /-- `mIp`. -/
  mIp : String
  /-- `mPort`. -/
  mPort : UInt16
  /-- `mRPort`: the last port to be tried. -/
  mRPort : UInt16
  /-- `mLastConnTime`. -/
  mLastConnTime : ℤ
  /-- `mSockId`: the socket of a connect in progress. -/
  mSockId : ℤ

/-- The answers to the calls of one tick. -/
structure Calls where
  /-- The clock of `onTick`. -/
  curTime : ℤ
  /-- The clock of `isTimeout`. -/
  timeoutTime : ℤ
  /-- `socket`. -/
  socket : ℤ
  /-- `fcntl` with `F_SETFL`. -/
  fcntl : ℤ
  /-- The clock of `connectServer`. -/
  connTime : ℤ
  /-- `connect`. -/
  connect : ℤ
  /-- `errno` behind `connect`. -/
  errno : ℤ
  /-- The clock of `onCheckConnecting`. -/
  now : ℤ
  /-- `select`. -/
  select : ℤ
  /-- `getsockopt`. -/
  getsockopt : ℤ
  /-- The `SO_ERROR` value. -/
  temperr : ℤ
  /-- The clock of `setFd`. -/
  setTime : ℤ

namespace SocketClient

/-- The constructor; the times of the base class stay what the memory held. -/
def create (rcv snd : ℤ) : SocketClient where
  toClient := Client.initData rcv snd
  mInit := false
  mIp := "127.0.0.1"
  mPort := 19090
  mRPort := 19090 + RPORT_LEN
  mLastConnTime := 0
  mSockId := -1

/-- `init`. -/
def init (s : SocketClient) (ip : Option String) (port : UInt16) : SocketClient :=
  if s.mInit then s
  else
    let p := if 0 < port then port else s.mPort
    {s with mIp := ip.getD s.mIp, mPort := p, mRPort := p + RPORT_LEN, mInit := true}

/-- `SocketClient::onStatusChange`. -/
def onStatusChange (s : SocketClient) (t : Table ℤ) : SocketClient × Table ℤ :=
  let s := if s.mStatus = .disconnect then {s with mSockId := -1} else s
  let (c, t) := s.toClient.onStatusChange t
  ({s with toClient := c}, t)

/-- `setFd` with the status callback of the class. -/
def setFd (s : SocketClient) (t : Table ℤ) (fd uptime : ℤ) : SocketClient × Table ℤ :=
  match s.toClient.setFd fd uptime with
  | none => (s, t)
  | some c => {s with toClient := c}.onStatusChange t

/-- `if (++mPort > mRPort) mPort = mRPort - RPORT_LEN`. -/
def nextPort (s : SocketClient) : SocketClient :=
  {s with mPort := if s.mRPort < s.mPort + 1 then s.mRPort - RPORT_LEN else s.mPort + 1}

/-- `connectServer`. -/
def connectServer (s : SocketClient) (t : Table ℤ) (k : Calls) :
    SocketClient × Table ℤ × Bool :=
  if s.mStatus ≠ .disconnect then (s, t, true)
  else if k.socket < 0 then (s, t, false)
  else
    let t := t.alloc k.socket
    if k.fcntl = -1 then (s, t.close k.socket, false)
    else
      let s := {s with mLastConnTime := k.connTime}
      if k.connect < 0 then
        if k.errno ≠ EINPROGRESS then (s.nextPort, t.close k.socket, false)
        else ({s with mSockId := k.socket, mStatus := .connecting}, t, true)
      else
        let (s, t) := s.setFd t k.socket k.setTime
        (s, t, true)

/-- `err_ret` at the label `connect_over`. -/
def errRet (s : SocketClient) (k : Calls) : ℤ :=
  if CONN_TIMEOUT < k.now - s.mLastConnTime then -100
  else if k.select ≤ 0 then -1
  else if k.getsockopt = -1 then -2
  else if k.temperr ≠ 0 then -3
  else 0

/-- `onCheckConnecting`. -/
def onCheckConnecting (s : SocketClient) (t : Table ℤ) (k : Calls) :
    SocketClient × Table ℤ × Bool :=
  if s.mStatus ≠ .connecting ∨ s.mSockId ≤ 0 then (s, t, false)
  else if s.errRet k < 0 then
    ({s with mSockId := -1, mStatus := .disconnect}.nextPort, t.close s.mSockId, true)
  else
    let (s, t) := s.setFd t s.mSockId k.setTime
    (s, t, true)

/-- `onTick`. -/
def onTick (s : SocketClient) (t : Table ℤ) (k : Calls) : SocketClient × Table ℤ :=
  if !s.mInit then (s, t)
  else if s.isConn then
    if s.isTimeout 0 k.timeoutTime then {s with mStatus := .disconnect}.onStatusChange t
    else (s, t)
  else if s.mStatus = .connecting then
    let (s, t, _) := s.onCheckConnecting t k
    (s, t)
  else if CONN_SPACE ≤ k.curTime - s.mLastConnTime then
    let (s, t, _) := {s with mLastConnTime := k.curTime}.connectServer t k
    (s, t)
  else (s, t)

/-- `SocketClient::onRecvData` only logs. -/
def onRecvData (_ : ℤ) (c : Client) : Client × ℤ := (c, 0)

/-- `handleEvent` for a readable descriptor. -/
def handleEvent (s : SocketClient) (t : Table ℤ) (answers : List Recv) :
    SocketClient × Table ℤ × ℤ :=
  let r := s.toClient.readLoop onRecvData answers
  if r.lost then
    let (s, t) := {s with toClient := {r.client with mStatus := .disconnect}}.onStatusChange t
    (s, t, 0)
  else ({s with toClient := r.client}, t, 1)

section Tick

variable {s : SocketClient}

/-- A tick of a client that is connecting looks at the connect, -/
theorem onTick_connecting (hi : s.mInit = true) (hst : s.mStatus = .connecting) (t : Table ℤ)
    (k : Calls) :
    s.onTick t k = ((s.onCheckConnecting t k).1, (s.onCheckConnecting t k).2.1) := by
  have hconn : ¬s.isConn = true := by
    rw [Client.isConn_iff, hst]
    exact STATUS.noConfusion
  unfold onTick
  rw [hi, Bool.not_true, if_neg Bool.false_ne_true, if_neg hconn, if_pos hst]

/-- one of a disconnected client connects when it is time, -/
theorem onTick_disconnect (hi : s.mInit = true) (hst : s.mStatus = .disconnect) (t : Table ℤ)
    (k : Calls) :
    s.onTick t k = if CONN_SPACE ≤ k.curTime - s.mLastConnTime then
        (({s with mLastConnTime := k.curTime}.connectServer t k).1,
          ({s with mLastConnTime := k.curTime}.connectServer t k).2.1)
      else (s, t) := by
  have hconn : ¬s.isConn = true := by
    rw [Client.isConn_iff, hst]
    exact STATUS.noConfusion
  have hne : s.mStatus ≠ .connecting := by
    rw [hst]
    exact STATUS.noConfusion
  unfold onTick
  rw [hi, Bool.not_true, if_neg Bool.false_ne_true, if_neg hconn, if_neg hne]

/-- and one of a connected client looks for a timeout. -/
theorem onTick_connected (hi : s.mInit = true) (hst : s.mStatus = .connected) (t : Table ℤ)
    (k : Calls) :
    s.onTick t k = if s.isTimeout 0 k.timeoutTime then
        {s with mStatus := .disconnect}.onStatusChange t
      else (s, t) := by
  unfold onTick
  rw [hi, Bool.not_true, if_neg Bool.false_ne_true, if_pos (Client.isConn_iff.mpr hst)]

/-- A pending connect is given up or handed on. -/
theorem onCheckConnecting_pending (hst : s.mStatus = .connecting) (hid : 0 < s.mSockId)
    (t : Table ℤ) (k : Calls) :
    s.onCheckConnecting t k = if s.errRet k < 0 then
        ({s with mSockId := -1, mStatus := .disconnect}.nextPort, t.close s.mSockId, true)
      else ((s.setFd t s.mSockId k.setTime).1, (s.setFd t s.mSockId k.setTime).2, true) := by
  have hg : ¬(s.mStatus ≠ .connecting ∨ s.mSockId ≤ 0) := by
    rintro (hne | hle)
    · exact hne hst
    · omega
  exact if_neg hg

end Tick

end SocketClient

/-- A call on the client. -/
inductive Op
  /-- `init`. -/
  | init (ip : Option String) (port : UInt16)
  /-- `onTick`. -/
  | onTick (k : Calls)
  /-- `handleEvent`. -/
  | handleEvent (answers : List Recv)

/-- Perform a call. -/
def step (s : SocketClient) (t : Table ℤ) : Op → SocketClient × Table ℤ
  | .init ip port => (s.init ip port, t)
  | .onTick k => s.onTick t k
  | .handleEvent answers =>
    let (s, t, _) := s.handleEvent t answers
    (s, t)

/-- The kernel hands out positive descriptors that are not open. -/
def Possible (t : Table ℤ) : Op → Prop
  | .onTick k => 0 ≤ k.socket → 0 < k.socket ∧ k.socket ∉ t.opened
  | _ => True

/-- The states that runs of the client reach. -/
inductive Reachable : SocketClient → Table ℤ → Prop
  /-- The client is created. -/
  | start (rcv snd : ℤ) : Reachable (SocketClient.create rcv snd) Table.empty
  /-- One more call that is possible. -/
  | step {s : SocketClient} {t : Table ℤ} (op : Op) (h : Reachable s t) (hp : Possible t op) :
    Reachable (step s t op).1 (step s t op).2

/-! ## Status and descriptors -/

/-- The status tells which descriptors the client has open. -/
def Consistent (s : SocketClient) (t : Table ℤ) : Prop :=
  match s.mStatus with
  | .null => False
  | .connecting => s.mFd = -1 ∧ 0 < s.mSockId ∧ t.Owned [s.mSockId]
  | .connected => 0 < s.mFd ∧ (s.mSockId = s.mFd ∨ s.mSockId = -1) ∧ t.Owned [s.mFd]
  | .disconnect => s.mFd = -1 ∧ s.mSockId = -1 ∧ t.Owned []

section Consistent

variable {s s' : SocketClient} {t : Table ℤ}

/-- While connecting the only descriptor is the pending one, -/
theorem consistent_connecting (hst : s.mStatus = .connecting) :
    Consistent s t ↔ s.mFd = -1 ∧ 0 < s.mSockId ∧ t.Owned [s.mSockId] := by
  unfold Consistent
  rw [hst]

/-- with a connection it is that of the connection, -/
theorem consistent_connected (hst : s.mStatus = .connected) :
    Consistent s t ↔ 0 < s.mFd ∧ (s.mSockId = s.mFd ∨ s.mSockId = -1) ∧ t.Owned [s.mFd] := by
  unfold Consistent
  rw [hst]

/-- and otherwise there is none. -/
theorem consistent_disconnect (hst : s.mStatus = .disconnect) :
    Consistent s t ↔ s.mFd = -1 ∧ s.mSockId = -1 ∧ t.Owned [] := by
  unfold Consistent
  rw [hst]

/-- Only the status and the two descriptors matter. -/
theorem Consistent.congr (h : Consistent s t) (hst : s'.mStatus = s.mStatus)
    (hfd : s'.mFd = s.mFd) (hid : s'.mSockId = s.mSockId) : Consistent s' t := by
  unfold Consistent at *
  rwa [hst, hfd, hid]

/-- The status is never null. -/
theorem Consistent.ne_null (h : Consistent s t) : s.mStatus ≠ .null := by
  intro hst
  unfold Consistent at h
  rwa [hst] at h

/-- A client that loses its connection has nothing open. -/
theorem lost_consistent (hst : s.mStatus = .disconnect) (h : t.Owned s.held) :
    Consistent (s.onStatusChange t).1 (s.onStatusChange t).2 := by
  have hc := Client.onStatusChange_lost hst t
  have he : s.onStatusChange t = ({s with mSockId := -1, toClient :=
      (s.toClient.onStatusChange t).1}, (s.toClient.onStatusChange t).2) := by
    simp only [SocketClient.onStatusChange, hst, if_true]
  rw [he]
  refine (consistent_disconnect hc.2.1).mpr ⟨hc.1, rfl, hc.2.2 [] ?_⟩
  rwa [List.append_nil]

/-- `setFd` makes an open descriptor the connection. -/
theorem setFd_consistent {fd : ℤ} (hfd : 0 < fd) (hid : s.mSockId = fd ∨ s.mSockId = -1)
    (h : t.Owned [fd]) (uptime : ℤ) :
    Consistent (s.setFd t fd uptime).1 (s.setFd t fd uptime).2 := by
  unfold SocketClient.setFd Client.setFd
  rw [if_neg (by omega)]
  exact (consistent_connected rfl).mpr ⟨hfd, hid, h⟩

/-- `init` leaves the descriptors alone. -/
theorem init_consistent (h : Consistent s t) (ip : Option String) (port : UInt16) :
    Consistent (s.init ip port) t := by
  unfold SocketClient.init
  split
  · exact h
  · exact h.congr rfl rfl rfl

/-- Connecting keeps the account of descriptors, -/
theorem connectServer_consistent (h : Consistent s t) (hst : s.mStatus = .disconnect) {k : Calls}
    (hp : 0 ≤ k.socket → 0 < k.socket ∧ k.socket ∉ t.opened) :
    Consistent (s.connectServer t k).1 (s.connectServer t k).2.1 := by
  obtain ⟨hfd, hid, ho⟩ := (consistent_disconnect hst).mp h
  unfold SocketClient.connectServer
  rw [if_neg (not_not_intro hst)]
  split
  · exact h
  · rename_i hsock
    obtain ⟨hpos, hfresh⟩ := hp (by omega)
    have hnew : (t.alloc k.socket).Owned [k.socket] := ho.alloc hfresh
    simp only [Table.close_alloc]
    split
    · exact h
    · split
      · split
        · exact h.congr rfl rfl rfl
        · exact (consistent_connecting rfl).mpr ⟨hfd, hpos, hnew⟩
      · exact setFd_consistent (s := {s with mLastConnTime := k.connTime}) hpos (Or.inr hid)
          hnew k.setTime

/-- and so do the check of a pending connect, -/
theorem onCheckConnecting_consistent (h : Consistent s t) (hst : s.mStatus = .connecting)
    (k : Calls) : Consistent (s.onCheckConnecting t k).1 (s.onCheckConnecting t k).2.1 := by
  obtain ⟨hfd, hid, ho⟩ := (consistent_connecting hst).mp h
  rw [SocketClient.onCheckConnecting_pending hst hid]
  split
  · exact (consistent_disconnect rfl).mpr ⟨hfd, rfl, ho.close⟩
  · exact setFd_consistent hid (Or.inl rfl) ho _

/-- a tick, -/
theorem onTick_consistent (h : Consistent s t) {k : Calls}
    (hp : 0 ≤ k.socket → 0 < k.socket ∧ k.socket ∉ t.opened) :
    Consistent (s.onTick t k).1 (s.onTick t k).2 := by
  cases hi : s.mInit with
  | false =>
    have hno : s.onTick t k = (s, t) := by
      unfold SocketClient.onTick
      rw [hi, Bool.not_false, if_pos rfl]
    rw [hno]
    exact h
  | true =>
    cases hst : s.mStatus with
    | null => exact absurd hst h.ne_null
    | connecting =>
      rw [SocketClient.onTick_connecting hi hst]
      exact onCheckConnecting_consistent h hst k
    | disconnect =>
      rw [SocketClient.onTick_disconnect hi hst]
      split
      · have hc : Consistent {s with mLastConnTime := k.curTime} t := h.congr rfl rfl rfl
        exact connectServer_consistent hc hst hp
      · exact h
    | connected =>
      rw [SocketClient.onTick_connected hi hst]
      split
      · obtain ⟨hfd, -, ho⟩ := (consistent_connected hst).mp h
        have hne : s.mFd ≠ -1 := by omega
        have hh : ({s.toClient with mStatus := .disconnect} : Client).held = [s.mFd] := if_neg hne
        refine lost_consistent rfl ?_
        rwa [hh]
      · exact h

/-- a readable descriptor, -/
theorem handleEvent_consistent (h : Consistent s t) (answers : List Recv) :
    Consistent (s.handleEvent t answers).1 (s.handleEvent t answers).2.1 := by
  have hk : (s.toClient.readLoop SocketClient.onRecvData answers).client.mFd = s.mFd ∧
      (s.toClient.readLoop SocketClient.onRecvData answers).client.mStatus = s.mStatus :=
    Client.readLoop_keeps (P := fun c => c.mFd = s.mFd ∧ c.mStatus = s.mStatus)
      (fun _ _ hc => hc) ⟨rfl, rfl⟩ answers
  cases hl : (s.toClient.readLoop SocketClient.onRecvData answers).lost with
  | false =>
    simp only [SocketClient.handleEvent, hl, Bool.false_eq_true, if_false]
    exact h.congr hk.2 hk.1 rfl
  | true =>
    simp only [SocketClient.handleEvent, hl, if_true]
    have hfd : s.mFd ≠ -1 := by
      intro hfd
      rw [Client.readLoop_closed hfd] at hl
      cases hl
    have ho : t.Owned s.held := by
      rw [Client.held_of_some hfd]
      cases hst : s.mStatus with
      | null => exact absurd hst h.ne_null
      | connecting => exact absurd ((consistent_connecting hst).mp h).1 hfd
      | disconnect => exact absurd ((consistent_disconnect hst).mp h).1 hfd
      | connected => exact ((consistent_connected hst).mp h).2.2
    refine lost_consistent rfl ?_
    unfold Client.held at ho ⊢
    rwa [hk.1]

/-- and every step. -/
theorem Consistent.step (h : Consistent s t) {op : Op} (hp : Possible t op) :
    Consistent (step s t op).1 (step s t op).2 := by
  cases op with
  | init ip port => exact init_consistent h ip port
  | onTick k => exact onTick_consistent h hp
  | handleEvent answers => exact handleEvent_consistent h answers

end Consistent

/-- The account holds in every state that is reached. -/
theorem reachable_consistent {s : SocketClient} {t : Table ℤ} (h : Reachable s t) :
    Consistent s t := by
  induction h with
  | start rcv snd =>
    exact (consistent_disconnect rfl).mpr ⟨rfl, rfl, Table.empty_owned⟩
  | step op _ hp ih => exact ih.step hp

/-- In every reachable state the status tells exactly which descriptors the
client has open, and none was closed twice. -/
theorem status_descriptors {s : SocketClient} {t : Table ℤ} (h : Reachable s t) :
    (s.mStatus = .disconnect → s.mFd = -1 ∧ s.mSockId = -1 ∧ t.opened = []) ∧
      (s.mStatus = .connecting → s.mFd = -1 ∧ t.opened = [s.mSockId]) ∧
      (s.mStatus = .connected → t.opened = [s.mFd] ∧ (s.mSockId = s.mFd ∨ s.mSockId = -1)) ∧
      s.mStatus ≠ .null ∧ t.strays = [] := by
  have hc := reachable_consistent h
  refine ⟨fun hst => ?_, fun hst => ?_, fun hst => ?_, hc.ne_null, ?_⟩
  · obtain ⟨hfd, hid, ho⟩ := (consistent_disconnect hst).mp hc
    exact ⟨hfd, hid, List.perm_nil.mp ho.perm⟩
  · obtain ⟨hfd, -, ho⟩ := (consistent_connecting hst).mp hc
    exact ⟨hfd, List.perm_singleton.mp ho.perm⟩
  · obtain ⟨-, hid, ho⟩ := (consistent_connected hst).mp hc
    exact ⟨List.perm_singleton.mp ho.perm, hid⟩
  · unfold Consistent at hc
    split at hc
    · exact hc.elim
    · exact hc.2.2.strays
    · exact hc.2.2.strays
    · exact hc.2.2.strays

/-- A tick that starts a connect to a server that answers later. -/
def connecting : Calls where
  curTime := 10
  timeoutTime := 0
  socket := 7
  fcntl := 0
  connTime := 10
  connect := -1
  errno := EINPROGRESS
  now := 0
  select := 0
  getsockopt := 0
  temperr := 0
  setTime := 0

/-- An initialised client whose connect is in progress. -/
theorem connecting_reachable :
    Reachable (step (step (SocketClient.create 0 0) Table.empty (.init none 0)).1 Table.empty
      (.onTick connecting)).1 ⟨[7], []⟩ := by
  have h := Reachable.step (.init none 0) (Reachable.start 0 0) trivial
  exact Reachable.step (.onTick connecting) h fun _ => ⟨by decide, List.not_mem_nil⟩

/-- A client that has connected. -/
theorem status_descriptors_connected :
    ∃ s, Reachable s ⟨[7], []⟩ ∧ s.mStatus = .connected ∧ s.mFd = 7 ∧ s.mSockId = 7 ∧
      ([7] = [s.mFd] ∧ (s.mSockId = s.mFd ∨ s.mSockId = -1)) := by
  have h := Reachable.step (.onTick {connecting with now := 11, select := 1, socket := -1})
    connecting_reachable fun hs => absurd hs (by decide)
  exact ⟨_, h, rfl, rfl, rfl, (status_descriptors h).2.2.1 rfl⟩

/-! ## Pending connects -/

/-- The `connect` of a tick returns `EINPROGRESS`. -/
structure Pending (s : SocketClient) (k : Calls) : Prop where
  /-- The client was started. -/
  mInit : s.mInit = true
  /-- It is not connected. -/
  mStatus : s.mStatus = .disconnect
  /-- The pause between two attempts is over. -/
  space : CONN_SPACE ≤ k.curTime - s.mLastConnTime
  /-- `socket` gives a descriptor. -/
  socket : 0 ≤ k.socket
  /-- `fcntl` works. -/
  fcntl : k.fcntl ≠ -1
  /-- `connect` does not return at once. -/
  connect : k.connect < 0
  /-- The connect is in progress. -/
  errno : k.errno = EINPROGRESS

/-- Ticks one after another. -/
def ticks (s : SocketClient) (t : Table ℤ) (ks : List Calls) : SocketClient × Table ℤ :=
  ks.foldl (fun st k => st.1.onTick st.2 k) (s, t)

/-- At every tick up to `CONN_TIMEOUT` seconds after `connTime` the client has
stayed connecting on the descriptor. -/
def KeptPending (s : SocketClient) (t : Table ℤ) (fd connTime : ℤ) (ks : List Calls) : Prop :=
  ∀ i (hi : i < ks.length), ks[i].now - connTime ≤ CONN_TIMEOUT → ∀ j ≤ i,
    (ticks s t (ks.take (j + 1))).1.mStatus = .connecting ∧
      (ticks s t (ks.take (j + 1))).1.mSockId = fd

section Pending

variable {s : SocketClient} {t : Table ℤ} {k : Calls}

/-- The tick remembers its socket and its time. -/
theorem Pending.onTick (h : Pending s k) (t : Table ℤ) :
    (s.onTick t k).1.mInit = true ∧ (s.onTick t k).1.mStatus = .connecting ∧
      (s.onTick t k).1.mSockId = k.socket ∧ (s.onTick t k).1.mLastConnTime = k.connTime := by
  have hs : ¬k.socket < 0 := Int.not_lt.mpr h.socket
  rw [SocketClient.onTick_disconnect h.mInit h.mStatus, if_pos h.space]
  unfold SocketClient.connectServer
  simp only [h.mStatus, hs, h.fcntl, h.connect, h.errno, ne_eq, not_true_eq_false, if_true,
    if_false]
  exact ⟨h.mInit, trivial, trivial, trivial⟩

/-- A tick that finds the socket not yet writable gives the connect up. -/
theorem select_zero_gives_up (hi : s.mInit = true) (hst : s.mStatus = .connecting)
    (hid : 0 < s.mSockId) (hk : k.select = 0) (t : Table ℤ) :
    (s.onTick t k).1.mStatus = .disconnect := by
  have he : s.errRet k < 0 := by
    unfold SocketClient.errRet
    split
    · decide
    · rw [if_pos (by omega)]
      decide
  rw [SocketClient.onTick_connecting hi hst,
    SocketClient.onCheckConnecting_pending hst hid, if_pos he]
  rfl

/-- While `select` reports that the socket is not yet writable, a pending
connect is given its time exactly when no tick comes within it. -/
theorem pending_kept_iff (hp : Possible t (.onTick k)) (hc : Pending s k) {ks : List Calls}
    (hz : ∀ k' ∈ ks, k'.select = 0 ∧ k'.getsockopt ≠ -1 ∧ k'.temperr = 0) :
    KeptPending (s.onTick t k).1 (s.onTick t k).2 k.socket k.connTime ks ↔
      ∀ k' ∈ ks, CONN_TIMEOUT < k'.now - k.connTime := by
  obtain ⟨hi, hst, hid, -⟩ := hc.onTick t
  constructor
  · intro hk k' hk'
    by_contra hnow
    obtain ⟨i, hilt, rfl⟩ := List.getElem_of_mem hk'
    have hkept := (hk i hilt (Int.not_lt.mp hnow) 0 (Nat.zero_le i)).1
    cases ks with
    | nil => exact absurd hk' List.not_mem_nil
    | cons k₀ ks =>
      have hz₀ := (hz k₀ List.mem_cons_self).1
      have hpos : 0 < (s.onTick t k).1.mSockId := by
        rw [hid]
        exact (hp hc.socket).1
      have hgone := select_zero_gives_up hi hst hpos hz₀ (s.onTick t k).2
      have hstay : ((s.onTick t k).1.onTick (s.onTick t k).2 k₀).1.mStatus = .connecting := hkept
      rw [hgone] at hstay
      cases hstay
  · intro hlate i hilt hnow
    have h := hlate _ (List.getElem_mem hilt)
    omega

/-- A tick one second after the connect began, the socket not yet writable. -/
def notYetWritable : Calls := {connecting with now := 11, socket := -1}

/-- A connect that cannot be completed at once. -/
theorem connecting_pending :
    Pending (step (SocketClient.create 0 0) Table.empty (.init none 0)).1 connecting where
  mInit := rfl
  mStatus := rfl
  space := by decide
  socket := by decide
  fcntl := by decide
  connect := by decide
  errno := rfl

/-- The check comes later than it has to. -/
theorem pending_kept_iff_late :
    KeptPending (step (step (SocketClient.create 0 0) Table.empty (.init none 0)).1 Table.empty
        (.onTick connecting)).1 ⟨[7], []⟩ 7 10 [{notYetWritable with now := 16}] ↔
      ∀ k' ∈ [{notYetWritable with now := 16}], CONN_TIMEOUT < k'.now - 10 := by
  refine pending_kept_iff (t := Table.empty) (k := connecting) (fun _ => ⟨by decide, ?_⟩)
    connecting_pending ?_
  · exact List.not_mem_nil
  · intro k' hk'
    rw [List.mem_singleton.mp hk']
    exact ⟨rfl, by decide, rfl⟩

/-- The connect began at second 10 and is given up at second 11. -/
theorem pending_given_up :
    ∃ s t k, Reachable s t ∧ Possible t (.onTick k) ∧ Pending s k ∧ k.connTime = 10 ∧
      notYetWritable.now = 11 ∧ notYetWritable.select = 0 ∧ notYetWritable.temperr = 0 ∧
      ¬KeptPending (s.onTick t k).1 (s.onTick t k).2 k.socket k.connTime [notYetWritable] := by
  have hr := Reachable.step (.init none 0) (Reachable.start 0 0) trivial
  refine ⟨_, _, connecting, hr, fun _ => ⟨by decide, List.not_mem_nil⟩, connecting_pending, rfl,
    rfl, rfl, rfl, fun hk => ?_⟩
  have hst := (hk 0 Nat.one_pos (by decide) 0 (Nat.le_refl 0)).1
  cases hst

end Pending

end CdroidDemo.ClientConnection
