import CdroidDemo.ClientConnection
import CdroidDemo.SpacedEvents

/-!
# Connecting again

The client tries to connect from its ticks, at most every five seconds, and a
failed attempt moves on to the next port of its range. The range has one port.
Once the network lets connects through, ticks that come often enough connect
the client in time, whatever has failed before.
-/

namespace CdroidDemo.ConnectRetries

open Descriptors TcpClient ClientConnection SpacedEvents SocketClient

/-! ## What a run shows -/

/-- What the network sees of a client. -/
inductive Event
  /-- A call of `connect`, with the clock before it and the port. -/
  | attempt (time : ℤ) (port : UInt16)
  /-- A connect that is given up. -/
  | failed

/-- What is seen in a tick. -/
def seen (s : SocketClient) (k : Calls) : List Event :=
  if !s.mInit then []
  else if s.mStatus = .connecting then
    if 0 < s.mSockId ∧ s.errRet k < 0 then [.failed] else []
  else if s.mStatus = .disconnect ∧ CONN_SPACE ≤ k.curTime - s.mLastConnTime ∧
      0 ≤ k.socket ∧ k.fcntl ≠ -1 then
    .attempt k.connTime s.mPort ::
      if k.connect < 0 ∧ k.errno ≠ EINPROGRESS then [.failed] else []
  else []

/-- What is seen in a call. -/
def seenIn (s : SocketClient) : Op → List Event
  | .onTick k => seen s k
  | _ => []

/-- Calls in order. -/
def run (s : SocketClient) (t : Table ℤ) : List Op → SocketClient × Table ℤ
  | [] => (s, t)
  | op :: ops => run (step s t op).1 (step s t op).2 ops

/-- What is seen of calls in order. -/
def log (s : SocketClient) (t : Table ℤ) : List Op → List Event
  | [] => []
  | op :: ops => seenIn s op ++ log (step s t op).1 (step s t op).2 ops

/-- The times of the attempts. -/
def times (es : List Event) : List ℤ :=
  es.filterMap fun
    | .attempt time _ => some time
    | .failed => none

/-- The port behind `n` failures. -/
def portAfter (p : UInt16) (n : ℕ) : UInt16 := if p = 65535 then p + UInt16.ofNat n else p

/-- Every attempt goes to the port that the failures before it leave. -/
def Ports (p : UInt16) : ℕ → List Event → Prop
  | _, [] => True
  | n, .attempt _ port :: es => port = portAfter p n ∧ Ports p n es
  | n, .failed :: es => Ports p (n + 1) es

/-- The port that the first `init` sets. -/
def portOf : List Op → UInt16
  | [] => 19090
  | .init _ port :: _ => if 0 < port then port else 19090
  | .onTick _ :: ops => portOf ops
  | .handleEvent _ :: ops => portOf ops

/-! ## One tick -/

/-- The ports and the time of the last attempt. -/
structure Aims (s s' : SocketClient) (port : UInt16) (time : ℤ) : Prop where
  /-- The client stays started. -/
  mInit : s'.mInit = s.mInit
  /-- The port asked for stays. -/
  mRPort : s'.mRPort = s.mRPort
  /-- The port of the next attempt. -/
  mPort : s'.mPort = port
  /-- When the last attempt was made. -/
  mLastConnTime : s'.mLastConnTime = time

/-- What a tick of an initialised client does to them. -/
inductive Tried (s : SocketClient) (k : Calls) : List Event → SocketClient → Prop
  /-- No attempt is made and none ends. -/
  | quiet {s' : SocketClient} (h : Aims s s' s.mPort s.mLastConnTime) : Tried s k [] s'
  /-- There is no socket for an attempt. -/
  | unopened {s' : SocketClient} (hd : CONN_SPACE ≤ k.curTime - s.mLastConnTime)
      (h : Aims s s' s.mPort k.curTime) : Tried s k [] s'
  /-- An attempt is made and goes on. -/
  | underWay {s' : SocketClient} (hd : CONN_SPACE ≤ k.curTime - s.mLastConnTime)
      (h : Aims s s' s.mPort k.connTime) : Tried s k [.attempt k.connTime s.mPort] s'
  /-- An attempt is made and fails at once. -/
  | refused {s' : SocketClient} (hd : CONN_SPACE ≤ k.curTime - s.mLastConnTime)
      (h : Aims s s' s.nextPort.mPort k.connTime) :
      Tried s k [.attempt k.connTime s.mPort, .failed] s'
  /-- A pending attempt fails. -/
  | givenUp {s' : SocketClient} (h : Aims s s' s.nextPort.mPort s.mLastConnTime) :
      Tried s k [.failed] s'

/-- Losing the connection keeps the port, -/
theorem onStatusChange_aims (s : SocketClient) (t : Table ℤ) :
    Aims s (s.onStatusChange t).1 s.mPort s.mLastConnTime := by
  unfold SocketClient.onStatusChange
  split <;> exact ⟨rfl, rfl, rfl, rfl⟩

/-- and so does taking a descriptor. -/
theorem setFd_aims (s : SocketClient) (t : Table ℤ) (fd uptime : ℤ) :
    Aims s (s.setFd t fd uptime).1 s.mPort s.mLastConnTime := by
  unfold SocketClient.setFd
  split
  · exact ⟨rfl, rfl, rfl, rfl⟩
  · next c _ =>
    have h := onStatusChange_aims {s with toClient := c} t
    exact ⟨h.mInit, h.mRPort, h.mPort, h.mLastConnTime⟩

/-- An attempt that is due. -/
theorem connectServer_tried {s : SocketClient} {k : Calls} (hi : s.mInit = true)
    (hst : s.mStatus = .disconnect) (t : Table ℤ)
    (hd : CONN_SPACE ≤ k.curTime - s.mLastConnTime) :
    Tried s k (seen s k) ({s with mLastConnTime := k.curTime}.connectServer t k).1 := by
  have hinit : ¬(!s.mInit) = true := by rw [hi]; exact Bool.false_ne_true
  unfold seen connectServer
  rw [if_neg hinit, if_neg (by rw [hst]; exact STATUS.noConfusion), if_neg (not_not_intro hst)]
  by_cases hs : k.socket < 0
  · rw [if_pos hs, if_neg (fun h => absurd h.2.2.1 (not_le.mpr hs))]
    exact .unopened hd ⟨rfl, rfl, rfl, rfl⟩
  · rw [if_neg hs]
    by_cases hf : k.fcntl = -1
    · simp only [if_pos hf]
      rw [if_neg (fun h => absurd hf h.2.2.2)]
      exact .unopened hd ⟨rfl, rfl, rfl, rfl⟩
    · simp only [if_neg hf]
      rw [if_pos ⟨hst, hd, not_lt.mp hs, hf⟩]
      by_cases hc : k.connect < 0
      · simp only [if_pos hc]
        by_cases he : k.errno ≠ EINPROGRESS
        · rw [if_pos ⟨hc, he⟩, if_pos he]
          exact .refused hd ⟨rfl, rfl, rfl, rfl⟩
        · rw [if_neg (fun h => he h.2), if_neg he]
          exact .underWay hd ⟨rfl, rfl, rfl, rfl⟩
      · simp only [if_neg hc]
        rw [if_neg (fun h => hc h.1)]
        have h := setFd_aims {s with mLastConnTime := k.connTime} (t.alloc k.socket) k.socket
          k.setTime
        exact .underWay hd ⟨h.mInit, h.mRPort, h.mPort, h.mLastConnTime⟩

/-- What a tick tries, by the status. -/
theorem tick_tried {s : SocketClient} (hi : s.mInit = true) (t : Table ℤ) (k : Calls) :
    Tried s k (seen s k) (s.onTick t k).1 := by
  have hinit : ¬(!s.mInit) = true := by rw [hi]; exact Bool.false_ne_true
  cases hst : s.mStatus with
  | null =>
    have hconn : ¬s.isConn = true := by
      rw [Client.isConn_iff, hst]
      exact STATUS.noConfusion
    have hne : s.mStatus ≠ .connecting := by
      rw [hst]
      exact STATUS.noConfusion
    have hne' : s.mStatus ≠ .disconnect := by
      rw [hst]
      exact STATUS.noConfusion
    unfold seen onTick
    rw [if_neg hinit, if_neg hne, if_neg (fun h => hne' h.1), if_neg hinit, if_neg hconn,
      if_neg hne]
    split
    · next hd =>
      unfold connectServer
      rw [if_pos hne']
      exact .unopened hd ⟨rfl, rfl, rfl, rfl⟩
    · exact .quiet ⟨rfl, rfl, rfl, rfl⟩
  | connected =>
    unfold seen
    rw [if_neg hinit, hst, if_neg STATUS.noConfusion, if_neg (fun h => STATUS.noConfusion h.1),
      onTick_connected hi hst]
    split
    · have h := onStatusChange_aims {s with mStatus := .disconnect} t
      exact .quiet ⟨h.mInit, h.mRPort, h.mPort, h.mLastConnTime⟩
    · exact .quiet ⟨rfl, rfl, rfl, rfl⟩
  | connecting =>
    unfold seen
    rw [if_neg hinit, if_pos hst, onTick_connecting hi hst]
    by_cases hid : 0 < s.mSockId
    · rw [onCheckConnecting_pending hst hid]
      by_cases herr : s.errRet k < 0
      · rw [if_pos ⟨hid, herr⟩, if_pos herr]
        exact .givenUp ⟨rfl, rfl, rfl, rfl⟩
      · rw [if_neg (fun h => herr h.2), if_neg herr]
        exact .quiet (setFd_aims s t _ _)
    · rw [if_neg (fun h => hid h.1)]
      unfold onCheckConnecting
      rw [if_pos (Or.inr (not_lt.mp hid))]
      exact .quiet ⟨rfl, rfl, rfl, rfl⟩
  | disconnect =>
    rw [onTick_disconnect hi hst]
    by_cases hd : CONN_SPACE ≤ k.curTime - s.mLastConnTime
    · rw [if_pos hd]
      exact connectServer_tried hi hst t hd
    · have hne : s.mStatus ≠ .connecting := by
        rw [hst]
        exact STATUS.noConfusion
      unfold seen
      rw [if_neg hinit, if_neg hne, if_neg (fun h => hd h.2.1), if_neg hd]
      exact .quiet ⟨rfl, rfl, rfl, rfl⟩

/-- Other calls leave ports and times alone, but the first `init` sets the port. -/
theorem handleEvent_aims (s : SocketClient) (t : Table ℤ) (answers : List Recv) :
    Aims s (s.handleEvent t answers).1 s.mPort s.mLastConnTime := by
  unfold SocketClient.handleEvent
  dsimp only
  split
  · next hlost =>
    have h := onStatusChange_aims {s with toClient := {(s.toClient.readLoop onRecvData
      answers).client with mStatus := .disconnect}} t
    exact ⟨h.mInit, h.mRPort, h.mPort, h.mLastConnTime⟩
  · exact ⟨rfl, rfl, rfl, rfl⟩

/-- A second `init` does nothing, -/
theorem init_of_mInit {s : SocketClient} (hi : s.mInit = true) (ip : Option String)
    (port : UInt16) : s.init ip port = s := by
  unfold SocketClient.init
  rw [if_pos hi]

/-- and neither does a tick before the first. -/
theorem onTick_of_not_mInit {s : SocketClient} (hi : s.mInit = false) (t : Table ℤ) (k : Calls) :
    s.onTick t k = (s, t) := by
  unfold SocketClient.onTick
  rw [hi, Bool.not_false, if_pos rfl]

/-! ## Ports and distances -/

/-- The range ends at the port of `init`, and `n` failures have moved the port. -/
structure Aimed (p : UInt16) (n : ℕ) (s : SocketClient) : Prop where
  /-- The port asked for. -/
  mRPort : s.mRPort = p
  /-- The port after some failures. -/
  mPort : s.mPort = portAfter p n

/-- No failure leaves the port as it is. -/
theorem portAfter_zero (p : UInt16) : portAfter p 0 = p := by
  unfold portAfter
  split
  · exact UInt16.add_zero p
  · rfl

/-- A failure moves on to the next port. -/
theorem Aimed.next {p : UInt16} {n : ℕ} {s : SocketClient} (h : Aimed p n s) :
    s.nextPort.mPort = portAfter p (n + 1) := by
  unfold nextPort
  dsimp only
  rw [h.mRPort, h.mPort]
  unfold portAfter
  by_cases hp : p = 65535
  · rw [if_pos hp, if_pos hp]
    have hlast : ¬p < p + UInt16.ofNat n + 1 := by
      have hmax : (65535 : UInt16).toNat = 65535 := rfl
      have hlt := UInt16.toNat_lt (p + UInt16.ofNat n + 1)
      rw [UInt16.lt_iff_toNat_lt, hp, hmax, ← hp]
      omega
    rw [if_neg hlast, UInt16.ofNat_add, ← UInt16.add_assoc]
    rfl
  · rw [if_neg hp, if_neg hp]
    have hnext : p < p + 1 := by
      rw [UInt16.lt_iff_toNat_lt, UInt16.toNat_add]
      have hne : p.toNat ≠ 65535 := fun h => hp (UInt16.toNat_inj.mp h)
      have hlt := p.toNat_lt
      rw [Nat.mod_eq_of_lt (by change p.toNat + 1 < 2 ^ 16; omega)]
      change p.toNat < p.toNat + 1
      omega
    rw [if_pos hnext]
    exact UInt16.sub_zero p

/-- An attempt on the same port, -/
theorem Aims.aimed {p : UInt16} {n : ℕ} {s s' : SocketClient} {time : ℤ} (h : Aimed p n s)
    (ha : Aims s s' s.mPort time) : Aimed p n s' :=
  ⟨ha.mRPort.trans h.mRPort, ha.mPort.trans h.mPort⟩

/-- and one on the next. -/
theorem Aims.aimed_next {p : UInt16} {n : ℕ} {s s' : SocketClient} {time : ℤ} (h : Aimed p n s)
    (ha : Aims s s' s.nextPort.mPort time) : Aimed p (n + 1) s' :=
  ⟨ha.mRPort.trans h.mRPort, ha.mPort.trans h.next⟩

/-- Attempts of an initialised client keep their distance and go to its ports. -/
theorem log_paced {p : UInt16} {n : ℕ} {s : SocketClient} (hi : s.mInit = true)
    (ha : Aimed p n s) (t : Table ℤ) {ops : List Op}
    (hc : ∀ k, .onTick k ∈ ops → k.curTime ≤ k.connTime) :
    Apart CONN_SPACE s.mLastConnTime (times (log s t ops)) ∧ Ports p n (log s t ops) := by
  induction ops generalizing s t n with
  | nil => exact ⟨trivial, trivial⟩
  | cons op ops ih =>
    have hrest : ∀ k, .onTick k ∈ ops → k.curTime ≤ k.connTime :=
      fun k hk => hc k (List.mem_cons_of_mem op hk)
    rw [log]
    cases op with
    | init ip port =>
      have hsame : step s t (.init ip port) = (s, t) := by
        rw [step, init_of_mInit hi]
      rw [hsame]
      exact ih hi ha t hrest
    | handleEvent answers =>
      have h := handleEvent_aims s t answers
      have hlast : (step s t (.handleEvent answers)).1.mLastConnTime = s.mLastConnTime :=
        h.mLastConnTime
      rw [← hlast]
      exact ih (h.mInit.trans hi) (h.aimed ha) _ hrest
    | onTick k =>
      have hcur := hc k List.mem_cons_self
      change Apart CONN_SPACE s.mLastConnTime (times (seen s k ++ log (s.onTick t k).1
        (s.onTick t k).2 ops)) ∧ Ports p n (seen s k ++ log (s.onTick t k).1 (s.onTick t k).2 ops)
      have hspace : CONN_SPACE = 5 := rfl
      have htried := tick_tried hi t k
      generalize (s.onTick t k).2 = t'
      generalize seen s k = es, (s.onTick t k).1 = s' at htried ⊢
      cases htried with
      | quiet h =>
        rw [← h.mLastConnTime]
        exact ih (h.mInit.trans hi) (h.aimed ha) t' hrest
      | unopened hd h =>
        obtain ⟨hapart, hports⟩ := ih (h.mInit.trans hi) (h.aimed ha) t' hrest
        rw [h.mLastConnTime] at hapart
        exact ⟨hapart.earlier (by omega), hports⟩
      | underWay hd h =>
        obtain ⟨hapart, hports⟩ := ih (h.mInit.trans hi) (h.aimed ha) t' hrest
        rw [h.mLastConnTime] at hapart
        exact ⟨⟨by omega, hapart⟩, ha.mPort, hports⟩
      | refused hd h =>
        obtain ⟨hapart, hports⟩ := ih (h.mInit.trans hi) (h.aimed_next ha) t' hrest
        rw [h.mLastConnTime] at hapart
        exact ⟨⟨by omega, hapart⟩, ha.mPort, hports⟩
      | givenUp h =>
        obtain ⟨hapart, hports⟩ := ih (h.mInit.trans hi) (h.aimed_next ha) t' hrest
        rw [h.mLastConnTime] at hapart
        exact ⟨hapart, hports⟩

/-- Before `init` there are no attempts; `init` sets the port. -/
theorem log_paced_new {s : SocketClient} (hi : s.mInit = false) (hp : s.mPort = 19090)
    (t : Table ℤ) {ops : List Op} (hc : ∀ k, .onTick k ∈ ops → k.curTime ≤ k.connTime) :
    Apart CONN_SPACE s.mLastConnTime (times (log s t ops)) ∧
      Ports (portOf ops) 0 (log s t ops) := by
  induction ops generalizing s t with
  | nil => exact ⟨trivial, trivial⟩
  | cons op ops ih =>
    have hrest : ∀ k, .onTick k ∈ ops → k.curTime ≤ k.connTime :=
      fun k hk => hc k (List.mem_cons_of_mem op hk)
    rw [log]
    cases op with
    | init ip port =>
      have haim : Aimed (if 0 < port then port else 19090) 0 (s.init ip port) := by
        have hinit : s.init ip port = {s with
            mIp := ip.getD s.mIp
            mPort := if 0 < port then port else s.mPort
            mRPort := (if 0 < port then port else s.mPort) + RPORT_LEN
            mInit := true} := by
          unfold SocketClient.init
          rw [if_neg (by rw [hi]; exact Bool.false_ne_true)]
        rw [hinit, hp]
        exact ⟨UInt16.add_zero _, (portAfter_zero _).symm⟩
      have hinit : (s.init ip port).mInit = true ∧
          (s.init ip port).mLastConnTime = s.mLastConnTime := by
        unfold SocketClient.init
        rw [if_neg (by rw [hi]; exact Bool.false_ne_true)]
        exact ⟨rfl, rfl⟩
      rw [← hinit.2]
      exact log_paced hinit.1 haim t hrest
    | handleEvent answers =>
      have h := handleEvent_aims s t answers
      have hlast : (step s t (.handleEvent answers)).1.mLastConnTime = s.mLastConnTime :=
        h.mLastConnTime
      rw [← hlast]
      exact ih (h.mInit.trans hi) (h.mPort.trans hp) _ hrest
    | onTick k =>
      have hsame : step s t (.onTick k) = (s, t) := onTick_of_not_mInit hi t k
      have hnone : seenIn s (.onTick k) = [] := by
        rw [seenIn, seen, hi, Bool.not_false, if_pos rfl]
      rw [hsame, hnone]
      exact ih hi hp t hrest

/-- Whatever the network answers, the attempts of a client are at least five
seconds apart, and all go to the port of the first `init`. Only from the last
port, 65535, each failure moves on by one, starting again at 0. -/
theorem attempts_paced (rcv snd : ℤ) {ops : List Op}
    (hc : ∀ k, .onTick k ∈ ops → k.curTime ≤ k.connTime) :
    Apart CONN_SPACE 0 (times (log (create rcv snd) Table.empty ops)) ∧
      Ports (portOf ops) 0 (log (create rcv snd) Table.empty ops) :=
  log_paced_new (s := create rcv snd) rfl rfl Table.empty hc

/-- A tick whose attempt the server refuses. -/
def refusedAt (time : ℤ) : Calls :=
  {connecting with curTime := time, connTime := time, errno := 111}

/-- Four ticks on the last port; the second one comes too early. -/
def retries : List Op :=
  [.init none 65535, .onTick (refusedAt 100), .onTick (refusedAt 104), .onTick (refusedAt 105),
    .onTick (refusedAt 111)]

/-- The port wraps around after 65535. -/
theorem attempts_paced_lastPort :
    Apart CONN_SPACE 0 [100, 105, 111] ∧
      Ports 65535 0 [.attempt 100 65535, .failed, .attempt 105 0, .failed, .attempt 111 1,
        .failed] := by
  have hc : ∀ k, .onTick k ∈ retries → k.curTime ≤ k.connTime := by
    intro k hk
    simp only [retries, List.mem_cons, Op.onTick.injEq, reduceCtorEq, List.not_mem_nil, or_false,
      false_or] at hk
    rcases hk with rfl | rfl | rfl | rfl <;> exact le_refl _
  exact attempts_paced 0 0 hc

/-! ## Connected in time -/

/-- The network lets a connect through. -/
structure Good (k : Calls) : Prop where
  /-- `socket` gives a descriptor. -/
  socket : 0 < k.socket
  /-- `fcntl` works. -/
  fcntl : k.fcntl ≠ -1
  /-- `connect` returns at once or is in progress. -/
  connect : 0 ≤ k.connect ∨ k.errno = EINPROGRESS
  /-- `select` sees the socket ready. -/
  select : 0 < k.select
  /-- `getsockopt` works. -/
  getsockopt : k.getsockopt ≠ -1
  /-- The connect has no error. -/
  temperr : k.temperr = 0

/-- Every tick meets a good network and is over at most `g` seconds after the
one before has begun. -/
def Ticking (g : ℤ) : ℤ → List Op → Prop
  | _, [] => True
  | begun, .onTick k :: ops =>
    (Good k ∧ k.curTime ≤ k.connTime ∧ k.connTime ≤ k.now ∧ k.now - begun ≤ g) ∧
      Ticking g k.curTime ops
  | begun, _ :: ops => Ticking g begun ops

/-- A client that is connected by `D` if its ticks go on. The last one began at
`begun`. -/
inductive Near (g begun D : ℤ) (s : SocketClient) : Prop
  /-- The pause before the next attempt is still on. -/
  | waiting (hst : s.mStatus = .disconnect) (hb : begun + 2 * g ≤ D)
      (hd : s.mLastConnTime + CONN_SPACE + 2 * g ≤ D) : Near g begun D s
  /-- A connect is pending since the last tick. -/
  | fresh (hst : s.mStatus = .connecting) (hid : 0 < s.mSockId) (hl : begun ≤ s.mLastConnTime)
      (hb : begun + g ≤ D) : Near g begun D s
  /-- A connect may be pending for longer. -/
  | stale (hst : s.mStatus = .connecting) (hid : 0 < s.mSockId) (hb : begun + 3 * g ≤ D) :
      Near g begun D s

/-- A descriptor makes a connection. -/
theorem setFd_connected {s : SocketClient} {fd : ℤ} (hfd : 0 < fd) (t : Table ℤ) (uptime : ℤ) :
    (s.setFd t fd uptime).1.mStatus = .connected := by
  unfold SocketClient.setFd Client.setFd
  rw [if_neg (not_le.mpr hfd)]
  rfl

/-- In a good network a pending connect only fails by its age. -/
theorem Good.errRet {k : Calls} (h : Good k) (s : SocketClient) :
    s.errRet k < 0 ↔ CONN_TIMEOUT < k.now - s.mLastConnTime := by
  unfold SocketClient.errRet
  split
  · next hlate => exact ⟨fun _ => hlate, fun _ => by decide⟩
  · next hearly =>
    rw [if_neg (not_le.mpr h.select), if_neg h.getsockopt, if_neg (not_not_intro h.temperr)]
    exact ⟨fun h => absurd h (lt_irrefl 0), fun hlate => absurd hlate hearly⟩

/-- A tick connects the client or brings it nearer. -/
theorem Near.tick {g begun D : ℤ} {s : SocketClient} (h : Near g begun D s)
    (hi : s.mInit = true) (hfd : s.mFd = -1) (hg : g ≤ CONN_TIMEOUT) {k : Calls} (hk : Good k)
    (hcur : k.curTime ≤ k.connTime) (hconn : k.connTime ≤ k.now) (hnow : k.now - begun ≤ g)
    (t : Table ℤ) :
    (s.onTick t k).1.mStatus = .connected ∨ ((s.onTick t k).1.mInit = true ∧
      (s.onTick t k).1.mFd = -1 ∧ Near g k.curTime D (s.onTick t k).1) := by
  have hspace : CONN_SPACE = 5 := rfl
  have htimeout : CONN_TIMEOUT = 5 := rfl
  cases h with
  | waiting hst hb hd =>
    rw [onTick_disconnect hi hst]
    by_cases hdue : CONN_SPACE ≤ k.curTime - s.mLastConnTime
    · rw [if_pos hdue]
      unfold connectServer
      rw [if_neg (not_not_intro hst), if_neg (not_lt.mpr hk.socket.le)]
      simp only [if_neg hk.fcntl]
      by_cases hc : k.connect < 0
      · have he : k.errno = EINPROGRESS := hk.connect.resolve_left (not_le.mpr hc)
        simp only [if_pos hc, he, ne_eq, not_true_eq_false, if_false]
        refine Or.inr ⟨hi, hfd, Near.fresh rfl hk.socket hcur (by omega)⟩
      · simp only [if_neg hc]
        exact Or.inl (setFd_connected hk.socket _ _)
    · rw [if_neg hdue]
      exact Or.inr ⟨hi, hfd, Near.waiting hst (by omega) hd⟩
  | fresh hst hid hl hb =>
    rw [onTick_connecting hi hst, onCheckConnecting_pending hst hid]
    have hyoung : ¬s.errRet k < 0 := fun herr => by
      have hlate := (hk.errRet s).mp herr
      omega
    rw [if_neg hyoung]
    exact Or.inl (setFd_connected hid _ _)
  | stale hst hid hb =>
    rw [onTick_connecting hi hst, onCheckConnecting_pending hst hid]
    by_cases herr : s.errRet k < 0
    · rw [if_pos herr]
      have hlate := (hk.errRet s).mp herr
      refine Or.inr ⟨hi, hfd, Near.waiting rfl (by omega) ?_⟩
      change s.mLastConnTime + CONN_SPACE + 2 * g ≤ D
      omega
    · rw [if_neg herr]
      exact Or.inl (setFd_connected hid _ _)

/-- The deadline is not behind the next tick. -/
theorem Near.soon {g begun D : ℤ} {s : SocketClient} (h : Near g begun D s) {now : ℤ}
    (hg : 0 ≤ g) (hnow : now - begun ≤ g) : now ≤ D := by
  cases h with
  | waiting hst hb hd => omega
  | fresh hst hid hl hb => omega
  | stale hst hid hb => omega

/-- A client on its way stays on its way until it is connected. -/
theorem Near.connects {g begun D : ℤ} {s : SocketClient} (h : Near g begun D s)
    (hi : s.mInit = true) (hfd : s.mFd = -1) (h0 : 0 ≤ g) (hg : g ≤ CONN_TIMEOUT) (t : Table ℤ)
    {ops : List Op} (hk : Ticking g begun ops) (hlate : ∃ k, .onTick k ∈ ops ∧ D < k.now) :
    ∃ pre post, ops = pre ++ post ∧ (run s t pre).1.mStatus = .connected ∧
      ∀ k, .onTick k ∈ pre → k.now ≤ D := by
  induction ops generalizing begun s t with
  | nil =>
    obtain ⟨k, hk, -⟩ := hlate
    cases hk
  | cons op ops ih =>
    obtain ⟨k₀, hmem, hD⟩ := hlate
    have hskip : step s t op = (s, t) → Ticking g begun ops → (.onTick k₀ : Op) ≠ op →
        (∀ k, .onTick k ≠ op) → ∃ pre post, op :: ops = pre ++ post ∧
          (run s t pre).1.mStatus = .connected ∧ ∀ k, .onTick k ∈ pre → k.now ≤ D := by
      intro hsame hk hne hno
      obtain ⟨pre, post, rfl, hst, hall⟩ :=
        ih h hi hfd t hk ⟨k₀, List.mem_of_ne_of_mem hne hmem, hD⟩
      refine ⟨op :: pre, post, rfl, ?_, fun k hk => hall k (List.mem_of_ne_of_mem (hno k) hk)⟩
      rwa [run, hsame]
    cases op with
    | init ip port =>
      have hsame : step s t (.init ip port) = (s, t) := by
        rw [step, init_of_mInit hi]
      exact hskip hsame hk (by simp) (by simp)
    | handleEvent answers =>
      have hsame : step s t (.handleEvent answers) = (s, t) := by
        rw [step, SocketClient.handleEvent, Client.readLoop_closed hfd]
        rfl
      exact hskip hsame hk (by simp) (by simp)
    | onTick k =>
      obtain ⟨⟨hgood, hcur, hconn, hnow⟩, hrest⟩ := hk
      have hsoon := h.soon h0 hnow
      rcases h.tick hi hfd hg hgood hcur hconn hnow t with hdone | ⟨hi', hfd', h'⟩
      · refine ⟨[.onTick k], ops, rfl, hdone, fun k' hk' => ?_⟩
        cases List.mem_singleton.mp hk'
        exact hsoon
      · have hne : (.onTick k₀ : Op) ≠ .onTick k := by
          intro he
          cases he
          omega
        obtain ⟨pre, post, rfl, hst, hall⟩ :=
          ih h' hi' hfd' (s.onTick t k).2 hrest ⟨k₀, List.mem_of_ne_of_mem hne hmem, hD⟩
        refine ⟨.onTick k :: pre, post, rfl, hst, fun k' hk' => ?_⟩
        rcases List.mem_cons.mp hk' with he | hk'
        · cases he
          exact hsoon
        · exact hall k' hk'

/-- From every state of an initialised client on, when the network lets
connects through and ticks are over at most `g` seconds after the one before has
begun, with `g` at most the five seconds that a connect is given, the client is
connected at most `5 + 2 * g` seconds later. -/
theorem connects_in_time {s : SocketClient} {t : Table ℤ} (h : Reachable s t)
    (hi : s.mInit = true) {t₀ g : ℤ} (hl : s.mLastConnTime ≤ t₀) (h0 : 0 ≤ g)
    (hg : g ≤ CONN_TIMEOUT) {ops : List Op} (hk : Ticking g t₀ ops)
    (hlate : ∃ k, .onTick k ∈ ops ∧ t₀ + CONN_SPACE + 2 * g < k.now) :
    ∃ pre post, ops = pre ++ post ∧ (run s t pre).1.mStatus = .connected ∧
      ∀ k, .onTick k ∈ pre → k.now ≤ t₀ + CONN_SPACE + 2 * g := by
  have hc := reachable_consistent h
  have hspace : CONN_SPACE = 5 := rfl
  have htimeout : CONN_TIMEOUT = 5 := rfl
  cases hst : s.mStatus with
  | null => exact absurd hst hc.ne_null
  | connected => exact ⟨[], ops, rfl, hst, fun k hk => absurd hk List.not_mem_nil⟩
  | connecting =>
    obtain ⟨hfd, hid, -⟩ := (consistent_connecting hst).mp hc
    exact (Near.stale hst hid (by omega)).connects hi hfd h0 hg t hk hlate
  | disconnect =>
    obtain ⟨hfd, -, -⟩ := (consistent_disconnect hst).mp hc
    exact (Near.waiting hst (by omega) (by omega)).connects hi hfd h0 hg t hk hlate

/-- A tick in a good network. -/
def goodAt (time fd : ℤ) : Calls :=
  {connecting with curTime := time, connTime := time, now := time, socket := fd, select := 1}

/-- The client whose connect has been pending since second 10 gives it up at
second 18 and tries again. -/
theorem connects_in_time_afterPending :
    ∃ s t pre post, Reachable s t ∧ s.mStatus = .connecting ∧ s.mLastConnTime = 10 ∧
      [.onTick (goodAt 18 8), .onTick (goodAt 21 8), .onTick (goodAt 24 9),
        .onTick (goodAt 27 9)] = pre ++ post ∧
      (run s t pre).1.mStatus = .connected ∧ ∀ k, .onTick k ∈ pre → k.now ≤ 26 := by
  have hgood : ∀ time fd : ℤ, 0 < fd → Good (goodAt time fd) := by
    intro time fd hfd
    constructor <;> simp [goodAt, connecting, hfd]
  have hk : Ticking 3 15 [.onTick (goodAt 18 8), .onTick (goodAt 21 8), .onTick (goodAt 24 9),
      .onTick (goodAt 27 9)] := by
    refine ⟨⟨hgood _ _ (by decide), ?_⟩, ⟨hgood _ _ (by decide), ?_⟩, ⟨hgood _ _ (by decide), ?_⟩,
      ⟨hgood _ _ (by decide), ?_⟩, trivial⟩ <;> decide
  obtain ⟨pre, post, hops, hst, hall⟩ := connects_in_time connecting_reachable rfl
    (by decide) (by decide) (by decide) hk ⟨goodAt 27 9, by simp, by decide⟩
  exact ⟨_, _, pre, post, connecting_reachable, rfl, rfl, hops, hst, hall⟩

end CdroidDemo.ConnectRetries
