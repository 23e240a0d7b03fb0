import CdroidDemo.OrderedMap
import CdroidDemo.TcpClient

/-!
# The broadcasting TCP server

`SocketServer` keeps the accepted connections in a map under their
descriptors. A connection deletes itself from its own status callback, a sweep
deletes those that timed out, and data is sent to all that have identified
themselves by a key. Names are resolved as C++ does: `close` inside the server
is `SocketServer::close`, also where `init` gives up its own socket.
-/

namespace CdroidDemo.ServerConnections

open Descriptors TcpClient Client

/-- `AUTH_KEYS`, the text `cdroidServer` without its final zero. -/
def AUTH_KEYS : List UInt8 := [99, 100, 114, 111, 105, 100, 83, 101, 114, 118, 101, 114]

/-- `SVR_PORT`. -/
def SVR_PORT : ℕ := 8080

/-- `strncmp(s1, s2, n) == 0`; the end of a list is the end of its memory. -/
def strncmpZero : ℕ → List UInt8 → List UInt8 → Bool
  | 0, _, _ => true
  | n + 1, a :: s1, b :: s2 =>
    if a ≠ b then false else if a = 0 then true else strncmpZero n s1 s2
  | _ + 1, _, _ => false

namespace ServerClient

/-- The constructor; the times stay what the memory held when the descriptor
is rejected. -/
def create (rcv snd fd uptime : ℤ) : Client :=
  ((Client.initData rcv snd).setFd fd uptime).getD (Client.initData rcv snd)

/-- `ServerClient::onRecvData` at the wall clock `time`. -/
def onRecvData (time : ℤ) (c : Client) : Client × ℤ :=
  let c :=
    if !c.mIsAuth then
      if strncmpZero AUTH_KEYS.length (c.mRSBuf.buf.drop c.mRSBuf.pos) (AUTH_KEYS ++ [0]) then
        {c with mIsAuth := true}
      else c
    else c
  ({c with mLastRcvTime := time}, 0)

/-- The key, once found, stays found. -/
theorem onRecvData_eq (time : ℤ) (c : Client) :
    onRecvData time c =
      ({c with
        mIsAuth := c.mIsAuth ||
          strncmpZero AUTH_KEYS.length (c.mRSBuf.buf.drop c.mRSBuf.pos) (AUTH_KEYS ++ [0])
        mLastRcvTime := time}, 0) := by
  unfold onRecvData
  cases ha : c.mIsAuth with
  | true => simp only [ha, Bool.not_true, Bool.false_eq_true, if_false, Bool.true_or]
  | false =>
    simp only [Bool.not_false, if_true, Bool.false_or]
    split
    · rename_i h
      rw [h]
    · rename_i h
      simp only [ha, Bool.eq_false_iff.mpr h]

/-- The receive handler keeps the descriptor. -/
@[simp] theorem onRecvData_mFd (time : ℤ) (c : Client) : (onRecvData time c).1.mFd = c.mFd := by
  rw [onRecvData_eq]

/-- The test never ends the read loop, so it ends for want of bytes only. -/
theorem readLoop_cons (c : Client) (r : Recv) (answers : List Recv) :
    c.readLoop onRecvData (r :: answers) =
      if c.recv r = [] then ⟨c, decide (c.recvErrno r = ENOENT), []⟩
      else if (c.recv r).length < c.mRSBuf.free then
        ⟨(onRecvData r.time (c.readData r)).1, false, c.recv r⟩
      else
        ⟨((onRecvData r.time (c.readData r)).1.readLoop onRecvData answers).client,
          ((onRecvData r.time (c.readData r)).1.readLoop onRecvData answers).lost,
          c.recv r ++ ((onRecvData r.time (c.readData r)).1.readLoop onRecvData answers).got⟩ := by
  have hzero : (onRecvData r.time (c.readData r)).2 = 0 := by rw [onRecvData_eq]
  simp only [Client.readLoop, hzero, Int.lt_irrefl, if_false]

end ServerClient

/-- `SocketServer`. -/
structure SocketServer extends Client where
  /-- `mClients`: the connections under their descriptors. -/
  mClients : OrderedMap ℤ Client

/-- The answers to the calls of `init`. -/
structure InitCalls where
  /-- `socket`. -/
  socket : ℤ
  /-- `bind` on each port. -/
  bind : ℕ → ℤ
  /-- `listen`. -/
  listen : ℤ
  /-- The clock of `setFd`. -/
  uptime : ℤ

/-- The answers to the calls for a connection request. -/
structure AcceptCalls where
  /-- `accept`. -/
  accept : ℤ
  /-- The clock of `setFd`. -/
  uptime : ℤ
  /-- What the memory of the new object holds in `mLastRcvTime`. -/
  rcv : ℤ
  /-- What the memory of the new object holds in `mLastSndTime`. -/
  snd : ℤ

namespace SocketServer

/-- The constructor. -/
def create (rcv snd : ℤ) : SocketServer := ⟨Client.initData rcv snd, OrderedMap.empty⟩

/-- `SocketServer::close`: delete and forget a connection. -/
def close (s : SocketServer) (t : Table ℤ) (fd : ℤ) : SocketServer × Table ℤ :=
  match s.mClients.find fd with
  | none => (s, t)
  | some c => ({s with mClients := s.mClients.erase fd}, c.destroy t)

/-- `eport`. -/
def eport : ℕ := (SVR_PORT + 1000) / 1000 * 1000

/-- The port loop of `init`: turns left and `port`. -/
def bindLoop (bind : ℕ → ℤ) : ℕ → ℕ → ℕ
  | 0, port => port
  | k + 1, port => if bind port < 0 then bindLoop bind k (port + 1) else port

/-- `init`. -/
def init (s : SocketServer) (t : Table ℤ) (k : InitCalls) : SocketServer × Table ℤ × ℤ :=
  if k.socket < 0 then (s, t, 1)
  else
    let t := t.alloc k.socket
    if eport < bindLoop k.bind (eport + 1 - SVR_PORT) SVR_PORT then
      let (s, t) := s.close t k.socket
      (s, t, 1)
    else if k.listen < 0 then
      let (s, t) := s.close t k.socket
      (s, t, 1)
    else
      match s.toClient.setFd k.socket k.uptime with
      | none => (s, t, 0)
      | some c => ({s with toClient := c}, t, 0)

/-- `SocketServer::handleEvent`: accept a connection. A new object that the
map refuses would be lost. -/
def handleEvent (s : SocketServer) (t : Table ℤ) (k : AcceptCalls) : SocketServer × Table ℤ :=
  if k.accept < 0 then (s, t)
  else
    let c := ServerClient.create k.rcv k.snd k.accept k.uptime
    ({s with mClients := s.mClients.emplace k.accept c}, t.alloc k.accept)

/-- `ServerClient::onStatusChange` of the connection under a key. -/
def clientStatusChange (s : SocketServer) (t : Table ℤ) (key : ℤ) (c : Client) :
    SocketServer × Table ℤ :=
  let oldFd := c.mFd
  let (c, t) := c.onStatusChange t
  let s := {s with mClients := s.mClients.insert key c}
  if c.mStatus = .disconnect then s.close t oldFd else (s, t)

/-- `handleEvent` of the connection under a key, for a readable descriptor,
with the bytes it receives. -/
def clientEvent (s : SocketServer) (t : Table ℤ) (key : ℤ) (c : Client) (answers : List Recv) :
    SocketServer × Table ℤ × List UInt8 :=
  let r := c.readLoop ServerClient.onRecvData answers
  if r.lost then
    let (s, t) := s.clientStatusChange t key {r.client with mStatus := .disconnect}
    (s, t, r.got)
  else ({s with mClients := s.mClients.insert key r.client}, t, r.got)

/-- The loop of `onTick` over the entries; each test reads the clock. -/
def sweep (uptime : ℤ → ℤ) : List (ℤ × Client) → Table ℤ → List (ℤ × Client) × Table ℤ
  | [], t => ([], t)
  | it :: rest, t =>
    if it.2.isTimeout 0 (uptime it.1) then sweep uptime rest (it.2.destroy t)
    else
      let (kept, t) := sweep uptime rest t
      (it :: kept, t)

/-- The sweep keeps some of the clients in their order. -/
theorem sweep_sublist (uptime : ℤ → ℤ) (l : List (ℤ × Client)) (t : Table ℤ) :
    (sweep uptime l t).1.Sublist l := by
  induction l generalizing t with
  | nil => exact List.Sublist.refl _
  | cons it rest ih =>
    unfold sweep
    split
    · exact (ih _).cons it
    · exact (ih _).cons_cons it

/-- `onTick`. -/
def onTick (s : SocketServer) (t : Table ℤ) (uptime : ℤ → ℤ) : SocketServer × Table ℤ :=
  let r := sweep uptime s.mClients.entries t
  ({s with mClients := ⟨r.1, s.mClients.ascending.sublist (sweep_sublist _ _ t)⟩}, r.2)

/-- The body of the loop of `sendData` for one connection, with the call of
`send`. -/
def sendOne (uptime : ℤ → ℤ) (data : List UInt8) (key : ℤ) (sc : Client) :
    Client × Option (ℤ × List UInt8) :=
  if !sc.mIsAuth then (sc, none) else sc.sendData (uptime key) data

/-- `sendData`, with the calls of `send` and the number that it returns. -/
def sendData (s : SocketServer) (uptime : ℤ → ℤ) (data : List UInt8) :
    SocketServer × List (ℤ × List UInt8) × ℕ :=
  ({s with mClients := s.mClients.mapValues fun key sc => (sendOne uptime data key sc).1},
    s.mClients.entries.filterMap fun kv => (sendOne uptime data kv.1 kv.2).2,
    s.mClients.entries.countP fun kv => kv.2.mIsAuth)

end SocketServer

/-- A call on the server. -/
inductive Op
  /-- `init`. -/
  | init (k : InitCalls)
  /-- A connection request. -/
  | accept (k : AcceptCalls)
  /-- A connection becomes readable. -/
  | read (fd : ℤ) (answers : List Recv)
  /-- `onTick`. -/
  | onTick (uptime : ℤ → ℤ)
  /-- `sendData`. -/
  | sendData (uptime : ℤ → ℤ) (data : List UInt8)

/-- What is seen of the server. -/
inductive Event
  /-- `init` returns. -/
  | initialized (result : ℤ)
  /-- A connection is accepted. -/
  | accepted (fd : ℤ)
  /-- The calls of `recv` on a connection return bytes. -/
  | received (fd : ℤ) (bytes : List UInt8)
  /-- `sendData` passes data on and returns a number. -/
  | sent (sends : List (ℤ × List UInt8)) (count : ℕ)

/-- Perform a call. Only a connection that is registered becomes readable. -/
def step (s : SocketServer) (t : Table ℤ) : Op → Option (SocketServer × Table ℤ × List Event)
  | .init k =>
    let (s, t, result) := s.init t k
    some (s, t, [.initialized result])
  | .accept k =>
    let (s, t) := s.handleEvent t k
    some (s, t, if k.accept < 0 then [] else [.accepted k.accept])
  | .read fd answers =>
    match s.mClients.find fd with
    | none => none
    | some c =>
      if c.mFd = fd then
        let (s, t, got) := s.clientEvent t fd c answers
        some (s, t, [.received fd got])
      else none
  | .onTick uptime =>
    let (s, t) := s.onTick t uptime
    some (s, t, [])
  | .sendData uptime data =>
    let (s, sends, count) := s.sendData uptime data
    some (s, t, [.sent sends count])

/-- The kernel hands out descriptors that are not open. -/
def Possible (t : Table ℤ) : Op → Prop
  | .init k => 0 ≤ k.socket → k.socket ∉ t.opened
  | .accept k => 0 ≤ k.accept → k.accept ∉ t.opened
  | _ => True

/-- Runs of the server from its construction whose calls are all allowed: the
calls and what is seen. -/
inductive Run (allowed : SocketServer → Op → Prop) :
    List Op → SocketServer → Table ℤ → List Event → Prop
  /-- The server is created. -/
  | start (rcv snd : ℤ) : Run allowed [] (SocketServer.create rcv snd) Table.empty []
  /-- One more operation that is allowed and possible. -/
  | step {ops : List Op} {s s' : SocketServer} {t t' : Table ℤ} {es es' : List Event} (op : Op)
    (h : Run allowed ops s t es) (ha : allowed s op) (hp : Possible t op)
    (hs : step s t op = some (s', t', es')) : Run allowed (ops ++ [op]) s' t' (es ++ es')

/-! ## What the calls do -/

/-- A connection under its key: open, or rejected because its descriptor is 0. -/
def Stored (key : ℤ) (c : Client) : Prop :=
  (0 < key ∧ c.mFd = key ∧ c.mStatus = .connected) ∨
    (key = 0 ∧ c.mFd = -1 ∧ c.mStatus = .disconnect ∧ c.mIsAuth = false)

/-- A stored client has a descriptor. -/
theorem Stored.nonneg {key : ℤ} {c : Client} (h : Stored key c) : 0 ≤ key := by
  cases h with
  | inl h => omega
  | inr h => omega

/-- A connection that has its key as descriptor is open. -/
theorem Stored.pos {key : ℤ} {c : Client} (h : Stored key c) (hfd : c.mFd = key) : 0 < key := by
  cases h with
  | inl h => exact h.1
  | inr h => omega

/-- Where every key is open, a descriptor that is not is no key. -/
theorem find_fresh {s : SocketServer} {t : Table ℤ}
    (h : ∀ key c, s.mClients.find key = some c → key ∈ t.opened) {d : ℤ} (hd : d ∉ t.opened) :
    s.mClients.find d = none := by
  cases hf : s.mClients.find d with
  | none => rfl
  | some c => exact absurd (h d c hf) hd

namespace SocketServer

/-- The new connection of an accepted descriptor. -/
theorem create_stored (rcv snd : ℤ) {fd : ℤ} (h : 0 ≤ fd) (uptime : ℤ) :
    Stored fd (ServerClient.create rcv snd fd uptime) := by
  unfold ServerClient.create Client.setFd
  split
  · exact Or.inr ⟨by omega, rfl, rfl, rfl⟩
  · exact Or.inl ⟨by omega, rfl, rfl⟩

/-- Closing a descriptor without a client does nothing. -/
theorem close_absent {s : SocketServer} {fd : ℤ} (h : s.mClients.find fd = none) (t : Table ℤ) :
    s.close t fd = (s, t) := by
  unfold close
  rw [h]

/-- A connection accepted under a new descriptor is stored under it. -/
theorem handleEvent_new {s : SocketServer} {k : AcceptCalls} (hge : 0 ≤ k.accept)
    (hn : s.mClients.find k.accept = none) (t : Table ℤ) :
    s.handleEvent t k =
      ({s with mClients := s.mClients.insert k.accept
                 (ServerClient.create k.rcv k.snd k.accept k.uptime)}, t.alloc k.accept) := by
  unfold handleEvent
  rw [if_neg (by omega)]
  simp only [OrderedMap.emplace_new hn]

/-- The port loop ends at a port that could be bound, or behind the last. -/
theorem bindLoop_lt_iff (bind : ℕ → ℤ) (k port : ℕ) :
    bindLoop bind k port < port + k ↔ ∃ p, port ≤ p ∧ p < port + k ∧ 0 ≤ bind p := by
  induction k generalizing port with
  | zero =>
    constructor
    · intro h
      exact absurd h (Nat.lt_irrefl port)
    · rintro ⟨p, hle, hlt, -⟩
      omega
  | succ k ih =>
    unfold bindLoop
    split
    · rename_i hb
      have hr := ih (port + 1)
      rw [show port + (k + 1) = port + 1 + k by omega, hr]
      constructor
      · rintro ⟨p, hle, hlt, hp⟩
        exact ⟨p, by omega, hlt, hp⟩
      · rintro ⟨p, hle, hlt, hp⟩
        have hne : p ≠ port := fun he => absurd hp (by rw [he]; omega)
        exact ⟨p, by omega, hlt, hp⟩
    · rename_i hb
      exact iff_of_true (by omega) ⟨port, Nat.le_refl port, by omega, by omega⟩

/-- Reading touches neither descriptor nor status. -/
theorem readLoop_stored {key : ℤ} {c : Client} (h : Stored key c) (answers : List Recv) :
    Stored key (c.readLoop ServerClient.onRecvData answers).client := by
  cases h with
  | inl h =>
    refine Or.inl ⟨h.1, Client.readLoop_keeps (P := fun c => c.mFd = key ∧ c.mStatus = .connected)
      (fun c r hc => ?_) h.2 answers⟩
    rw [ServerClient.onRecvData_eq]
    exact hc
  | inr h =>
    rw [Client.readLoop_closed h.2.1]
    exact Or.inr h

/-- An event that keeps the connection changes its value only. -/
theorem clientEvent_kept {s : SocketServer} {c : Client} {answers : List Recv} {r : Reading}
    (hr : c.readLoop ServerClient.onRecvData answers = r) (h : r.lost = false) (t : Table ℤ)
    (key : ℤ) :
    s.clientEvent t key c answers =
      ({s with mClients := s.mClients.insert key r.client}, t, r.got) := by
  unfold clientEvent
  simp only [hr, h, Bool.false_eq_true, if_false]

/-- A lost connection finds itself in the map and is deleted there. -/
theorem clientStatusChange_lost {c : Client} {key : ℤ} (hst : c.mStatus = .disconnect)
    (hfd : c.mFd = key) (hpos : 0 < key) (s : SocketServer) (t : Table ℤ) :
    s.clientStatusChange t key c =
      ({s with mClients := s.mClients.erase key}, t.close key) := by
  have hne : c.mFd ≠ -1 := by omega
  unfold clientStatusChange
  rw [Client.onStatusChange_of_some hst hne, hfd]
  simp only [hst, if_true]
  unfold close
  rw [OrderedMap.find_insert, if_pos rfl]
  simp only [OrderedMap.erase_insert]
  rw [Client.destroy_of_none rfl]

/-- An event that loses the connection closes and forgets it. -/
theorem clientEvent_lost {s : SocketServer} {c : Client} {answers : List Recv} {r : Reading}
    (hr : c.readLoop ServerClient.onRecvData answers = r) (h : r.lost = true) {key : ℤ}
    (hs : Stored key c) (hfd : c.mFd = key) (t : Table ℤ) :
    s.clientEvent t key c answers =
      ({s with mClients := s.mClients.erase key}, t.close key, r.got) := by
  have hr' := readLoop_stored hs answers
  rw [hr] at hr'
  have hpos : 0 < key := hs.pos hfd
  have hk : r.client.mFd = key := by
    cases hr' with
    | inl h => exact h.2.1
    | inr h => omega
  have hlost := clientStatusChange_lost (c := {r.client with mStatus := .disconnect}) rfl hk hpos
    s t
  unfold clientEvent
  simp only [hr, h, if_true]
  rw [hlost]

/-- Some port can be bound and `listen` succeeds. -/
def Listens (k : InitCalls) : Prop :=
  (∃ port, SVR_PORT ≤ port ∧ port ≤ eport ∧ 0 ≤ k.bind port) ∧ 0 ≤ k.listen

/-- The loop over the ports fails exactly when no port can be bound. -/
theorem bind_fails_iff (bind : ℕ → ℤ) :
    eport < bindLoop bind (eport + 1 - SVR_PORT) SVR_PORT ↔
      ¬∃ port, SVR_PORT ≤ port ∧ port ≤ eport ∧ 0 ≤ bind port := by
  have h := bindLoop_lt_iff bind (eport + 1 - SVR_PORT) SVR_PORT
  rw [show SVR_PORT + (eport + 1 - SVR_PORT) = eport + 1 from rfl] at h
  simp only [Nat.lt_succ_iff] at h
  rw [← h, Nat.not_le]

/-- Without a socket the server is not started. -/
theorem init_no_socket {k : InitCalls} (h : k.socket < 0) (s : SocketServer) (t : Table ℤ) :
    s.init t k = (s, t, 1) := if_pos h

/-- Giving up closes no socket: `close` looks for a connection. -/
theorem init_failed {s : SocketServer} {k : InitCalls} (h : 0 ≤ k.socket)
    (hn : s.mClients.find k.socket = none) (hl : ¬Listens k) (t : Table ℤ) :
    s.init t k = (s, t.alloc k.socket, 1) := by
  have hclose := close_absent hn (t.alloc k.socket)
  unfold init
  rw [if_neg (by omega)]
  simp only [hclose]
  split
  · rfl
  · rename_i hb
    rw [bind_fails_iff, not_not] at hb
    have hlisten : k.listen < 0 := by
      by_contra hge
      exact hl ⟨hb, Int.not_lt.mp hge⟩
    rw [if_pos hlisten]

/-- With a socket that listens, the descriptor becomes `mFd` unless it is 0. -/
theorem init_listens {k : InitCalls} (h : 0 ≤ k.socket) (hl : Listens k) (s : SocketServer)
    (t : Table ℤ) :
    ∃ c, s.init t k = ({s with toClient := c}, t.alloc k.socket, 0) ∧
      c.mFd = if k.socket = 0 then s.mFd else k.socket := by
  have hb : ¬eport < bindLoop k.bind (eport + 1 - SVR_PORT) SVR_PORT := by
    rw [bind_fails_iff, not_not]
    exact hl.1
  unfold init Client.setFd
  rw [if_neg (by omega), if_neg hb, if_neg (Int.not_lt.mpr hl.2)]
  by_cases hz : k.socket = 0
  · exact ⟨s.toClient, by rw [if_pos (by omega)], by rw [if_pos hz]⟩
  · exact ⟨_, by rw [if_neg (by omega)], by rw [if_neg hz]⟩

end SocketServer

/-- What a start does. -/
theorem step_init {s s' : SocketServer} {t t' : Table ℤ} {k : InitCalls} {es : List Event}
    (h : step s t (.init k) = some (s', t', es)) :
    s' = (s.init t k).1 ∧ t' = (s.init t k).2.1 ∧ es = [.initialized (s.init t k).2.2] := by
  simp only [step, Option.some.injEq, Prod.mk.injEq] at h
  exact ⟨h.1.symm, h.2.1.symm, h.2.2.symm⟩

/-- What a connection does. -/
theorem step_accept {s s' : SocketServer} {t t' : Table ℤ} {k : AcceptCalls} {es : List Event}
    (h : step s t (.accept k) = some (s', t', es)) :
    s' = (s.handleEvent t k).1 ∧ t' = (s.handleEvent t k).2 ∧
      es = if k.accept < 0 then [] else [.accepted k.accept] := by
  simp only [step, Option.some.injEq, Prod.mk.injEq] at h
  exact ⟨h.1.symm, h.2.1.symm, h.2.2.symm⟩

/-- A connection that reads is stored under its descriptor. -/
theorem step_read {s s' : SocketServer} {t t' : Table ℤ} {fd : ℤ} {answers : List Recv}
    {es : List Event} (h : step s t (.read fd answers) = some (s', t', es)) :
    ∃ c, s.mClients.find fd = some c ∧ c.mFd = fd ∧
      s' = (s.clientEvent t fd c answers).1 ∧ t' = (s.clientEvent t fd c answers).2.1 ∧
      es = [.received fd (s.clientEvent t fd c answers).2.2] := by
  unfold step at h
  cases hf : s.mClients.find fd with
  | none =>
    simp only [hf] at h
    cases h
  | some c =>
    simp only [hf] at h
    split at h
    · rename_i hfd
      cases h
      exact ⟨c, rfl, hfd, rfl, rfl, rfl⟩
    · cases h

/-- An event that keeps its connection. -/
theorem step_read_kept {s : SocketServer} {t : Table ℤ} {fd : ℤ} {c : Client}
    {answers : List Recv} (hf : s.mClients.find fd = some c) (hfd : c.mFd = fd)
    (h : (c.readLoop ServerClient.onRecvData answers).lost = false) :
    step s t (.read fd answers) =
      some ({s with mClients := s.mClients.insert fd
                      (c.readLoop ServerClient.onRecvData answers).client}, t,
        [.received fd (c.readLoop ServerClient.onRecvData answers).got]) := by
  unfold step
  simp only [hf, hfd, if_true, SocketServer.clientEvent_kept rfl h]

end CdroidDemo.ServerConnections
