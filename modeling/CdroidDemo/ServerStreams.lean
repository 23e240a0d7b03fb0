import CdroidDemo.ServerConnections
import Mathlib.Data.List.Infix

/-!
# What the server's connections have received

The receive buffer of a connection is never taken from, so it holds the stream
of the peer from its first byte on, zeros behind it. The key is therefore found
however the stream is cut into reads, and the buffer is full once 4096 bytes
have come.
-/

namespace CdroidDemo.ServerStreams

open Descriptors TcpClient Client ServerConnections SocketServer

/-- The stream under a descriptor as an event changes it; a connection that is
accepted begins a new one. -/
def advance (fd : ℤ) (bytes : List UInt8) : Event → List UInt8
  | .accepted d => if d = fd then [] else bytes
  | .received d more => if d = fd then bytes ++ more else bytes
  | _ => bytes

/-- The stream received so far on the connection under a descriptor. -/
def stream (fd : ℤ) (es : List Event) : List UInt8 := es.foldl (advance fd) []

/-- The stream of a descriptor over two lists of events. -/
theorem stream_append (fd : ℤ) (es gs : List Event) :
    stream fd (es ++ gs) = gs.foldl (advance fd) (stream fd es) := List.foldl_append

/-- The bytes that wait when an event is handled, as far as its first read
tells. -/
def firstOffer : List Recv → ℕ
  | [] => 0
  | r :: _ => (r.waiting.getD []).length

/-- The bytes offered on a descriptor as a call changes them. -/
def addOffer (fd : ℤ) (n : ℕ) : Op → ℕ
  | .accept k => if k.accept = fd then 0 else n
  | .read d answers => if d = fd then n + firstOffer answers else n
  | _ => n

/-- The bytes offered so far on the connection under a descriptor. -/
def offered (fd : ℤ) (ops : List Op) : ℕ := ops.foldl (addOffer fd) 0

/-- The bytes offered by one more operation. -/
theorem offered_append (fd : ℤ) (ops : List Op) (op : Op) :
    offered fd (ops ++ [op]) = addOffer fd (offered fd ops) op := List.foldl_append

/-! ## The key test -/

/-- On memory that continues with zeros, the prefix test looks for the key in
front of them. -/
theorem strncmpZero_iff {key : List UInt8} (hk : 0 ∉ key) (l rest : List UInt8) (n : ℕ) :
    strncmpZero key.length (l ++ List.replicate n 0) (key ++ rest) = true ↔ key <+: l := by
  induction key generalizing l with
  | nil => exact iff_of_true rfl List.nil_prefix
  | cons k key ih =>
    obtain ⟨hk₀, hk⟩ := not_or.mp fun h => hk (List.mem_cons.mpr h)
    cases l with
    | nil =>
      refine iff_of_false (fun h => ?_) (fun h => ?_)
      · cases n with
        | zero => cases h
        | succ n =>
          rw [List.length_cons, List.nil_append, List.replicate_succ, List.cons_append,
            strncmpZero, if_pos hk₀] at h
          cases h
      · exact absurd (List.prefix_nil.mp h) (List.cons_ne_nil k key)
    | cons a l =>
      rw [List.length_cons, List.cons_append, List.cons_append, strncmpZero,
        List.cons_prefix_cons]
      by_cases ha : a = k
      · have ha₀ : a ≠ 0 := fun h => hk₀ (h.symm.trans ha)
        rw [if_neg (not_not_intro ha), if_neg ha₀, ih hk l]
        exact ⟨fun h => ⟨ha.symm, h⟩, fun h => h.2⟩
      · rw [if_pos ha]
        exact iff_of_false Bool.false_ne_true fun h => ha h.1.symm

/-- A connection that has received a stream: it lies in front of the zeros of
the buffer, and the key was found if it is there. -/
structure Received (c : Client) (bytes : List UInt8) : Prop where
  /-- No byte was taken from the buffer. -/
  pos : c.mRSBuf.pos = 0
  /-- The buffer holds as many bytes as came. -/
  last : c.mRSBuf.last = bytes.length
  /-- It holds these bytes. -/
  buf : c.mRSBuf.buf = bytes ++ List.replicate (len4K - bytes.length) 0
  /-- The client is let in when they begin with a key. -/
  auth : c.mIsAuth = true ↔ AUTH_KEYS <+: bytes

section Received

variable {c : Client} {bytes : List UInt8}

/-- The connection that is accepted has received nothing. -/
theorem create_received (rcv snd fd uptime : ℤ) :
    Received (ServerClient.create rcv snd fd uptime) [] := by
  have ha : false = true ↔ AUTH_KEYS <+: [] := by decide
  unfold ServerClient.create Client.setFd
  split
  · exact ⟨rfl, rfl, rfl, ha⟩
  · exact ⟨rfl, rfl, rfl, ha⟩

/-- Bytes that are stored move the zeros back. -/
theorem Received.store (h : Received c bytes) (waiting : List UInt8) :
    (c.mRSBuf.store waiting).last = (bytes ++ c.mRSBuf.room waiting).length ∧
      (c.mRSBuf.store waiting).buf = bytes ++ c.mRSBuf.room waiting ++
        List.replicate (len4K - (bytes ++ c.mRSBuf.room waiting).length) 0 := by
  have hle := c.mRSBuf.room_length_le waiting
  rw [h.last] at hle
  simp only [SockBuf.store, PacketMemory.BuffData.overwrite, h.last, h.buf, List.length_append]
  refine ⟨trivial, ?_⟩
  rw [List.take_left, List.drop_append, List.drop_eq_nil_of_le (by omega), List.nil_append,
    List.drop_replicate]
  congr 2
  omega

/-- A read with the key test behind it. -/
theorem Received.read (h : Received c bytes) (r : Recv) (hfd : c.mFd ≠ -1) :
    Received (ServerClient.onRecvData r.time (c.readData r)).1 (bytes ++ c.recv r) := by
  have hg : c.recv r = c.mRSBuf.room (r.waiting.getD []) := if_neg hfd
  obtain ⟨hlast, hbuf⟩ := h.store (r.waiting.getD [])
  rw [← hg] at hlast hbuf
  rw [ServerClient.onRecvData_eq]
  refine ⟨h.pos, hlast, hbuf, ?_⟩
  have hpos : (c.mRSBuf.store (r.waiting.getD [])).pos = 0 := h.pos
  have hzero : 0 ∉ AUTH_KEYS := by decide
  have hk := strncmpZero_iff hzero (bytes ++ c.recv r) [0]
    (len4K - (bytes ++ c.recv r).length)
  simp only [Client.readData, hpos, List.drop_zero, hbuf, Bool.or_eq_true, h.auth, hk]
  exact ⟨fun h => h.elim (fun hp => hp.trans (List.prefix_append bytes _)) id, Or.inr⟩

/-- The read loop appends what it got. -/
theorem Received.readLoop (h : Received c bytes) (hfd : c.mFd ≠ -1) (answers : List Recv) :
    Received (c.readLoop ServerClient.onRecvData answers).client
      (bytes ++ (c.readLoop ServerClient.onRecvData answers).got) := by
  induction answers generalizing c bytes with
  | nil =>
    rw [Client.readLoop, List.append_nil]
    exact h
  | cons r answers ih =>
    have hread := h.read r hfd
    have hfd' : (ServerClient.onRecvData r.time (c.readData r)).1.mFd ≠ -1 := by
      rw [ServerClient.onRecvData_mFd]
      exact hfd
    rw [ServerClient.readLoop_cons]
    split
    · rw [List.append_nil]
      exact h
    · split
      · exact hread
      · rw [← List.append_assoc]
        exact ih hread hfd'

/-- A full buffer reads nothing. -/
theorem readLoop_full (h : c.mRSBuf.free = 0) (answers : List Recv) :
    (c.readLoop ServerClient.onRecvData answers).got = [] := by
  cases answers with
  | nil => rfl
  | cons r answers =>
    have hr : c.recv r = [] := by
      unfold Client.recv SockBuf.room
      rw [h, List.take_zero, ite_self]
    rw [Client.readLoop, if_pos hr]

/-- Only `ENOENT` loses a connection. -/
theorem readLoop_up (hfd : c.mFd ≠ -1) {answers : List Recv}
    (he : ∀ r ∈ answers, r.errno ≠ ENOENT) :
    (c.readLoop ServerClient.onRecvData answers).lost = false := by
  induction answers generalizing c with
  | nil => rfl
  | cons r answers ih =>
    have hr : c.recvErrno r ≠ ENOENT := by
      rw [Client.recvErrno, if_neg hfd]
      exact he r List.mem_cons_self
    have hfd' : (ServerClient.onRecvData r.time (c.readData r)).1.mFd ≠ -1 := by
      rw [ServerClient.onRecvData_mFd]
      exact hfd
    rw [ServerClient.readLoop_cons]
    split
    · exact decide_eq_false hr
    · split
      · rfl
      · exact ih hfd' fun r' hr' => he r' (List.mem_cons_of_mem r hr')

/-- An event reads what waits, as far as there is room. -/
theorem readLoop_got_length (hfd : c.mFd ≠ -1) (answers : List Recv) :
    (c.readLoop ServerClient.onRecvData answers).got.length =
      min c.mRSBuf.free (firstOffer answers) := by
  cases answers with
  | nil => exact (Nat.min_zero _).symm
  | cons r answers =>
    have hlen : (c.recv r).length = min c.mRSBuf.free (r.waiting.getD []).length := by
      rw [Client.recv, if_neg hfd, SockBuf.room, List.length_take]
    rw [ServerClient.readLoop_cons, firstOffer]
    split
    · rename_i hnil
      rw [← hlen, hnil]
    · split
      · exact hlen
      · rename_i hfull
        have hroom : (ServerClient.onRecvData r.time (c.readData r)).1.mRSBuf.free = 0 := by
          rw [ServerClient.onRecvData_eq]
          have hg : c.recv r = c.mRSBuf.room (r.waiting.getD []) := if_neg hfd
          rw [hg] at hfull
          have hs : (c.readData r).mRSBuf.last =
              c.mRSBuf.last + (c.mRSBuf.room (r.waiting.getD [])).length := rfl
          unfold SockBuf.free at hfull ⊢
          simp only [hs]
          omega
        rw [readLoop_full hroom, List.append_nil, hlen]

end Received

/-! ## What a sweep leaves open -/

section Sweep

variable {uptime : ℤ → ℤ} {l : List (ℤ × Client)} {t : Table ℤ}

/-- A client the sweep keeps has not timed out. -/
theorem sweep_kept {it : ℤ × Client} (h : it ∈ (sweep uptime l t).1) :
    it.2.isTimeout 0 (uptime it.1) = false := by
  induction l generalizing t with
  | nil => cases h
  | cons e rest ih =>
    unfold sweep at h
    split at h
    · exact ih h
    · rename_i hlate
      cases List.mem_cons.mp h with
      | inl he => rw [he]; exact Bool.eq_false_iff.mpr hlate
      | inr hm => exact ih hm

/-- Deleting a connection closes no descriptor but its key. -/
theorem destroy_opened {key fd : ℤ} {c : Client} (hs : Stored key c) (hne : fd ≠ key)
    (h : fd ∈ t.opened) : fd ∈ (c.destroy t).opened := by
  cases hs with
  | inl hs =>
    rw [Client.destroy_of_some (by omega), hs.2.1]
    exact Table.mem_close h hne
  | inr hs =>
    rw [Client.destroy_of_none hs.2.1]
    exact h

/-- The sweep leaves the descriptors it keeps open. -/
theorem sweep_opened {fd : ℤ} (hl : ∀ it ∈ l, Stored it.1 it.2)
    (hk : ∀ it ∈ l, it.1 = fd → it.2.isTimeout 0 (uptime it.1) = false) (h : fd ∈ t.opened) :
    fd ∈ (sweep uptime l t).2.opened := by
  induction l generalizing t with
  | nil => exact h
  | cons e rest ih =>
    have hrest := fun it hm => hl it (List.mem_cons_of_mem e hm)
    have hkeep := fun it hm => hk it (List.mem_cons_of_mem e hm)
    unfold sweep
    split
    · rename_i hlate
      have hne : fd ≠ e.1 := by
        intro he
        rw [hk e List.mem_cons_self he.symm] at hlate
        cases hlate
      exact ih hrest hkeep (destroy_opened (hl e List.mem_cons_self) hne h)
    · exact ih hrest hkeep h

end Sweep

/-! ## Streams along a run -/

/-- Every connection has received its stream, which is what was offered as far
as there was room, and is stored under an open descriptor. -/
structure Streams (ops : List Op) (s : SocketServer) (t : Table ℤ) (es : List Event) : Prop where
  /-- A client is stored under its descriptor. -/
  stored : ∀ key c, s.mClients.find key = some c → Stored key c
  /-- That descriptor is open. -/
  opened : ∀ key c, s.mClients.find key = some c → key ∈ t.opened
  /-- A client has received its stream. -/
  received : ∀ key c, s.mClients.find key = some c → Received c (stream key es)
  /-- The stream is what was offered, as far as there is room. -/
  length : ∀ key c, s.mClients.find key = some c →
    (stream key es).length = min len4K (offered key ops)

section Streams

variable {ops : List Op} {s : SocketServer} {t : Table ℤ} {es : List Event}

/-- The account is kept one connection at a time. -/
theorem streams_of (h : ∀ key c, s.mClients.find key = some c → Stored key c ∧ key ∈ t.opened ∧
    Received c (stream key es) ∧ (stream key es).length = min len4K (offered key ops)) :
    Streams ops s t es where
  stored key c hf := (h key c hf).1
  opened key c hf := (h key c hf).2.1
  received key c hf := (h key c hf).2.2.1
  length key c hf := (h key c hf).2.2.2

/-- A descriptor of the kernel is no key. -/
theorem Streams.fresh (h : Streams ops s t es) {d : ℤ} (hd : d ∉ t.opened) :
    s.mClients.find d = none := find_fresh h.opened hd

/-- `init` leaves the connections and the open descriptors alone. -/
theorem init_connections {k : InitCalls}
    (hn : 0 ≤ k.socket → s.mClients.find k.socket = none) :
    (s.init t k).1.mClients = s.mClients ∧ ∀ d ∈ t.opened, d ∈ (s.init t k).2.1.opened := by
  by_cases hno : k.socket < 0
  · rw [init_no_socket hno]
    exact ⟨rfl, fun _ hd => hd⟩
  · have hge := Int.not_lt.mp hno
    by_cases hl : Listens k
    · obtain ⟨c, hi, -⟩ := init_listens hge hl s t
      rw [hi]
      exact ⟨rfl, fun _ hd => List.mem_cons_of_mem _ hd⟩
    · rw [init_failed hge (hn hge) hl]
      exact ⟨rfl, fun _ hd => List.mem_cons_of_mem _ hd⟩

/-- A start of the server keeps the streams. -/
theorem Streams.init (h : Streams ops s t es) {k : InitCalls}
    (hp : 0 ≤ k.socket → k.socket ∉ t.opened) (result : ℤ) :
    Streams (ops ++ [.init k]) (s.init t k).1 (s.init t k).2.1
      (es ++ [.initialized result]) := by
  have hsame := init_connections (s := s) (t := t) fun hge => h.fresh (hp hge)
  have hst : ∀ key, stream key (es ++ [.initialized result]) = stream key es :=
    fun key => stream_append key es _
  have hof : ∀ key, offered key (ops ++ [.init k]) = offered key ops :=
    fun key => offered_append key ops _
  refine streams_of fun key c hf => ?_
  rw [hsame.1] at hf
  rw [hst, hof]
  exact ⟨h.stored key c hf, hsame.2 key (h.opened key c hf), h.received key c hf, h.length key c hf⟩

/-- An accepted connection begins its stream. -/
theorem Streams.accept (h : Streams ops s t es) {k : AcceptCalls} (hge : 0 ≤ k.accept)
    (hd : k.accept ∉ t.opened) :
    Streams (ops ++ [.accept k]) (s.handleEvent t k).1 (s.handleEvent t k).2
      (es ++ [.accepted k.accept]) := by
  have hst : ∀ key, stream key (es ++ [.accepted k.accept]) =
      if k.accept = key then [] else stream key es :=
    fun key => stream_append key es _
  have hof : ∀ key, offered key (ops ++ [.accept k]) =
      if k.accept = key then 0 else offered key ops :=
    fun key => offered_append key ops _
  rw [handleEvent_new hge (h.fresh hd)]
  refine streams_of fun key c hf => ?_
  rw [OrderedMap.find_insert] at hf
  rw [hst, hof]
  split at hf
  · rename_i hk
    cases hf
    rw [hk, if_pos rfl, if_pos rfl]
    exact ⟨create_stored _ _ hge _, List.mem_cons_self, create_received _ _ _ _, rfl⟩
  · rename_i hk
    rw [if_neg (Ne.symm hk), if_neg (Ne.symm hk)]
    exact ⟨h.stored key c hf, List.mem_cons_of_mem _ (h.opened key c hf), h.received key c hf,
      h.length key c hf⟩

/-- A failing `accept` changes nothing. -/
theorem Streams.reject (h : Streams ops s t es) {k : AcceptCalls} (hno : k.accept < 0) :
    Streams (ops ++ [.accept k]) s t es where
  stored := h.stored
  opened := h.opened
  received := h.received
  length key c hf := by
    have hge : 0 ≤ key := (h.stored key c hf).nonneg
    have hof : offered key (ops ++ [.accept k]) =
        if k.accept = key then 0 else offered key ops := offered_append key ops _
    rw [hof, if_neg (by omega)]
    exact h.length key c hf

/-- What a connection reads continues its stream. -/
theorem Streams.read (h : Streams ops s t es) {fd : ℤ} {c : Client}
    (hf : s.mClients.find fd = some c) (hfd : c.mFd = fd) (answers : List Recv) :
    Streams (ops ++ [.read fd answers]) (s.clientEvent t fd c answers).1
      (s.clientEvent t fd c answers).2.1
      (es ++ [.received fd (s.clientEvent t fd c answers).2.2]) := by
  have hs := h.stored fd c hf
  have hst : ∀ key got, stream key (es ++ [.received fd got]) =
      if fd = key then stream key es ++ got else stream key es :=
    fun key got => stream_append key es _
  have hof : ∀ key, offered key (ops ++ [.read fd answers]) =
      if fd = key then offered key ops + firstOffer answers else offered key ops :=
    fun key => offered_append key ops _
  cases hl : (c.readLoop ServerClient.onRecvData answers).lost with
  | true =>
    rw [clientEvent_lost rfl hl hs hfd]
    refine streams_of fun key d hd => ?_
    rw [OrderedMap.find_erase] at hd
    rw [hst, hof]
    split at hd
    · cases hd
    · rename_i hk
      rw [if_neg (Ne.symm hk), if_neg (Ne.symm hk)]
      exact ⟨h.stored key d hd, Table.mem_close (h.opened key d hd) hk, h.received key d hd,
        h.length key d hd⟩
  | false =>
    have hpos : 0 < fd := hs.pos hfd
    have hne : c.mFd ≠ -1 := by omega
    have hreceived := (h.received fd c hf).readLoop hne answers
    have hlength : (stream fd es ++ (c.readLoop ServerClient.onRecvData answers).got).length =
        min len4K (offered fd ops + firstOffer answers) := by
      rw [List.length_append, readLoop_got_length hne answers, SockBuf.free,
        (h.received fd c hf).last, h.length fd c hf]
      omega
    rw [clientEvent_kept rfl hl]
    refine streams_of fun key d hd => ?_
    rw [OrderedMap.find_insert] at hd
    rw [hst, hof]
    split at hd
    · rename_i hk
      cases hd
      rw [hk, if_pos rfl, if_pos rfl]
      exact ⟨readLoop_stored hs answers, h.opened fd c hf, hreceived, hlength⟩
    · rename_i hk
      rw [if_neg (Ne.symm hk), if_neg (Ne.symm hk)]
      exact ⟨h.stored key d hd, h.opened key d hd, h.received key d hd, h.length key d hd⟩

/-- A tick keeps the streams. -/
theorem Streams.onTick (h : Streams ops s t es) (uptime : ℤ → ℤ) :
    Streams (ops ++ [.onTick uptime]) (s.onTick t uptime).1 (s.onTick t uptime).2 es := by
  have hof : ∀ key, offered key (ops ++ [.onTick uptime]) = offered key ops :=
    fun key => offered_append key ops _
  have hfind : ∀ key c, (s.onTick t uptime).1.mClients.find key = some c →
      s.mClients.find key = some c ∧ c.isTimeout 0 (uptime key) = false := by
    intro key c hf
    have hm := OrderedMap.mem_of_findEntry hf
    exact ⟨s.mClients.mem_entries_iff.mp ((sweep_sublist uptime _ t).subset hm), sweep_kept hm⟩
  refine streams_of fun key c hf => ?_
  obtain ⟨hc, hlate⟩ := hfind key c hf
  rw [hof]
  refine ⟨h.stored key c hc, ?_, h.received key c hc, h.length key c hc⟩
  refine sweep_opened (fun it hm => ?_) (fun it hm he => ?_) (h.opened key c hc)
  · exact h.stored it.1 it.2 (s.mClients.mem_entries_iff.mp hm)
  · have hit : s.mClients.find it.1 = some it.2 := s.mClients.mem_entries_iff.mp hm
    rw [he, hc] at hit
    cases hit
    rw [he]
    exact hlate

/-- A send leaves what was received alone. -/
theorem sendOne_received {c : Client} {bytes : List UInt8} (h : Received c bytes)
    (uptime : ℤ → ℤ) (data : List UInt8) (key : ℤ) :
    Received (sendOne uptime data key c).1 bytes := by
  unfold sendOne Client.sendData
  split
  · exact h
  · split
    · exact ⟨h.pos, h.last, h.buf, h.auth⟩
    · exact h

/-- A send leaves a client under its key. -/
theorem sendOne_stored {c : Client} {key : ℤ} (h : Stored key c) (uptime : ℤ → ℤ)
    (data : List UInt8) : Stored key (sendOne uptime data key c).1 := by
  unfold sendOne Client.sendData
  split
  · exact h
  · split <;> exact h

/-- A broadcast keeps the streams. -/
theorem Streams.sendData (h : Streams ops s t es) (uptime : ℤ → ℤ) (data : List UInt8)
    (sends : List (ℤ × List UInt8)) (count : ℕ) :
    Streams (ops ++ [.sendData uptime data]) (s.sendData uptime data).1 t
      (es ++ [.sent sends count]) := by
  have hof : ∀ key, offered key (ops ++ [.sendData uptime data]) = offered key ops :=
    fun key => offered_append key ops _
  have hst : ∀ key, stream key (es ++ [.sent sends count]) = stream key es :=
    fun key => stream_append key es _
  have hfind : ∀ key c, (s.sendData uptime data).1.mClients.find key = some c →
      ∃ d, s.mClients.find key = some d ∧ (sendOne uptime data key d).1 = c := by
    intro key c hf
    have hm := OrderedMap.find_mapValues s.mClients
      (fun key sc => (sendOne uptime data key sc).1) key
    exact Option.map_eq_some_iff.mp (hm.symm.trans hf)
  refine streams_of fun key c hf => ?_
  obtain ⟨d, hd, rfl⟩ := hfind key c hf
  rw [hst, hof]
  exact ⟨sendOne_stored (h.stored key d hd) uptime data, h.opened key d hd,
    sendOne_received (h.received key d hd) uptime data key, h.length key d hd⟩

/-- In every state of a run each client holds its stream. -/
theorem run_streams {allowed : SocketServer → Op → Prop} {ops : List Op} {s : SocketServer}
    {t : Table ℤ} {es : List Event} (h : Run allowed ops s t es) : Streams ops s t es := by
  induction h with
  | start rcv snd =>
    refine streams_of fun key c hf => ?_
    cases hf
  | step op _ _ hp hs ih =>
    cases op with
    | init k =>
      obtain ⟨rfl, rfl, rfl⟩ := step_init hs
      exact ih.init hp _
    | accept k =>
      obtain ⟨rfl, rfl, rfl⟩ := step_accept hs
      split
      · rename_i hno
        rw [handleEvent, if_pos hno, List.append_nil]
        exact ih.reject hno
      · rename_i hno
        exact ih.accept (Int.not_lt.mp hno) (hp (Int.not_lt.mp hno))
    | read fd answers =>
      obtain ⟨c, hf, hfd, rfl, rfl, rfl⟩ := step_read hs
      exact ih.read hf hfd answers
    | onTick uptime =>
      cases hs
      rw [List.append_nil]
      exact ih.onTick uptime
    | sendData uptime data =>
      cases hs
      exact ih.sendData uptime data _ _

end Streams

/-! ## The key decides -/

/-- A stream begins with the key. -/
theorem prefix_iff (bytes : List UInt8) :
    AUTH_KEYS <+: bytes ↔ 12 ≤ bytes.length ∧ bytes.take 12 = AUTH_KEYS := by
  rw [List.prefix_iff_eq_take]
  constructor
  · intro h
    have hl := congrArg List.length h
    rw [List.length_take] at hl
    have h12 : AUTH_KEYS.length = 12 := rfl
    exact ⟨by omega, h.symm⟩
  · exact fun h => h.2.symm

/-- Data goes to the connections that have sent the key. -/
theorem sendOne_sent {c : Client} {key : ℤ} (h : Stored key c) (uptime : ℤ → ℤ)
    (data : List UInt8) :
    (sendOne uptime data key c).2 = if c.mIsAuth = true then some (key, data) else none := by
  unfold sendOne Client.sendData Client.isConn
  cases ha : c.mIsAuth with
  | false => rfl
  | true =>
    cases h with
    | inl h => simp [h.2.1, h.2.2]
    | inr h =>
      rw [h.2.2.2] at ha
      cases ha

/-- What a pass over the connections sends: one copy for each that has sent
the key. -/
theorem sends_eq {l : List (ℤ × Client)} (hl : ∀ it ∈ l, Stored it.1 it.2) (uptime : ℤ → ℤ)
    (data : List UInt8) :
    (l.filterMap fun kv => (sendOne uptime data kv.1 kv.2).2) =
      (l.filter fun kv => kv.2.mIsAuth).map fun kv => (kv.1, data) := by
  induction l with
  | nil => rfl
  | cons it l ih =>
    have ih := ih fun e he => hl e (List.mem_cons_of_mem it he)
    rw [List.filterMap_cons, sendOne_sent (hl it List.mem_cons_self), List.filter_cons]
    cases ha : it.2.mIsAuth with
    | false => exact ih
    | true => exact congrArg (List.cons _) ih

/-- In every run a connection is authenticated exactly when the first 12 bytes
of its stream are the key, and `sendData` passes data once to each of these
and to no other, and returns their number. -/
theorem authenticated_iff_key {allowed : SocketServer → Op → Prop} {ops : List Op}
    {s : SocketServer} {t : Table ℤ} {es : List Event} (h : Run allowed ops s t es) :
    (∀ fd c, s.mClients.find fd = some c →
      (c.mIsAuth = true ↔ 12 ≤ (stream fd es).length ∧ (stream fd es).take 12 = AUTH_KEYS)) ∧
    ∀ uptime data,
      (s.sendData uptime data).2.2 = (s.sendData uptime data).2.1.length ∧
      ((s.sendData uptime data).2.1.map Prod.fst).Nodup ∧
      ∀ fd sent, (fd, sent) ∈ (s.sendData uptime data).2.1 ↔
        sent = data ∧ (s.mClients.find fd).isSome = true ∧ 12 ≤ (stream fd es).length ∧
          (stream fd es).take 12 = AUTH_KEYS := by
  have hs := run_streams h
  have hauth : ∀ fd c, s.mClients.find fd = some c →
      (c.mIsAuth = true ↔ 12 ≤ (stream fd es).length ∧ (stream fd es).take 12 = AUTH_KEYS) :=
    fun fd c hf => (hs.received fd c hf).auth.trans (prefix_iff _)
  refine ⟨hauth, fun uptime data => ?_⟩
  have hsent : (s.sendData uptime data).2.1 =
      (s.mClients.entries.filter fun kv => kv.2.mIsAuth).map fun kv => (kv.1, data) :=
    sends_eq (fun it hm => hs.stored it.1 it.2 (s.mClients.mem_entries_iff.mp hm)) uptime data
  rw [hsent]
  refine ⟨?_, ?_, fun fd sent => ?_⟩
  · rw [List.length_map, ← List.countP_eq_length_filter]
    rfl
  · rw [List.map_map]
    exact s.mClients.keys_nodup.sublist (List.filter_sublist.map Prod.fst)
  · rw [List.mem_map]
    constructor
    · rintro ⟨⟨key, c⟩, hm, he⟩
      cases he
      obtain ⟨hm, ha⟩ := List.mem_filter.mp hm
      have hf := s.mClients.mem_entries_iff.mp hm
      exact ⟨rfl, by rw [hf]; rfl, (hauth key c hf).mp ha⟩
    · rintro ⟨rfl, hsome, hkey⟩
      obtain ⟨c, hf⟩ := Option.isSome_iff_exists.mp hsome
      refine ⟨(fd, c), List.mem_filter.mpr ⟨s.mClients.mem_entries_iff.mpr hf, ?_⟩, rfl⟩
      exact (hauth fd c hf).mpr hkey

/-- A connection is accepted under descriptor 5. -/
theorem accepted_five :
    Run (fun _ _ => True) [.accept ⟨5, 0, 0, 0⟩] ⟨Client.initData 0 0,
      OrderedMap.empty.insert 5 (ServerClient.create 0 0 5 0)⟩ (Table.empty.alloc 5)
      [.accepted 5] :=
  Run.step (.accept ⟨5, 0, 0, 0⟩) (Run.start 0 0) trivial (fun _ => List.not_mem_nil) rfl

/-- The key arrives in two reads. -/
theorem authenticated_iff_key_split :
    ∃ s t es, Run (fun _ _ => True) [.accept ⟨5, 0, 0, 0⟩,
        .read 5 [⟨some [99, 100, 114, 111, 105, 100], 11, 1, 1⟩],
        .read 5 [⟨some [83, 101, 114, 118, 101, 114], 11, 2, 2⟩]] s t es ∧
      stream 5 es = AUTH_KEYS ∧ ∀ c, s.mClients.find 5 = some c → c.mIsAuth = true := by
  have h₂ := Run.step (.read 5 [⟨some [99, 100, 114, 111, 105, 100], 11, 1, 1⟩]) accepted_five
    trivial trivial rfl
  have h₃ := Run.step (.read 5 [⟨some [83, 101, 114, 118, 101, 114], 11, 2, 2⟩]) h₂ trivial
    trivial rfl
  exact ⟨_, _, _, h₃, rfl, fun c hf => ((authenticated_iff_key h₃).1 5 c hf).mpr ⟨by decide, rfl⟩⟩

/-! ## The buffer fills -/

/-- After every run the buffer of a connection has room exactly when fewer
than 4096 bytes have been offered to it. -/
theorem room_iff_offered {allowed : SocketServer → Op → Prop} {ops : List Op}
    {s : SocketServer} {t : Table ℤ} {es : List Event} (h : Run allowed ops s t es) {fd : ℤ}
    {c : Client} (hf : s.mClients.find fd = some c) :
    c.mRSBuf.last < len4K ↔ offered fd ops < len4K := by
  have hs := run_streams h
  rw [(hs.received fd c hf).last, hs.length fd c hf]
  omega

/-- A connection that was offered six bytes has room. -/
theorem room_iff_offered_six :
    ∃ ops s t es c, Run (fun _ _ => True) ops s t es ∧ s.mClients.find 5 = some c ∧
      offered 5 ops = 6 ∧ (c.mRSBuf.last < len4K ↔ offered 5 ops < len4K) := by
  have h₂ := Run.step (.read 5 [⟨some [99, 100, 114, 111, 105, 100], 11, 1, 1⟩]) accepted_five
    trivial trivial rfl
  exact ⟨_, _, _, _, _, h₂, rfl, rfl, room_iff_offered h₂ rfl⟩

/-- 4096 bytes in one read leave a connection that is up and has no room. -/
theorem buffer_full :
    ∃ s t es c, Run (fun _ _ => True) [.accept ⟨5, 0, 0, 0⟩,
        .read 5 [⟨some (List.replicate 4096 0), 11, 1, 1⟩]] s t es ∧
      s.mClients.find 5 = some c ∧ c.mStatus = .connected ∧ ¬c.mRSBuf.last < len4K := by
  have hl : ((ServerClient.create 0 0 5 0).readLoop ServerClient.onRecvData
      [⟨some (List.replicate 4096 0), 11, 1, 1⟩]).lost = false := by
    refine readLoop_up (by decide) fun r hr => ?_
    rw [List.mem_singleton.mp hr]
    decide
  have hfd : (ServerClient.create 0 0 5 0).mFd = 5 := rfl
  have hs := step_read_kept (s := ⟨Client.initData 0 0,
    OrderedMap.empty.insert 5 (ServerClient.create 0 0 5 0)⟩) (t := Table.empty.alloc 5) rfl hfd hl
  have h₂ := Run.step (.read 5 [⟨some (List.replicate 4096 0), 11, 1, 1⟩]) accepted_five
    trivial trivial hs
  have hf := OrderedMap.find_insert (OrderedMap.empty.insert 5 (ServerClient.create 0 0 5 0)) 5 5
    ((ServerClient.create 0 0 5 0).readLoop ServerClient.onRecvData
      [⟨some (List.replicate 4096 0), 11, 1, 1⟩]).client
  rw [if_pos rfl] at hf
  have hst := run_streams h₂
  refine ⟨_, _, _, _, h₂, hf, ?_, ?_⟩
  · cases hst.stored 5 _ hf with
    | inl h => exact h.2.2
    | inr h => exact absurd h.1 (by decide)
  · have hz : offered 5 [Op.accept ⟨5, 0, 0, 0⟩] = 0 := rfl
    have ho : offered 5 ([Op.accept ⟨5, 0, 0, 0⟩] ++
        [Op.read 5 [⟨some (List.replicate 4096 0), 11, 1, 1⟩]]) = 4096 := by
      rw [offered_append, hz]
      simp only [addOffer, firstOffer, if_true, Option.getD_some, List.length_replicate]
    rw [(hst.received 5 _ hf).last, hst.length 5 _ hf, ho]
    decide

end CdroidDemo.ServerStreams
