import CdroidDemo.ServerStreams

/-!
# Which connections are idle

A connection is idle when nothing has been received or nothing has been sent
for `TIME_OUT` milliseconds. `ServerClient::onRecvData` replaces the uptime of
a receive by the wall clock, so the sweep compares two clocks. The use of a
connection is recorded beside the run.
-/

namespace CdroidDemo.IdleClients

open Descriptors TcpClient Client ServerConnections SocketServer ServerStreams

/-- When a connection was last used, or opened. -/
structure Usage where
  /-- The uptime of the last receive. -/
  received : ℤ
  /-- The uptime of the last send. -/
  sent : ℤ
  /-- The wall clock at the last receive, if there was one. -/
  wall : Option ℤ

/-- More than `TIME_OUT` milliseconds without a receive or without a send. -/
def Usage.Idle (u : Usage) (now : ℤ) : Prop :=
  u.received + TIME_OUT < now ∨ u.sent + TIME_OUT < now

/-- The wall clock of the last receive gives the answer that its uptime would
give, if the last send leaves it open. -/
def Usage.Agrees (u : Usage) (now : ℤ) : Prop :=
  u.sent + TIME_OUT < now ∨
    ∀ time, u.wall = some time → (time + TIME_OUT < now ↔ u.received + TIME_OUT < now)

/-- The answers that bring bytes, in the turns of the read loop. -/
def receives (c : Client) : List Recv → List Recv
  | [] => []
  | r :: answers =>
    if c.recv r = [] then []
    else if (c.recv r).length < c.mRSBuf.free then [r]
    else r :: receives (ServerClient.onRecvData r.time (c.readData r)).1 answers

/-- A receive. -/
def Usage.receive (u : Usage) (r : Recv) : Usage :=
  {u with received := r.uptime, wall := some r.time}

/-- What a call is to the connection under a key. -/
def use (s : SocketServer) (key : ℤ) (u : Usage) : Op → Usage
  | .accept k => if k.accept = key then ⟨k.uptime, k.uptime, none⟩ else u
  | .read fd answers =>
    if fd = key then
      match s.mClients.find fd with
      | none => u
      | some c => (receives c answers).foldl Usage.receive u
    else u
  | .sendData uptime _ =>
    match s.mClients.find key with
    | none => u
    | some c => if c.mIsAuth && c.isConn then {u with sent := uptime key} else u
  | _ => u

/-- Runs of the server with the use of its connections. -/
inductive UsedRun : List Op → SocketServer → Table ℤ → List Event → (ℤ → Usage) → Prop
  /-- The server is created. -/
  | start (rcv snd : ℤ) (u : ℤ → Usage) :
    UsedRun [] (SocketServer.create rcv snd) Table.empty [] u
  /-- One operation, and the use it makes of the connections. -/
  | step {ops : List Op} {s s' : SocketServer} {t t' : Table ℤ} {es es' : List Event}
    {u : ℤ → Usage} (op : Op) (h : UsedRun ops s t es u) (hp : Possible t op)
    (hs : step s t op = some (s', t', es')) :
    UsedRun (ops ++ [op]) s' t' (es ++ es') fun key => use s key (u key) op

/-- The times that an open connection keeps: the uptime of its last send, and
the wall clock of its last receive, the uptime of the opening before. -/
def Keeps (c : Client) (u : Usage) : Prop :=
  c.mLastRcvTime = u.wall.getD u.received ∧ c.mLastSndTime = u.sent

/-- A run with its use is a run. -/
theorem UsedRun.run {ops : List Op} {s : SocketServer} {t : Table ℤ} {es : List Event}
    {u : ℤ → Usage} (h : UsedRun ops s t es u) : Run (fun _ _ => True) ops s t es := by
  induction h with
  | start rcv snd => exact Run.start rcv snd
  | step op _ hp hs ih => exact Run.step op ih trivial hp hs

section Calls

variable {c : Client} {u : Usage}

/-- A new connection keeps the uptime of its opening. -/
theorem create_keeps {rcv snd fd uptime : ℤ} (h : 0 < fd) :
    Keeps (ServerClient.create rcv snd fd uptime) ⟨uptime, uptime, none⟩ := by
  have hs : (Client.initData rcv snd).setFd fd uptime = some {Client.initData rcv snd with
      mFd := fd, mStatus := .connected, mLastRcvTime := uptime, mLastSndTime := uptime} :=
    if_neg (by omega)
  rw [ServerClient.create, hs]
  exact ⟨rfl, rfl⟩

/-- A receive keeps the wall clock, -/
theorem read_keeps (h : Keeps c u) (r : Recv) :
    Keeps (ServerClient.onRecvData r.time (c.readData r)).1 (u.receive r) := by
  rw [ServerClient.onRecvData_eq]
  exact ⟨rfl, h.2⟩

/-- The read loop keeps the times of its last receive. -/
theorem readLoop_keeps (h : Keeps c u) (answers : List Recv) :
    Keeps (c.readLoop ServerClient.onRecvData answers).client
      ((receives c answers).foldl Usage.receive u) := by
  induction answers generalizing c u with
  | nil => exact h
  | cons r answers ih =>
    rw [ServerClient.readLoop_cons, receives]
    split
    · exact h
    · split
      · exact read_keeps h r
      · exact ih (read_keeps h r)

/-- and a send its uptime. -/
theorem sendOne_keeps (h : Keeps c u) (uptime : ℤ → ℤ) (data : List UInt8) (key : ℤ) :
    Keeps (sendOne uptime data key c).1
      (if c.mIsAuth && c.isConn then {u with sent := uptime key} else u) := by
  unfold sendOne Client.sendData
  cases c.mIsAuth with
  | false => exact h
  | true =>
    cases c.isConn with
    | false => exact h
    | true => exact ⟨h.1, rfl⟩

/-- The test of an open connection. -/
theorem isTimeout_iff (h : Keeps c u) (now : ℤ) : c.isTimeout 0 now = true ↔
    u.wall.getD u.received + TIME_OUT < now ∨ u.sent + TIME_OUT < now := by
  rw [Client.isTimeout, h.1, h.2, if_pos (Int.le_refl 0), Bool.or_eq_true, decide_eq_true_eq,
    decide_eq_true_eq]

/-- The test is right exactly when the clocks agree. -/
theorem isTimeout_right_iff (h : Keeps c u) (now : ℤ) :
    (c.isTimeout 0 now = true ↔ u.Idle now) ↔ u.Agrees now := by
  rw [isTimeout_iff h, Usage.Idle, Usage.Agrees]
  by_cases hsent : u.sent + TIME_OUT < now
  · exact iff_of_true (iff_of_true (Or.inr hsent) (Or.inr hsent)) (Or.inl hsent)
  · rw [or_iff_left hsent, or_iff_left hsent, or_iff_right hsent]
    cases u.wall with
    | none => exact iff_of_true Iff.rfl nofun
    | some time =>
      constructor
      · intro hiff time' he
        obtain rfl := Option.some.inj he
        exact hiff
      · exact fun hall => hall time rfl

end Calls

/-- Sending keeps the descriptor. -/
theorem sendOne_mFd (uptime : ℤ → ℤ) (data : List UInt8) (key : ℤ) (c : Client) :
    (sendOne uptime data key c).1.mFd = c.mFd := by
  unfold sendOne Client.sendData
  split
  · rfl
  · split
    · rfl
    · rfl

/-- The sweep keeps every connection that is not late. -/
theorem mem_sweep {uptime : ℤ → ℤ} {it : ℤ × Client} {l : List (ℤ × Client)} {t : Table ℤ}
    (hm : it ∈ l) (hlate : it.2.isTimeout 0 (uptime it.1) = false) :
    it ∈ (sweep uptime l t).1 := by
  induction l generalizing t with
  | nil => cases hm
  | cons e rest ih =>
    unfold sweep
    cases List.mem_cons.mp hm with
    | inl he =>
      rw [← he, hlate]
      exact List.mem_cons_self
    | inr hm =>
      split
      · exact ih hm
      · exact List.mem_cons_of_mem e (ih hm)

/-! ## Along a run -/

section Steps

variable {ops : List Op} {s s' : SocketServer} {t t' : Table ℤ} {es es' : List Event} {op : Op}
  {key : ℤ} {c' : Client}

/-- A sweep drops the connections that are out of time. -/
theorem onTick_find (s : SocketServer) (t : Table ℤ) (uptime : ℤ → ℤ) :
    (s.onTick t uptime).1.mClients.find key = some c' ↔
      s.mClients.find key = some c' ∧ c'.isTimeout 0 (uptime key) = false := by
  rw [← OrderedMap.mem_entries_iff, ← OrderedMap.mem_entries_iff]
  constructor
  · intro h
    exact ⟨(sweep_sublist uptime _ t).subset h, sweep_kept h⟩
  · rintro ⟨hm, hlate⟩
    exact mem_sweep hm hlate

/-- What a step leaves under a key: the connection that it accepts, reads from
or sends to, or one that it does not use. -/
theorem step_find (h : Streams ops s t es) (hp : Possible t op)
    (hs : step s t op = some (s', t', es')) (hf : s'.mClients.find key = some c') :
    (∃ k, op = .accept k ∧ k.accept = key ∧
      c' = ServerClient.create k.rcv k.snd k.accept k.uptime) ∨
    (∃ c answers, op = .read key answers ∧ s.mClients.find key = some c ∧ c.mFd = key ∧
      c' = (c.readLoop ServerClient.onRecvData answers).client) ∨
    (∃ c uptime data, op = .sendData uptime data ∧ s.mClients.find key = some c ∧
      c' = (sendOne uptime data key c).1) ∨
    (s.mClients.find key = some c' ∧ ∀ u, use s key u op = u) := by
  cases op with
  | init k =>
    obtain ⟨rfl, rfl, rfl⟩ := step_init hs
    rw [(init_connections fun hge => h.fresh (hp hge)).1] at hf
    exact Or.inr (Or.inr (Or.inr ⟨hf, fun _ => rfl⟩))
  | accept k =>
    obtain ⟨rfl, rfl, rfl⟩ := step_accept hs
    by_cases hno : k.accept < 0
    · rw [handleEvent, if_pos hno] at hf
      have hne : k.accept ≠ key := by
        have := (h.stored key c' hf).nonneg
        omega
      exact Or.inr (Or.inr (Or.inr ⟨hf, fun _ => if_neg hne⟩))
    · have hge := Int.not_lt.mp hno
      rw [handleEvent_new hge (h.fresh (hp hge)), OrderedMap.find_insert] at hf
      split at hf
      · rename_i hk
        exact Or.inl ⟨k, rfl, hk.symm, (Option.some.inj hf).symm⟩
      · rename_i hk
        exact Or.inr (Or.inr (Or.inr ⟨hf, fun _ => if_neg (Ne.symm hk)⟩))
  | read fd answers =>
    obtain ⟨c, hc, hfd, rfl, rfl, rfl⟩ := step_read hs
    cases hl : (c.readLoop ServerClient.onRecvData answers).lost with
    | true =>
      rw [clientEvent_lost rfl hl (h.stored fd c hc) hfd, OrderedMap.find_erase] at hf
      split at hf
      · cases hf
      · rename_i hk
        exact Or.inr (Or.inr (Or.inr ⟨hf, fun _ => if_neg (Ne.symm hk)⟩))
    | false =>
      rw [clientEvent_kept rfl hl, OrderedMap.find_insert] at hf
      split at hf
      · rename_i hk
        subst hk
        exact Or.inr (Or.inl ⟨c, answers, rfl, hc, hfd, (Option.some.inj hf).symm⟩)
      · rename_i hk
        exact Or.inr (Or.inr (Or.inr ⟨hf, fun _ => if_neg (Ne.symm hk)⟩))
  | onTick uptime =>
    cases hs
    exact Or.inr (Or.inr (Or.inr ⟨((onTick_find s t uptime).mp hf).1, fun _ => rfl⟩))
  | sendData uptime data =>
    cases hs
    have hm := OrderedMap.find_mapValues s.mClients
      (fun key sc => (sendOne uptime data key sc).1) key
    obtain ⟨c, hc, rfl⟩ := Option.map_eq_some_iff.mp (hm.symm.trans hf)
    exact Or.inr (Or.inr (Or.inl ⟨c, uptime, data, rfl, hc, rfl⟩))

end Steps

section Runs

variable {ops : List Op} {s : SocketServer} {t : Table ℤ} {es : List Event} {u : ℤ → Usage}

/-- Open connections keep the times of their use. -/
theorem usedRun_keeps (h : UsedRun ops s t es u) (key : ℤ) {c : Client}
    (hf : s.mClients.find key = some c) (hfd : c.mFd = key) : Keeps c (u key) := by
  induction h generalizing c with
  | start => cases hf
  | step op h hp hs ih =>
    have hstored := (run_streams (UsedRun.step op h hp hs).run).stored key c hf
    dsimp only
    rcases step_find (run_streams h.run) hp hs hf with ⟨k, rfl, hk, rfl⟩ |
      ⟨d, answers, rfl, hd, hdfd, rfl⟩ | ⟨d, uptime, data, rfl, hd, rfl⟩ | ⟨hd, huse⟩
    · simp only [use, hk, if_true]
      exact create_keeps (hstored.pos hfd)
    · simp only [use, if_true, hd]
      exact readLoop_keeps (ih hd hdfd) answers
    · simp only [use, hd]
      exact sendOne_keeps (ih hd ((sendOne_mFd uptime data key d).symm.trans hfd)) uptime data key
    · rw [huse]
      exact ih hd hfd

/-- After every run a connection is found idle when it is, and dropped by a
tick when it is, exactly when the clocks agree about it. -/
theorem idle_found_iff (h : UsedRun ops s t es u) (key : ℤ) {c : Client}
    (hf : s.mClients.find key = some c) (hfd : c.mFd = key) :
    (∀ now, (c.isTimeout 0 now = true ↔ (u key).Idle now) ↔ (u key).Agrees now) ∧
      ∀ uptime, ((s.onTick t uptime).1.mClients.find key = none ↔ (u key).Idle (uptime key)) ↔
        (u key).Agrees (uptime key) := by
  have hk := usedRun_keeps h key hf hfd
  refine ⟨isTimeout_right_iff hk, fun uptime => ?_⟩
  have hdropped : (s.onTick t uptime).1.mClients.find key = none ↔
      c.isTimeout 0 (uptime key) = true := by
    rw [Option.eq_none_iff_forall_ne_some]
    constructor
    · intro hno
      by_contra hlate
      exact hno c ((onTick_find s t uptime).mpr ⟨hf, Bool.eq_false_iff.mpr hlate⟩)
    · intro hlate c' hf'
      obtain ⟨hc, hkept⟩ := (onTick_find s t uptime).mp hf'
      obtain rfl := Option.some.inj (hf.symm.trans hc)
      rw [hlate] at hkept
      cases hkept
  rw [hdropped]
  exact isTimeout_right_iff hk (uptime key)

end Runs

/-- A connection is accepted at uptime 10000. -/
theorem accepted_used :
    UsedRun [.accept ⟨5, 10000, 0, 0⟩] ⟨Client.initData 0 0,
      OrderedMap.empty.insert 5 (ServerClient.create 0 0 5 10000)⟩ (Table.empty.alloc 5)
      [.accepted 5] fun key => use (SocketServer.create 0 0) key ⟨0, 0, none⟩
        (.accept ⟨5, 10000, 0, 0⟩) :=
  UsedRun.step (.accept ⟨5, 10000, 0, 0⟩) (UsedRun.start 0 0 fun _ => ⟨0, 0, none⟩)
    (fun _ => List.not_mem_nil) rfl

/-- The key is received at uptime 10100 and data is sent at uptime 20000. The
sweep keeps the connection at uptime 40000, and drops it 30001 ms after the
send. -/
theorem idle_found_iff_keyed :
    ∃ ops s t es u c, UsedRun ops s t es u ∧ s.mClients.find 5 = some c ∧
      u 5 = ⟨10100, 20000, some 1700000000⟩ ∧
      c.isTimeout 0 40000 = false ∧ (s.onTick t fun _ => 40000).1.mClients.find 5 ≠ none ∧
      c.isTimeout 0 50001 = true ∧ (s.onTick t fun _ => 50001).1.mClients.find 5 = none := by
  have h₂ := UsedRun.step (.read 5 [⟨some AUTH_KEYS, 11, 10100, 1700000000⟩]) accepted_used
    trivial rfl
  have h₃ := UsedRun.step (.sendData (fun _ => 20000) [7]) h₂ trivial rfl
  have hkept : Usage.Agrees ⟨10100, 20000, some 1700000000⟩ 40000 := by
    refine Or.inr fun time he => ?_
    cases he
    decide
  have hlate : Usage.Agrees ⟨10100, 20000, some 1700000000⟩ 50001 := Or.inl (by decide)
  have hnot : ¬Usage.Idle ⟨10100, 20000, some 1700000000⟩ 40000 := by
    unfold Usage.Idle
    decide
  obtain ⟨htest, htick⟩ := idle_found_iff h₃ 5 rfl rfl
  refine ⟨_, _, _, _, _, _, h₃, rfl, rfl, ?_, ?_, ?_, ?_⟩
  · exact Bool.eq_false_iff.mpr fun hout => hnot (((htest 40000).mpr hkept).mp hout)
  · exact fun hnone => hnot (((htick fun _ => 40000).mpr hkept).mp hnone)
  · exact ((htest 50001).mpr hlate).mpr (Or.inl (by decide))
  · exact ((htick fun _ => 50001).mpr hlate).mpr (Or.inl (by decide))

/-- The key is received at uptime 10100, some second of the year 2023, and the
last data is sent at uptime 69000. At uptime 70000 nothing has been received
for a minute, and the sweep keeps the connection. -/
theorem idle_missed :
    ∃ ops s t es u c, UsedRun ops s t es u ∧ s.mClients.find 5 = some c ∧ c.mFd = 5 ∧
      u 5 = ⟨10100, 69000, some 1700000000⟩ ∧ (u 5).Idle 70000 ∧ c.isTimeout 0 70000 = false ∧
      (s.onTick t fun _ => 70000).1.mClients.find 5 = some c := by
  have h₂ := UsedRun.step (.read 5 [⟨some AUTH_KEYS, 11, 10100, 1700000000⟩]) accepted_used
    trivial rfl
  have h₃ := UsedRun.step (.sendData (fun _ => 69000) []) h₂ trivial rfl
  have hlate := isTimeout_iff (usedRun_keeps h₃ 5 rfl rfl) 70000
  have hkept : ¬((1700000000 : ℤ) + TIME_OUT < 70000 ∨ (69000 : ℤ) + TIME_OUT < 70000) := by decide
  have hno := Bool.eq_false_iff.mpr fun hl => hkept (hlate.mp hl)
  exact ⟨_, _, _, _, _, _, h₃, rfl, rfl, rfl, Or.inl (by decide), hno,
    (onTick_find _ _ _).mpr ⟨rfl, hno⟩⟩

end CdroidDemo.IdleClients
