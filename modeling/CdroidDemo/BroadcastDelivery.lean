import CdroidDemo.DistinctKeys
import CdroidDemo.IdleClients
import CdroidDemo.Subscriptions

/-!
# What broadcasts are sent

From the moment a connection has sent the key until it is lost, the data of
every `sendData` is handed to `send` on its descriptor: nothing of this is left
out, doubled or in another order, and nothing else is handed over. What `send`
makes of it, the code does not look at.
-/

namespace CdroidDemo.BroadcastDelivery

open Descriptors TcpClient ServerConnections SocketServer ServerStreams IdleClients
open Subscriptions

/-! ## Continued runs -/

/-- Calls that follow on a state, and what is seen of them. -/
inductive Goes (allowed : SocketServer → Op → Prop) :
    SocketServer → Table ℤ → List Op → SocketServer → Table ℤ → List Event → Prop
  /-- Nothing happens. -/
  | nil (s : SocketServer) (t : Table ℤ) : Goes allowed s t [] s t []
  /-- One operation, and then the rest. -/
  | cons {s s' s'' : SocketServer} {t t' t'' : Table ℤ} {ops : List Op} {es gs : List Event}
    (op : Op) (ha : allowed s op) (hp : Possible t op) (hs : step s t op = some (s', t', es))
    (h : Goes allowed s' t' ops s'' t'' gs) : Goes allowed s t (op :: ops) s'' t'' (es ++ gs)

/-- The data that a call broadcasts. -/
def broadcastOf : Op → Option (List UInt8)
  | .sendData _ data => some data
  | _ => none

/-- The data that the calls broadcast. -/
def broadcasts (ops : List Op) : List (List UInt8) := ops.filterMap broadcastOf

/-- The broadcast of the first call comes first. -/
theorem broadcasts_cons (op : Op) (ops : List Op) :
    broadcasts (op :: ops) = (broadcastOf op).toList ++ broadcasts ops := by
  unfold broadcasts
  rw [List.filterMap_cons]
  cases broadcastOf op <;> rfl

/-- What a broadcast hands to `send` on a descriptor. The code does not look at
how much of it `send` takes. -/
def mailOf (fd : ℤ) : Event → List (List UInt8)
  | .sent sends _ => sends.filterMap fun x => if x.1 = fd then some x.2 else none
  | _ => []

/-- What was handed to `send` on a descriptor. -/
def mail (fd : ℤ) (es : List Event) : List (List UInt8) := es.flatMap (mailOf fd)

/-- The connection under a descriptor as a subscriber. -/
def phase (s : SocketServer) (fd : ℤ) : Phase :=
  match s.mClients.find fd with
  | none => .gone
  | some c => if c.mIsAuth then .live else .early

/-- Without an entry the connection is gone. -/
theorem phase_none {s : SocketServer} {fd : ℤ} (h : s.mClients.find fd = none) :
    phase s fd = .gone := by
  unfold phase
  rw [h]

/-- An entry is early or live. -/
theorem phase_some {s : SocketServer} {fd : ℤ} {c : Client} (h : s.mClients.find fd = some c) :
    phase s fd = if c.mIsAuth then .live else .early := by
  unfold phase
  rw [h]

/-! ## One call -/

section Step

variable {ops : List Op} {s s' : SocketServer} {t t' : Table ℤ} {es es' : List Event} {op : Op}
  {fd : ℤ}

/-- Reading never takes the key back. -/
theorem readLoop_auth {c : Client} (h : c.mIsAuth = true) (answers : List Recv) :
    (c.readLoop ServerClient.onRecvData answers).client.mIsAuth = true := by
  refine Client.readLoop_keeps (P := fun c => c.mIsAuth = true) (fun c r hc => ?_) h answers
  rw [ServerClient.onRecvData_eq]
  have hread : (c.readData r).mIsAuth = true := hc
  dsimp only
  rw [hread, Bool.true_or]

/-- Sending does not touch the key. -/
theorem sendOne_auth (uptime : ℤ → ℤ) (data : List UInt8) (key : ℤ) (c : Client) :
    (sendOne uptime data key c).1.mIsAuth = c.mIsAuth := by
  unfold sendOne Client.sendData
  split
  · rfl
  · split <;> rfl

/-- A call takes no connection back to an earlier phase, unless it accepts one
under the descriptor. -/
theorem step_phase (h : Streams ops s t es) (hp : Possible t op)
    (hs : step s t op = some (s', t', es')) (hno : ∀ k, op = .accept k → k.accept ≠ fd) :
    (phase s fd).rank ≤ (phase s' fd).rank := by
  cases hf : s'.mClients.find fd with
  | none =>
    rw [phase_none hf]
    cases phase s fd <;> decide
  | some c' =>
    have hauth : ∀ c, s.mClients.find fd = some c → (c.mIsAuth = true → c'.mIsAuth = true) →
        (phase s fd).rank ≤ (phase s' fd).rank := by
      intro c hc himp
      rw [phase_some hf, phase_some hc]
      cases ha : c.mIsAuth with
      | false => exact Nat.zero_le _
      | true => rw [himp ha]
    rcases step_find h hp hs hf with ⟨k, hop, hk, -⟩ | ⟨c, answers, -, hc, -, rfl⟩ |
      ⟨c, uptime, data, -, hc, rfl⟩ | ⟨hc, -⟩
    · exact absurd hk (hno k hop)
    · exact hauth c hc fun ha => readLoop_auth ha answers
    · exact hauth c hc fun ha => (sendOne_auth uptime data fd c).trans ha
    · exact hauth c' hc id

/-- A pass over the connections sends the data to a subscriber and nothing to
the others. -/
theorem mail_sendData (h : Streams ops s t es) (uptime : ℤ → ℤ) (data : List UInt8) :
    mail fd [.sent (s.sendData uptime data).2.1 (s.sendData uptime data).2.2] =
      if phase s fd = .live then [data] else [] := by
  have hsends : (s.sendData uptime data).2.1 =
      (s.mClients.entries.filter fun kv => kv.2.mIsAuth).map fun kv => (kv.1, data) :=
    sends_eq (fun it hm => h.stored it.1 it.2 (s.mClients.mem_entries_iff.mp hm)) uptime data
  have hmail : mail fd [.sent (s.sendData uptime data).2.1 (s.sendData uptime data).2.2] =
      s.mClients.entries.filterMap fun e =>
        if e.1 = fd then (if e.2.mIsAuth then some data else none) else none := by
    rw [mail, List.flatMap_cons, List.flatMap_nil, List.append_nil, mailOf, hsends,
      List.filterMap_map, List.filterMap_filter]
    refine List.filterMap_congr fun e _ => ?_
    by_cases hk : e.1 = fd
    · simp only [Function.comp_apply, if_pos hk]
    · simp only [Function.comp_apply, if_neg hk, ite_self]
  rw [hmail, DistinctKeys.filterMap_key s.mClients.keys_nodup fd fun c =>
    if c.mIsAuth then some data else none]
  cases hf : s.mClients.find fd with
  | none =>
    rw [phase_none hf, if_neg Phase.noConfusion]
    unfold OrderedMap.find at hf
    rw [hf]
    rfl
  | some c =>
    rw [phase_some hf]
    unfold OrderedMap.find at hf
    rw [hf]
    cases ha : c.mIsAuth with
    | false => simp only [Option.bind_some, ha]; rfl
    | true => simp only [Option.bind_some, ha]; rfl

/-- What a call sends on a descriptor. -/
theorem step_mail (h : Streams ops s t es) (hs : step s t op = some (s', t', es')) :
    mail fd es' = if phase s fd = .live then (broadcastOf op).toList else [] := by
  have hquiet : broadcastOf op = none → (∀ e ∈ es', mailOf fd e = []) →
      mail fd es' = if phase s fd = .live then (broadcastOf op).toList else [] := by
    intro hb he
    rw [hb, Option.toList_none, ite_self]
    exact List.flatMap_eq_nil_iff.mpr he
  cases op with
  | init k =>
    obtain ⟨rfl, rfl, rfl⟩ := step_init hs
    refine hquiet rfl fun e he => ?_
    rw [List.mem_singleton.mp he]
    rfl
  | accept k =>
    obtain ⟨rfl, rfl, rfl⟩ := step_accept hs
    refine hquiet rfl fun e he => ?_
    split at he
    · cases he
    · rw [List.mem_singleton.mp he]
      rfl
  | read d answers =>
    obtain ⟨c, hc, hfd, rfl, rfl, rfl⟩ := step_read hs
    refine hquiet rfl fun e he => ?_
    rw [List.mem_singleton.mp he]
    rfl
  | onTick uptime =>
    cases hs
    exact hquiet rfl fun e he => by cases he
  | sendData uptime data =>
    cases hs
    exact mail_sendData h uptime data

end Step

/-! ## Whole runs -/

variable {allowed : SocketServer → Op → Prop} {ops₀ ops : List Op} {s s' : SocketServer}
  {t t' : Table ℤ} {es₀ es : List Event} {fd : ℤ}

/-- What goes out on a descriptor is what is delivered to its subscriber. -/
theorem goes_posts (h : Run allowed ops₀ s t es₀) (hg : Goes allowed s t ops s' t' es)
    (hno : ∀ k, .accept k ∈ ops → k.accept ≠ fd) :
    ∃ posts, Ordered (phase s fd) (phase s' fd) posts ∧ posts.map Prod.snd = broadcasts ops ∧
      mail fd es = delivered posts := by
  induction hg generalizing ops₀ es₀ with
  | nil s t => exact ⟨[], le_refl _, rfl, rfl⟩
  | @cons s s₁ s' t t₁ t' ops es₁ gs op ha hp hs _ ih =>
    have hstreams := run_streams h
    obtain ⟨posts, hord, hall, hmail⟩ := ih (Run.step op h ha hp hs) fun k hk =>
      hno k (List.mem_cons_of_mem op hk)
    have hrank : (phase s fd).rank ≤ (phase s₁ fd).rank :=
      step_phase hstreams hp hs fun k hk => hno k (hk ▸ List.mem_cons_self)
    have hone : mail fd es₁ = if phase s fd = .live then (broadcastOf op).toList else [] :=
      step_mail hstreams hs
    have happ : mail fd (es₁ ++ gs) = mail fd es₁ ++ mail fd gs := List.flatMap_append
    rw [happ, hone, hmail, broadcasts_cons]
    cases broadcastOf op with
    | none =>
      refine ⟨posts, hord.from hrank, hall, ?_⟩
      rw [Option.toList_none, ite_self, List.nil_append]
    | some data =>
      refine ⟨(phase s fd, data) :: posts, ⟨le_refl _, hord.from hrank⟩, ?_, ?_⟩
      · rw [List.map_cons, hall]
        rfl
      · rw [delivered_cons]
        split <;> rfl

/-- From every state of a run on: what is handed to `send` on a descriptor that
is not handed out anew is one piece of the broadcasts, in their order and each
once. For a connection that has sent the key nothing at the beginning is
missed, and as long as a connection is not lost nothing at the end; one that
has not sent the key gets nothing. -/
theorem broadcasts_in_order (h : Run allowed ops₀ s t es₀) (hg : Goes allowed s t ops s' t' es)
    (hno : ∀ k, .accept k ∈ ops → k.accept ≠ fd) :
    ∃ missed late, broadcasts ops = missed ++ mail fd es ++ late ∧
      ((∀ c, s.mClients.find fd = some c → c.mIsAuth = true) → missed = []) ∧
      ((s'.mClients.find fd).isSome = true → late = []) ∧
      ∀ c, s'.mClients.find fd = some c → c.mIsAuth = false → mail fd es = [] := by
  obtain ⟨posts, hord, hall, hmail⟩ := goes_posts h hg hno
  obtain ⟨missed, late, hpiece, hmissed, hlate, hnone⟩ := hord.piece
  rw [hall, ← hmail] at hpiece
  refine ⟨missed, late, hpiece, fun hauth => hmissed ?_, fun hsome => hlate ?_, fun c hc ha => ?_⟩
  · cases hf : s.mClients.find fd with
    | none =>
      rw [phase_none hf]
      exact Phase.noConfusion
    | some c =>
      rw [phase_some hf, if_pos (hauth c hf)]
      exact Phase.noConfusion
  · obtain ⟨c, hc⟩ := Option.isSome_iff_exists.mp hsome
    rw [phase_some hc]
    split <;> exact Phase.noConfusion
  · rw [hmail]
    refine hnone ?_
    rw [phase_some hc, ha]
    rfl

/-- A broadcast, the key, two broadcasts, the loss of the connection and one
more broadcast. -/
def keyBetween : List Op :=
  [.sendData (fun _ => 1) [1], .read 5 [⟨some AUTH_KEYS, 11, 1, 1⟩], .sendData (fun _ => 2) [2],
    .sendData (fun _ => 3) [3], .read 5 [⟨none, ENOENT, 4, 4⟩], .sendData (fun _ => 5) [4]]

/-- The two broadcasts between the key and the loss are handed over. -/
theorem broadcasts_in_order_keyBetween :
    ∃ s t es missed late, Goes (fun _ _ => True) ⟨Client.initData 0 0,
        OrderedMap.empty.insert 5 (ServerClient.create 0 0 5 0)⟩ (Table.empty.alloc 5) keyBetween
        s t es ∧
      mail 5 es = [[2], [3]] ∧ broadcasts keyBetween = missed ++ mail 5 es ++ late := by
  have hg : ∃ s t es, Goes (fun _ _ => True) ⟨Client.initData 0 0,
      OrderedMap.empty.insert 5 (ServerClient.create 0 0 5 0)⟩ (Table.empty.alloc 5) keyBetween
      s t es ∧ mail 5 es = [[2], [3]] := by
    refine ⟨_, _, _, Goes.cons _ trivial trivial rfl (Goes.cons _ trivial trivial rfl
      (Goes.cons _ trivial trivial rfl (Goes.cons _ trivial trivial rfl
      (Goes.cons _ trivial trivial rfl (Goes.cons _ trivial trivial rfl (Goes.nil _ _)))))), ?_⟩
    rfl
  obtain ⟨s, t, es, hg, hmail⟩ := hg
  have hno : ∀ k, .accept k ∈ keyBetween → k.accept ≠ 5 := by
    intro k hk
    simp [keyBetween] at hk
  obtain ⟨missed, late, hall, -⟩ := broadcasts_in_order accepted_five hg hno
  exact ⟨s, t, es, missed, late, hg, hmail, hall⟩

end CdroidDemo.BroadcastDelivery
