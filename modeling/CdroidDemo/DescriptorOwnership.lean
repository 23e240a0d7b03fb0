import CdroidDemo.ServerConnections

/-!
# Who owns the server's descriptors

A descriptor of the server belongs to the listening socket or to the
connection stored under it. This holds along every run in which `init` neither
gives up a socket nor replaces one, and no call hands out descriptor 0. Any
other step leaves a descriptor open that nobody owns.
-/

namespace CdroidDemo.DescriptorOwnership

open Descriptors TcpClient Client ServerConnections SocketServer

/-- The server's own descriptor and the keys of its connections. -/
def owners (s : SocketServer) : List ℤ := s.held ++ s.mClients.keys

/-- Every open descriptor has exactly one owner, owners hold open descriptors,
and no other descriptor was closed. -/
structure OwnedOnce (s : SocketServer) (t : Table ℤ) : Prop where
  /-- An open descriptor belongs to the server or to one client. -/
  owner : ∀ d ∈ t.opened, Xor (s.mFd = d) (∃ c, s.mClients.find d = some c ∧ c.mFd = d)
  /-- No descriptor is open twice. -/
  nodup : t.opened.Nodup
  /-- The server's descriptor is open. -/
  server : s.mFd = -1 ∨ s.mFd ∈ t.opened
  /-- A client's descriptor is its key, and open. -/
  client : ∀ d c, s.mClients.find d = some c → c.mFd = d ∧ d ∈ t.opened
  /-- No descriptor was closed that was not open. -/
  strays : t.strays = []

/-- An `init` that reports a failure leaves nothing open. -/
def FailsClean (t t' : Table ℤ) (es : List Event) : Prop :=
  ∀ result, es = [.initialized result] → result ≠ 0 → t'.opened = t.opened

/-- A step that keeps ownership: `init` gets no socket or becomes the one
listener, and no connection is accepted under descriptor 0. -/
def Meets (s : SocketServer) : Op → Prop
  | .init k => k.socket < 0 ∨ (k.socket ≠ 0 ∧ s.mFd = -1 ∧ Listens k)
  | .accept k => k.accept ≠ 0
  | _ => True

/-- The account behind `OwnedOnce`. -/
structure Sound (s : SocketServer) (t : Table ℤ) : Prop where
  /-- The open descriptors are those of the owners. -/
  owned : t.Owned (owners s)
  /-- The server has a proper descriptor or none. -/
  server : s.mFd = -1 ∨ 0 < s.mFd
  /-- A client is connected on the descriptor it is stored under. -/
  client : ∀ key c, s.mClients.find key = some c → 0 < key ∧ c.mFd = key ∧ c.mStatus = .connected

section Sound

variable {s s' : SocketServer} {t t' : Table ℤ}

/-- A stored client is as the map keeps it. -/
theorem Sound.stored (h : Sound s t) {key : ℤ} {c : Client}
    (hf : s.mClients.find key = some c) : Stored key c := Or.inl (h.client key c hf)

/-- What is open is the listener or a client. -/
theorem Sound.mem_iff (h : Sound s t) {d : ℤ} :
    d ∈ t.opened ↔ (s.mFd = d ∧ s.mFd ≠ -1) ∨ ∃ c, s.mClients.find d = some c := by
  rw [h.owned.mem_iff, owners, List.mem_append, OrderedMap.mem_keys, Option.isSome_iff_exists]
  refine or_congr_left ?_
  by_cases hfd : s.mFd = -1
  · simp only [Client.held_of_none hfd, List.not_mem_nil, hfd, ne_eq, not_true_eq_false, and_false]
  · rw [Client.held_of_some hfd, List.mem_singleton]
    exact ⟨fun he => ⟨he.symm, hfd⟩, fun he => he.1.symm⟩

/-- A descriptor of the kernel is no key. -/
theorem Sound.fresh (h : Sound s t) {d : ℤ} (hd : d ∉ t.opened) : s.mClients.find d = none :=
  find_fresh (fun _ c hf => h.mem_iff.mpr (Or.inr ⟨c, hf⟩)) hd

/-- The server's own descriptor is no key. -/
theorem Sound.server_fresh (h : Sound s t) (hfd : s.mFd ≠ -1) :
    s.mClients.find s.mFd = none := by
  have hn := h.owned.nodup
  rw [owners, Client.held_of_some hfd, List.singleton_append, List.nodup_cons,
    OrderedMap.mem_keys] at hn
  exact Option.not_isSome_iff_eq_none.mp hn.1

/-- A sound account gives every descriptor exactly one owner. -/
theorem Sound.ownedOnce (h : Sound s t) : OwnedOnce s t where
  nodup := h.owned.perm.nodup_iff.mpr h.owned.nodup
  strays := h.owned.strays
  client d c hf := ⟨(h.client d c hf).2.1, h.mem_iff.mpr (Or.inr ⟨c, hf⟩)⟩
  server := by
    by_cases hfd : s.mFd = -1
    · exact Or.inl hfd
    · exact Or.inr (h.mem_iff.mpr (Or.inl ⟨rfl, hfd⟩))
  owner d hd := by
    cases h.mem_iff.mp hd with
    | inl hs =>
      refine Or.inl ⟨hs.1, ?_⟩
      rintro ⟨c, hf, -⟩
      rw [← hs.1, h.server_fresh hs.2] at hf
      cases hf
    | inr hc =>
      obtain ⟨c, hf⟩ := hc
      obtain ⟨hpos, hfd, -⟩ := h.client d c hf
      refine Or.inr ⟨⟨c, hf, hfd⟩, fun hs => ?_⟩
      have hne : s.mFd ≠ -1 := by omega
      rw [← hs, h.server_fresh hne] at hf
      cases hf

/-! ## Steps that keep the account -/

/-- Connections may change as long as they keep their descriptors. -/
theorem Sound.update (h : Sound s t) (hs : s'.mFd = s.mFd)
    (hc : ∀ key c', s'.mClients.find key = some c' → ∃ c, s.mClients.find key = some c ∧
      c'.mFd = c.mFd ∧ c'.mStatus = c.mStatus)
    (hk : ∀ key, (s'.mClients.find key).isSome = (s.mClients.find key).isSome) : Sound s' t where
  owned := by
    refine h.owned.move ?_
    unfold owners Client.held
    rw [hs]
    exact (OrderedMap.keys_perm hk).symm.append_left _
  server := by rw [hs]; exact h.server
  client key c' hf := by
    obtain ⟨c, hfc, hfd, hst⟩ := hc key c' hf
    rw [hfd, hst]
    exact h.client key c hfc

/-- A connection is accepted under a positive descriptor. -/
theorem Sound.accept (h : Sound s t) {k : AcceptCalls} (hpos : 0 < k.accept)
    (hd : k.accept ∉ t.opened) : Sound (s.handleEvent t k).1 (s.handleEvent t k).2 := by
  have hn := h.fresh hd
  rw [handleEvent_new (Int.le_of_lt hpos) hn]
  constructor
  · refine (h.owned.alloc hd).move ?_
    exact List.perm_middle.symm.trans ((OrderedMap.keys_insert_new hn _).symm.append_left _)
  · exact h.server
  · intro key c hf
    rw [OrderedMap.find_insert] at hf
    split at hf
    · rename_i hk
      cases hf
      have hst := create_stored k.rcv k.snd (Int.le_of_lt hpos) k.uptime
      rw [hk]
      cases hst with
      | inl hst => exact hst
      | inr hst => omega
    · exact h.client key c hf

/-- A connection is closed and forgotten. -/
theorem Sound.forget (h : Sound s t) {key : ℤ} {c : Client}
    (hf : s.mClients.find key = some c) :
    Sound {s with mClients := s.mClients.erase key} (t.close key) := by
  constructor
  · refine (h.owned.move ?_ : t.Owned (key :: (s.held ++ (s.mClients.erase key).keys))).close
    exact ((OrderedMap.keys_erase hf).append_left _).trans List.perm_middle
  · exact h.server
  · intro j d hj
    rw [OrderedMap.find_erase] at hj
    split at hj
    · cases hj
    · exact h.client j d hj

/-- An event of a connection keeps the account. -/
theorem Sound.read (h : Sound s t) {fd : ℤ} {c : Client} (hf : s.mClients.find fd = some c)
    (answers : List Recv) :
    Sound (s.clientEvent t fd c answers).1 (s.clientEvent t fd c answers).2.1 := by
  have hst := h.stored hf
  cases hl : (c.readLoop ServerClient.onRecvData answers).lost with
  | true =>
    rw [clientEvent_lost rfl hl hst (h.client fd c hf).2.1]
    exact h.forget hf
  | false =>
    rw [clientEvent_kept rfl hl]
    obtain ⟨hpos, hfd, hconn⟩ := h.client fd c hf
    have hr : (c.readLoop ServerClient.onRecvData answers).client.mFd = fd ∧
        (c.readLoop ServerClient.onRecvData answers).client.mStatus = .connected := by
      cases readLoop_stored hst answers with
      | inl hs => exact hs.2
      | inr hs => omega
    refine h.update rfl (fun key c' hk => ?_) fun key => ?_
    · rw [OrderedMap.find_insert] at hk
      split at hk
      · rename_i he
        cases hk
        exact ⟨c, he ▸ hf, hr.1.trans hfd.symm, hr.2.trans hconn.symm⟩
      · exact ⟨c', hk, rfl, rfl⟩
    · rw [OrderedMap.find_insert]
      split
      · rename_i he
        rw [he, hf]
        rfl
      · rfl

/-- The sweep closes what it erases. -/
theorem sweep_owned {uptime : ℤ → ℤ} {l : List (ℤ × Client)} {o : List ℤ}
    (hl : ∀ it ∈ l, it.2.mFd = it.1 ∧ it.1 ≠ -1) (h : t.Owned (o ++ l.map Prod.fst)) :
    (sweep uptime l t).2.Owned (o ++ (sweep uptime l t).1.map Prod.fst) := by
  induction l generalizing t o with
  | nil => exact h
  | cons it rest ih =>
    obtain ⟨hfd, hne⟩ := hl it List.mem_cons_self
    have hrest := fun e he => hl e (List.mem_cons_of_mem it he)
    have hmid : t.Owned (it.1 :: (o ++ rest.map Prod.fst)) := h.move List.perm_middle
    unfold sweep
    split
    · rw [Client.destroy_of_some (by omega), hfd]
      exact ih hrest hmid.close
    · exact (ih (o := it.1 :: o) hrest hmid).move List.perm_middle.symm

/-- A sweep keeps the account, -/
theorem Sound.onTick (h : Sound s t) (uptime : ℤ → ℤ) :
    Sound (s.onTick t uptime).1 (s.onTick t uptime).2 := by
  have hfind : ∀ it ∈ s.mClients.entries, s.mClients.find it.1 = some it.2 :=
    fun _ hm => s.mClients.mem_entries_iff.mp hm
  constructor
  · refine sweep_owned (fun it hm => ?_) h.owned
    obtain ⟨hpos, hfd, -⟩ := h.client it.1 it.2 (hfind it hm)
    exact ⟨hfd, by omega⟩
  · exact h.server
  · intro key c hf
    have hm := OrderedMap.mem_of_findEntry hf
    exact h.client key c (hfind (key, c) ((sweep_sublist uptime _ t).subset hm))

/-- and so does a broadcast. -/
theorem Sound.sendData (h : Sound s t) (uptime : ℤ → ℤ) (data : List UInt8) :
    Sound (s.sendData uptime data).1 t := by
  have hone : ∀ key c, (sendOne uptime data key c).1.mFd = c.mFd ∧
      (sendOne uptime data key c).1.mStatus = c.mStatus := by
    intro key c
    unfold sendOne Client.sendData
    split
    · exact ⟨rfl, rfl⟩
    · split <;> exact ⟨rfl, rfl⟩
  have hmap : ∀ key, (s.sendData uptime data).1.mClients.find key =
      (s.mClients.find key).map fun c => (sendOne uptime data key c).1 :=
    fun key => OrderedMap.find_mapValues _ _ key
  refine h.update rfl (fun key c' hk => ?_) fun key => by rw [hmap, Option.isSome_map]
  rw [hmap] at hk
  obtain ⟨c, hf, rfl⟩ := Option.map_eq_some_iff.mp hk
  exact ⟨c, hf, hone key c⟩

/-- A socket that listens becomes the server's own. -/
theorem Sound.listen (h : Sound s t) (hfd : s.mFd = -1) {d : ℤ} (hpos : 0 < d)
    (hd : d ∉ t.opened) {c : Client} (hc : c.mFd = d) :
    Sound {s with toClient := c} (t.alloc d) := by
  have ho := h.owned
  rw [owners, Client.held_of_none hfd, List.nil_append] at ho
  constructor
  · have hnew : owners {s with toClient := c} = d :: s.mClients.keys := by
      rw [owners, Client.held_of_some (by rw [hc]; omega), hc]
      rfl
    rw [hnew]
    exact ho.alloc hd
  · exact Or.inr (by rw [hc]; exact hpos)
  · exact h.client

/-- A step that meets the condition keeps the account, and an `init` that
fails leaves nothing open. -/
theorem Sound.step (h : Sound s t) {op : Op} {es : List Event} (hm : Meets s op)
    (hp : Possible t op) (hs : ServerConnections.step s t op = some (s', t', es)) :
    Sound s' t' ∧ FailsClean t t' es := by
  have hclean : ∀ {u : Table ℤ} {es : List Event}, (∀ r, es ≠ [.initialized r]) →
      FailsClean t u es := fun hne r he => absurd he (hne r)
  cases op with
  | init k =>
    obtain ⟨rfl, rfl, rfl⟩ := step_init hs
    cases hm with
    | inl hno =>
      rw [init_no_socket hno]
      exact ⟨h, fun _ _ _ => rfl⟩
    | inr hyes =>
      obtain ⟨hz, hfd, hl⟩ := hyes
      by_cases hno : k.socket < 0
      · rw [init_no_socket hno]
        exact ⟨h, fun _ _ _ => rfl⟩
      · have hge : 0 ≤ k.socket := Int.not_lt.mp hno
        obtain ⟨c, hi, hc⟩ := init_listens hge hl s t
        rw [if_neg hz] at hc
        rw [hi]
        refine ⟨h.listen hfd (by omega) (hp hge) hc, fun r he hr => ?_⟩
        cases he
        exact absurd rfl hr
  | accept k =>
    obtain ⟨rfl, rfl, rfl⟩ := step_accept hs
    have hne : k.accept ≠ 0 := hm
    refine ⟨?_, hclean fun r he => ?_⟩
    · by_cases hno : k.accept < 0
      · rw [handleEvent, if_pos hno]
        exact h
      · exact h.accept (by omega) (hp (Int.not_lt.mp hno))
    · split at he <;> cases he
  | read fd answers =>
    obtain ⟨c, hf, -, rfl, rfl, rfl⟩ := step_read hs
    exact ⟨h.read hf answers, hclean fun r he => by cases he⟩
  | onTick uptime =>
    cases hs
    exact ⟨h.onTick uptime, hclean fun r he => by cases he⟩
  | sendData uptime data =>
    cases hs
    exact ⟨h.sendData uptime data, hclean fun r he => by cases he⟩

/-! ## Steps that lose a descriptor -/

/-- A descriptor handed out to nobody has no owner. -/
theorem Sound.lost (h : Sound s t) {d : ℤ} (hd : d ∉ t.opened) (hge : 0 ≤ d)
    (hs : s'.mFd = s.mFd) (hc : ∀ c, s'.mClients.find d = some c → c.mFd ≠ d) :
    ¬OwnedOnce s' (t.alloc d) := by
  intro ho
  cases ho.owner d List.mem_cons_self with
  | inl hl =>
    have hfd : s.mFd = d := hs.symm.trans hl.1
    exact hd (h.mem_iff.mpr (Or.inl ⟨hfd, by omega⟩))
  | inr hr =>
    obtain ⟨⟨c, hf, hfd⟩, -⟩ := hr
    exact hc c hf hfd

/-- A second listener leaves the first one without an owner. -/
theorem Sound.replaced (h : Sound s t) (hfd : s.mFd ≠ -1) {d : ℤ} (hd : d ∉ t.opened)
    {c : Client} (hc : c.mFd = d) : ¬OwnedOnce {s with toClient := c} (t.alloc d) := by
  intro ho
  have hopen : s.mFd ∈ t.opened := h.mem_iff.mpr (Or.inl ⟨rfl, hfd⟩)
  cases ho.owner s.mFd (List.mem_cons_of_mem d hopen) with
  | inl hl =>
    have he : d = s.mFd := hc.symm.trans hl.1
    exact hd (he ▸ hopen)
  | inr hr =>
    obtain ⟨⟨c', hf, -⟩, -⟩ := hr
    rw [h.server_fresh hfd] at hf
    cases hf

/-- A step that does not meet the condition loses a descriptor. -/
theorem Sound.loses (h : Sound s t) {op : Op} {es : List Event} (hm : ¬Meets s op)
    (hp : Possible t op) (hs : ServerConnections.step s t op = some (s', t', es)) :
    ¬OwnedOnce s' t' := by
  cases op with
  | init k =>
    obtain ⟨rfl, rfl, rfl⟩ := step_init hs
    have hge : 0 ≤ k.socket := Int.not_lt.mp fun hno => hm (Or.inl hno)
    have hd := hp hge
    have hn := h.fresh hd
    by_cases hl : Listens k
    · obtain ⟨c, hi, hc⟩ := init_listens hge hl s t
      rw [hi]
      by_cases hz : k.socket = 0
      · rw [if_pos hz] at hc
        refine h.lost hd hge hc fun c' hf => ?_
        rw [hn] at hf
        cases hf
      · rw [if_neg hz] at hc
        have hfd : s.mFd ≠ -1 := fun hfd => hm (Or.inr ⟨hz, hfd, hl⟩)
        exact h.replaced hfd hd hc
    · rw [init_failed hge hn hl]
      refine h.lost hd hge rfl fun c' hf => ?_
      rw [hn] at hf
      cases hf
  | accept k =>
    obtain ⟨rfl, rfl, rfl⟩ := step_accept hs
    have hz : k.accept = 0 := not_not.mp hm
    have hd := hp (by omega)
    have hn := h.fresh hd
    rw [handleEvent_new (by omega) hn]
    refine h.lost hd (by omega) rfl fun c hf => ?_
    rw [OrderedMap.find_insert, if_pos rfl] at hf
    cases hf
    cases create_stored k.rcv k.snd (show 0 ≤ k.accept by omega) k.uptime with
    | inl hst => omega
    | inr hst => omega
  | read fd answers => exact absurd trivial hm
  | onTick uptime => exact absurd trivial hm
  | sendData uptime data => exact absurd trivial hm

end Sound

/-- The account holds after every run. -/
theorem run_sound {ops : List Op} {s : SocketServer} {t : Table ℤ} {es : List Event}
    (h : Run Meets ops s t es) : Sound s t := by
  induction h with
  | start rcv snd =>
    refine ⟨Table.empty_owned, Or.inl rfl, fun key c hf => ?_⟩
    cases hf
  | step op _ hm hp hs ih => exact (ih.step hm hp hs).1

/-- In runs whose steps all meet the condition every descriptor is owned
exactly once, and after such a run a further step keeps this, and fails
cleanly, exactly when it meets the condition. -/
theorem owned_once_iff {ops : List Op} {s : SocketServer} {t : Table ℤ} {es : List Event}
    (h : Run Meets ops s t es) :
    OwnedOnce s t ∧ ∀ op s' t' es', Possible t op → step s t op = some (s', t', es') →
      (OwnedOnce s' t' ∧ FailsClean t t' es' ↔ Meets s op) := by
  have hs := run_sound h
  refine ⟨hs.ownedOnce, fun op s' t' es' hp hstep => ⟨fun ho => ?_, fun hm => ?_⟩⟩
  · by_contra hm
    exact hs.loses hm hp hstep ho.1
  · obtain ⟨hs', hclean⟩ := hs.step hm hp hstep
    exact ⟨hs'.ownedOnce, hclean⟩

/-- A server that listens and has accepted a client. -/
theorem owned_once_iff_accepting :
    ∃ s t es, Run Meets [.init ⟨3, fun _ => 0, 0, 0⟩, .accept ⟨4, 0, 0, 0⟩] s t es ∧
      t.opened = [4, 3] ∧ s.mFd = 3 ∧ OwnedOnce s t := by
  have hl : Listens ⟨3, fun _ => 0, 0, 0⟩ :=
    ⟨⟨SVR_PORT, by decide, by decide, by decide⟩, by decide⟩
  have h₁ := Run.step (.init ⟨3, fun _ => 0, 0, 0⟩) (Run.start 0 0 : Run Meets [] _ _ _)
    (Or.inr ⟨by decide, rfl, hl⟩) (fun _ => List.not_mem_nil) rfl
  have h₂ := Run.step (.accept ⟨4, 0, 0, 0⟩) h₁ (show (4 : ℤ) ≠ 0 by decide)
    (fun _ => show (4 : ℤ) ∉ [3] by decide) rfl
  exact ⟨_, _, _, h₂, rfl, rfl, (owned_once_iff h₂).1⟩

/-- No port can be bound: `init` reports a failure, and its socket stays open
without an owner. -/
theorem bind_fails_leaks :
    ∃ s t, Run (fun _ _ => True) [.init ⟨3, fun _ => -1, 0, 0⟩] s t [.initialized 1] ∧
      t.opened = [3] ∧ s.mFd = -1 ∧ s.mClients.entries = [] ∧ ¬OwnedOnce s t := by
  have hl : ¬Listens ⟨3, fun _ => -1, 0, 0⟩ := by
    rintro ⟨⟨port, -, -, hb⟩, -⟩
    exact absurd (show (0 : ℤ) ≤ -1 from hb) (by decide)
  have hi := init_failed (s := SocketServer.create 0 0) (k := ⟨3, fun _ => -1, 0, 0⟩) (by decide)
    rfl hl Table.empty
  have hs : step (SocketServer.create 0 0) Table.empty (.init ⟨3, fun _ => -1, 0, 0⟩) =
      some (SocketServer.create 0 0, Table.empty.alloc 3, [.initialized 1]) := by
    rw [step, hi]
  have h := Run.step (.init ⟨3, fun _ => -1, 0, 0⟩)
    (Run.start 0 0 : Run (fun _ _ => True) [] _ _ _) trivial (fun _ => List.not_mem_nil) hs
  refine ⟨_, _, h, rfl, rfl, rfl, fun ho => ?_⟩
  cases ho.owner 3 List.mem_cons_self with
  | inl hx => exact absurd hx.1 (by decide)
  | inr hx =>
    obtain ⟨⟨c, hf, -⟩, -⟩ := hx
    cases hf

end CdroidDemo.DescriptorOwnership
