import CdroidDemo.CommandDelivery
import CdroidDemo.QueueDrain
import CdroidDemo.RefreshedQueue

/-!
# Every command arrives in the end

A command can be dropped by `send` and so be overtaken by an earlier one. The
manager builds the current command again at least every second, and only
current commands join the queue once no setter is called any more. So the last
frame transmitted carries the current command after a bounded time, whatever
was dropped before.
-/

namespace CdroidDemo.CommandRefresh

open FramedReceiver PacketMemory PacketBuffer BufferPool SerialClient ConnMgr UartReceiver
open BufferOwnership McuPackets FifoQueue ManagerRuns UartTransmission CommandDelivery
open SDHWPacketBuffer QueueDrain RefreshedQueue

/-- The beat that a call of the manager is. -/
def beatOf : Call → Option Beat
  | .handleEvents nowTick tickTime sendTime => some ⟨nowTick, tickTime, sendTime⟩
  | _ => none

/-- The beats of the calls. -/
def beatsOf (as : List Call) : List Beat := as.filterMap beatOf

/-- The beats of the manager are those of its calls. -/
theorem beats_map (as : List Call) : beats (as.map beatOf) = beatsOf as :=
  List.filterMap_map

/-- The frames that the client transmitted. -/
def sentOut (es : List Event) : List (ℕ × List UInt8) := es.filterMap (transmittedBy 0)

/-- The queue of the manager's client after `served` transmissions. -/
def view (m : CConnMgr) (served : ℕ) : Refreshed :=
  ⟨m.mUartMCU.mSendQueue.length, served, m.mUartMCU.mLastSendTime, m.mLastSendTime⟩

/-- What holds of the manager after any calls. -/
structure Kept (es : List Event) (m : CConnMgr) : Prop where
  /-- The manager can send. -/
  ready : Ready m
  /-- The run is one of the client and its pool. -/
  sysRun : Sys.Run (Sys.empty .mcu) es (sys m)
  /-- The board is connected. -/
  isConn : m.mUartMCU.isConn = true

/-- The manager starts with no command on its way. -/
theorem kept_initial : Kept [] initial := ⟨initial_ready, initial_run, rfl⟩

/-- The frames accepted in these events carry the command `w`. -/
def Carrying (w : List UInt8) (gs : List Event) : Prop :=
  ∀ x ∈ gs.filterMap (acceptedBy 0), ∃ d, x.2 = framed d ∧ command d = w

/-- A call, the state it leaves and what is seen of it. -/
structure Does (es : List Event) (m : CConnMgr) (b : Option Beat) (m' : CConnMgr)
    (gs : List Event) : Prop where
  /-- The new state is kept. -/
  kept : Kept (es ++ gs) m'
  /-- The queue makes this step of the abstract one. -/
  step : ∀ n, Step 100 1000 (view m n) b (view m' (n + (sentOut gs).length))
  /-- What is sent carries the command. -/
  carrying : Carrying (command m.mSndData) gs

variable {es gs : List Event} {m : CConnMgr}

/-- A setter call leaves the queue alone. -/
theorem Kept.setter (h : Kept es m) (x : Setter) : Does es m none (x.apply m) [] := by
  have hs := apply_sys m x
  have hclient : (x.apply m).mUartMCU = m.mUartMCU := by cases x <;> rfl
  have htime : (x.apply m).mLastSendTime = m.mLastSendTime := by cases x <;> rfl
  refine ⟨⟨h.ready.setter x, ?_, by rw [hclient]; exact h.isConn⟩, fun n => ?_, fun x hx => ?_⟩
  · rw [List.append_nil, hs]
    exact h.sysRun
  · unfold view
    rw [hclient, htime]
    exact Step.quiet (Or.inl rfl)
  · cases hx

/-- Receiving keeps the queue. -/
theorem Kept.data (h : Kept es m) (clock : ℕ → ℤ) (buf : List UInt8) :
    ∃ m' gs, clientData m clock buf = some (m', gs) ∧ Does es m none m' gs := by
  obtain ⟨p, c, rs, hdata, hf⟩ := clientData_fed h.ready clock buf
  have hst : Sys.Stepped MCU2UI.framing (sys m) (.onUartData 0 clock buf)
      (sys {m with mPacket := p, mUartMCU := c}) _ := Sys.Stepped.onUartData (sys_client m) hf
  have ha : (sys m).Allowed (.onUartData 0 clock buf) := rfl
  obtain ⟨curr, last, r, -, -, hdeals, rfl⟩ := hf.deals
  have hquiet : ∀ e ∈ rs.map (Event.received 0), transmittedBy 0 e = none ∧
      acceptedBy 0 e = none := by
    intro e he
    obtain ⟨x, -, rfl⟩ := List.mem_map.mp he
    exact ⟨rfl, rfl⟩
  refine ⟨_, _, hdata, ⟨h.ready.stepped hst, Sys.Run.step _ h.sysRun ha (clientData_step hdata),
    h.isConn⟩, fun n => ?_, fun x hx => ?_⟩
  · have hnone : sentOut (rs.map (Event.received 0)) = [] :=
      List.filterMap_eq_nil_iff.mpr fun e he => (hquiet e he).1
    rw [hnone]
    exact Step.quiet (deals_lastSendTime hdeals)
  · obtain ⟨e, he, hex⟩ := List.mem_filterMap.mp hx
    rw [(hquiet e he).2] at hex
    cases hex

/-- A tick of the client is a serving of its queue. -/
theorem Kept.tick (h : Kept es m) (tickTime : ℤ) :
    ∃ m' gs, clientTick m tickTime = some (m', gs) ∧ Kept (es ++ gs) m' ∧
      m'.mSndData = m.mSndData ∧ Carrying (command m.mSndData) gs ∧
      ∀ n, Serve 100 tickTime (view m n) (view m' (n + (sentOut gs).length)) := by
  obtain ⟨p, c, out, htick, ht⟩ := clientTick_ticked h.ready tickTime
  have hst : Sys.Stepped MCU2UI.framing (sys m) (.onTick 0 tickTime)
      (sys {m with mPacket := p, mUartMCU := c}) _ := Sys.Stepped.onTick (sys_client m) ht
  have hrun := Sys.Run.step (.onTick 0 tickTime) h.sysRun rfl (clientTick_step htick)
  refine ⟨_, _, htick, ⟨h.ready.stepped hst, hrun, ?_⟩, rfl, fun x hx => ?_, fun n => ?_⟩
  · cases ht with
    | idle _ => exact h.isConn
    | sent _ _ _ _ => exact h.isConn
  · cases out with
    | none => cases hx
    | some y => cases hx
  · cases ht with
    | idle hw => exact Serve.wait (hw.imp_left fun hq => by rw [view, hq]; rfl)
    | @sent ask rest b b' hq ht _ _ =>
      have hlen : (view m n).waiting = rest.length + 1 := by rw [view, hq]; rfl
      have hserve := @Serve.serve 100 tickTime (view m n) (by rw [hlen]; exact Nat.succ_pos _) ht
      rw [hlen] at hserve
      exact hserve

/-- Building the current command is a refresh of the queue. -/
theorem Kept.send (h : Kept es m) (nowTick sendTime : ℤ) :
    ∃ m' gs, sendEvents m sendTime = some (m', gs) ∧ Kept (es ++ gs) m' ∧
      command m'.mSndData = command m.mSndData ∧ Carrying (command m.mSndData) gs ∧
      sentOut gs = [] ∧ ∀ n, Refresh 1000 nowTick sendTime (view m n) (view m' n) := by
  obtain ⟨p, bd, p', c', r, hob, hev, hsent, hst⟩ := sendEvents_sent h.ready sendTime
  have ha : (sys m).Allowed (.send2MCU 0 m.mSndData) := ⟨rfl, h.ready.mType⟩
  refine ⟨_, _, hev, ⟨h.ready.stepped hst, Sys.Run.step _ h.sysRun ha (sendEvents_step hev), ?_⟩,
    rfl, fun x hx => ?_, rfl, fun n => ?_⟩
  · cases hsent with
    | disconnected _ => exact h.isConn
    | duplicate _ _ => exact h.isConn
    | accepted _ _ => exact h.isConn
  · obtain ⟨e, he, hex⟩ := List.mem_filterMap.mp hx
    rw [List.mem_singleton.mp he, acceptedBy] at hex
    split at hex
    · cases hex
      exact ⟨m.mSndData, rfl, rfl⟩
    · cases hex
  · cases hsent with
    | disconnected hc =>
      rw [h.isConn] at hc
      cases hc
    | duplicate _ hq =>
      obtain ⟨it, hit, -⟩ := hq
      exact Refresh.refuse (List.length_pos_of_mem hit)
    | accepted _ _ =>
      have hpush := @Refresh.push 1000 nowTick sendTime (view m n)
      have hlen : (m.mUartMCU.mSendQueue ++ [bd]).length = (view m n).waiting + 1 :=
        List.length_append
      rw [← hlen] at hpush
      exact hpush

/-- Two stretches of events that carry one command. -/
theorem Carrying.append {w : List UInt8} {hs : List Event} (h : Carrying w gs)
    (h' : Carrying w hs) : Carrying w (gs ++ hs) := by
  intro x hx
  rw [List.filterMap_append] at hx
  rcases List.mem_append.mp hx with hx | hx
  · exact h x hx
  · exact h' x hx

/-- A tick of the manager is a beat. -/
theorem Kept.handleEvents (h : Kept es m) (nowTick tickTime sendTime : ℤ) :
    ∃ m' gs, ManagerRuns.handleEvents m nowTick tickTime sendTime = some (m', gs) ∧
      Does es m (some ⟨nowTick, tickTime, sendTime⟩) m' gs ∧
      command m'.mSndData = command m.mSndData := by
  obtain ⟨m₁, es₁, htick, h₁, hdata, hcar₁, hserve⟩ := h.tick tickTime
  unfold ManagerRuns.handleEvents
  rw [htick, Option.bind_eq_bind, Option.bind_some]
  by_cases hdue : Due m₁ nowTick
  · obtain ⟨m₂, es₂, hsend, h₂, hcmd, hcar₂, hnone, href⟩ := h₁.send nowTick sendTime
    rw [hdata] at hcmd hcar₂
    refine ⟨m₂, es₁ ++ es₂, ?_, ⟨?_, fun n => ?_, hcar₁.append hcar₂⟩, hcmd⟩
    · simp only [if_pos hdue, hsend, Option.bind_some, Option.pure_def]
    · rw [← List.append_assoc]
      exact h₂
    · have hsame : sentOut (es₁ ++ es₂) = sentOut es₁ := by
        rw [sentOut, List.filterMap_append, ← sentOut, ← sentOut, hnone, List.append_nil]
      rw [hsame]
      exact Step.beat (hserve n) (href _)
  · refine ⟨m₁, es₁, if_neg hdue, ⟨h₁, fun n => ?_, hcar₁⟩, by rw [hdata]⟩
    refine Step.beat (hserve n) (Refresh.skip ?_)
    have hearly : ¬1000 ≤ nowTick - m₁.mLastSendTime := fun hlate => hdue (Or.inr hlate)
    exact lt_of_not_ge hearly

/-- Every call succeeds; only setters change the command. -/
theorem Kept.call (h : Kept es m) (a : Call) :
    ∃ m' gs, CommandDelivery.call m a = some (m', gs) ∧ Does es m (beatOf a) m' gs ∧
      ((∀ x, a ≠ .setter x) → command m'.mSndData = command m.mSndData) := by
  cases a with
  | setter x => exact ⟨_, [], rfl, h.setter x, fun hno => absurd rfl (hno x)⟩
  | handleEvents nowTick tickTime sendTime =>
    obtain ⟨m', gs, hcall, hdoes, hcmd⟩ := h.handleEvents nowTick tickTime sendTime
    exact ⟨m', gs, hcall, hdoes, fun _ => hcmd⟩
  | onUartData clock buf =>
    obtain ⟨m', gs, hcall, hdoes⟩ := h.data clock buf
    obtain ⟨⟨p, c, offset, rs⟩, -, hpure⟩ := Option.bind_eq_some_iff.mp hcall
    cases hpure
    exact ⟨_, _, hcall, hdoes, fun _ => rfl⟩

/-- Calls succeed and are a run of the refreshed queue. -/
theorem Kept.calls (h : Kept es m) (n : ℕ) (as : List Call) :
    ∃ m' gs, CommandDelivery.calls m as = some (m', gs) ∧ Kept (es ++ gs) m' ∧
      RefreshedQueue.Run 100 1000 (view m n) (as.map beatOf)
        (view m' (n + (sentOut gs).length)) ∧
      ((∀ x, .setter x ∉ as) → Carrying (command m.mSndData) gs) := by
  induction as generalizing es m n with
  | nil =>
    exact ⟨m, [], rfl, by rwa [List.append_nil], RefreshedQueue.Run.nil _,
      fun _ x hx => by cases hx⟩
  | cons a as ih =>
    obtain ⟨m₁, es₁, hcall, hdoes, hcmd⟩ := h.call a
    obtain ⟨m₂, es₂, hcalls, h₂, hrun, hcar⟩ := ih hdoes.kept (n + (sentOut es₁).length)
    refine ⟨m₂, es₁ ++ es₂, ?_, by rwa [← List.append_assoc], ?_, fun hno => ?_⟩
    · simp only [CommandDelivery.calls, hcall, hcalls, Option.bind_eq_bind, Option.bind_some,
        Option.pure_def]
    · have hlen : n + (sentOut (es₁ ++ es₂)).length =
          n + (sentOut es₁).length + (sentOut es₂).length := by
        rw [sentOut, List.filterMap_append, ← sentOut, ← sentOut, List.length_append,
          Nat.add_assoc]
      rw [List.map_cons, hlen]
      exact RefreshedQueue.Run.cons (hdoes.step n) hrun
    · have hsame := hcmd fun x he => hno x (he ▸ List.mem_cons_self)
      have hrest := hcar fun x hx => hno x (List.mem_cons_of_mem a hx)
      rw [hsame] at hrest
      exact hdoes.carrying.append hrest

/-- The frames accepted so far are those transmitted and those in the queue. -/
theorem Kept.accepted (h : Kept es m) :
    (es.filterMap (acceptedBy 0)).length = (sentOut es).length + m.mUartMCU.mSendQueue.length := by
  obtain ⟨waiting, ⟨sent, hacc, hf⟩, hw, -⟩ :=
    ((run_accounts (t := .mcu) rfl h.sysRun).account 0 _ (sys_client m)).fifo
  have hsent : sent.length = (sentOut es).length := hf.length_eq
  rw [hacc, List.length_append, hsent, ← hw, List.length_map]

/-- Once more frames have gone out than were in the queue, the last one is a
frame that was built since. -/
theorem Kept.last_sent {m' : CConnMgr} (h : Kept es m) (h' : Kept (es ++ gs) m')
    {w : List UInt8} (hcar : Carrying w gs)
    (hmore : m.mUartMCU.mSendQueue.length < (sentOut gs).length) :
    ∃ x, (sentOut gs).getLast? = some x ∧ commandBytes x.2 = w := by
  obtain ⟨waiting, hfifo, -⟩ :=
    ((run_accounts (t := .mcu) rfl h'.sysRun).account 0 _ (sys_client m')).fifo
  rw [List.filterMap_append, List.filterMap_append, ← sentOut, ← sentOut] at hfifo
  have hacc := h.accepted
  obtain ⟨a, ha, b, hb, hsent⟩ := hfifo.last_new (by rw [List.length_append]; omega)
  obtain ⟨d, hd, hw⟩ := hcar a ha
  have hne : sentOut gs ≠ [] := by
    intro hnil
    rw [hnil] at hmore
    exact Nat.not_lt_zero _ hmore
  obtain ⟨x, hx⟩ := Option.isSome_iff_exists.mp (List.getLast?_isSome.mpr hne)
  rw [List.getLast?_append, hx] at hb
  obtain rfl : x = b := Option.some.inj hb
  refine ⟨x, hx, ?_⟩
  rw [sentAs_framed hd hsent, carried, hd]
  exact hw

/-- Calls from the initial manager on keep its books and leave its times in the
past. -/
theorem kept_calls {as : List Call} (h : calls initial as = some (m, es)) {t₀ : ℤ} (h₀ : 0 ≤ t₀)
    (hpast : ∀ t ∈ beatsOf as, 0 ≤ t.serve ∧ t.serve ≤ t₀ ∧ t.refresh ≤ t₀) :
    Kept es m ∧ Past (view m 0) t₀ := by
  obtain ⟨m₁, es₁, hcalls, hk, hrun, -⟩ := kept_initial.calls 0 as
  rw [h] at hcalls
  cases hcalls
  have hpast₀ : Past (view initial 0) t₀ := ⟨le_refl 0, h₀, h₀⟩
  have hp := hrun.past hpast₀ (by rw [beats_map]; exact hpast)
  exact ⟨hk, hp.nonneg, hp.last, hp.refreshed⟩

/-- Without setter calls the current command arrives in time. -/
theorem Kept.arrives (hk : Kept es m) {t₀ g : ℤ} (hpast : Past (view m 0) t₀) {bs : List Call}
    (hno : ∀ x, .setter x ∉ bs) (hg : 0 ≤ g) (htimely : Timely g t₀ (beatsOf bs))
    (hlong : ∃ t ∈ beatsOf bs,
      t₀ + 1100 + 3 * g + m.mUartMCU.mSendQueue.length * (100 + g) < t.serve) :
    ∃ m' gs, CommandDelivery.calls m bs = some (m', gs) ∧
      ∃ x, (sentOut gs).getLast? = some x ∧ commandBytes x.2 = command m.mSndData := by
  obtain ⟨m', gs, hcalls, hk', hrun, hcar⟩ := hk.calls 0 bs
  have hsane : Sane g m.mUartMCU.mSendQueue.length (view m 0) t₀ := by
    have hrefreshed := hpast.refreshed
    exact ⟨hpast.nonneg, hpast.last, by omega, le_refl _⟩
  have hdue := deadline_le (d := 100) (p := 1000) (g := g)
    (k := m.mUartMCU.mSendQueue.length) hpast rfl rfl (by omega) hg (by omega)
  have hmore := refreshed_in_time hrun hsane (by omega) hg (by omega)
    (by rw [beats_map]; exact htimely) (by
      rw [beats_map]
      obtain ⟨t, ht, hlt⟩ := hlong
      exact ⟨t, ht, by omega⟩)
  refine ⟨m', gs, hcalls, hk.last_sent hk' (hcar hno) ?_⟩
  change _ < 0 + (sentOut gs).length at hmore
  omega

/-- After the last setter call, with ticks at most `g` milliseconds apart and
`k` frames in the queue, the last frame transmitted carries the current command
as soon as a tick comes more than `1100 + 3 * g + k * (100 + g)` milliseconds
later, whatever has been called and dropped before. -/
theorem commands_arrive {as bs : List Call} (h : calls initial as = some (m, es)) {t₀ g : ℤ}
    (h₀ : 0 ≤ t₀) (hpast : ∀ t ∈ beatsOf as, 0 ≤ t.serve ∧ t.serve ≤ t₀ ∧ t.refresh ≤ t₀)
    (hno : ∀ x, .setter x ∉ bs) (hg : 0 ≤ g) (htimely : Timely g t₀ (beatsOf bs))
    (hlong : ∃ t ∈ beatsOf bs,
      t₀ + 1100 + 3 * g + m.mUartMCU.mSendQueue.length * (100 + g) < t.serve) :
    ∃ m' gs, calls m bs = some (m', gs) ∧
      ∃ x, (sentOut gs).getLast? = some x ∧ commandBytes x.2 = command m.mSndData := by
  obtain ⟨hk, hp⟩ := kept_calls h h₀ hpast
  exact hk.arrives hp hno hg htimely hlong

/-- Ticks of the manager. -/
def ticksAt : List ℤ → List Call := List.map fun t => .handleEvents t t t

/-- Hot water is switched on and off twice within 150 ms. The second command
to stop is dropped, since the first one still waits behind the second start. -/
def stopDropped : List Call :=
  ticksAt [5000] ++ [.setter (.setWaterAction .hotWater)] ++ ticksAt [5050] ++
    [.setter (.setWaterAction .null)] ++ ticksAt [5100] ++
    [.setter (.setWaterAction .hotWater)] ++ ticksAt [5150] ++
    [.setter (.setWaterAction .null)] ++ ticksAt [5200]

/-- The command to stop is dropped once, and arrives. -/
theorem commands_arrive_stopDropped :
    ∃ m es m' gs, calls initial stopDropped = some (m, es) ∧
      calls m (ticksAt [5700, 6200, 6700, 7200, 7700, 8200, 8700, 9200, 9700]) = some (m', gs) ∧
      ∃ x, (sentOut gs).getLast? = some x ∧
        commandBytes x.2 = [0, 0, 0, 0, 0, 0, 0, 0, 0] := by
  have hstop : (calls initial stopDropped).any (fun x =>
      decide (x.1.mUartMCU.mSendQueue.length ≤ 2 ∧
        command x.1.mSndData = [0, 0, 0, 0, 0, 0, 0, 0, 0])) = true := by
    decide +kernel
  obtain ⟨⟨m, es⟩, hcalls, hx⟩ := (Option.any_eq_true _ _).mp hstop
  obtain ⟨hlen, hcmd⟩ := of_decide_eq_true hx
  have htimely : Timely 500 5200
      (beatsOf (ticksAt [5700, 6200, 6700, 7200, 7700, 8200, 8700, 9200, 9700])) := by
    simp [ticksAt, beatsOf, beatOf, Timely]
  have hno : ∀ x, .setter x ∉ ticksAt [5700, 6200, 6700, 7200, 7700, 8200, 8700, 9200, 9700] := by
    intro x hx
    obtain ⟨t, -, he⟩ := List.mem_map.mp hx
    cases he
  obtain ⟨m', gs, hcalls', x, hlast, hbytes⟩ := commands_arrive hcalls (by omega) (by decide)
    hno (by omega) htimely
    ⟨⟨9700, 9700, 9700⟩, by simp [ticksAt, beatsOf, beatOf], by dsimp only at hlen ⊢; omega⟩
  exact ⟨m, es, m', gs, hcalls, hcalls', x, hlast, hbytes.trans hcmd⟩

end CdroidDemo.CommandRefresh
