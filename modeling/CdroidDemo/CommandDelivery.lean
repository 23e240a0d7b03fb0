import CdroidDemo.ManagerRuns
import CdroidDemo.UartTransmission

/-!
# Which command reaches the MCU last

Commands are built on every tick that follows a setter call but sent at most
every 100 ms, and `send` drops a command when an equal one is anywhere in the
queue. If another command waits behind the equal one, the dropped command is
lost although it was the last. As long as commands are dropped only when they
repeat the newest one in the queue, the last command is the last to arrive.
-/

namespace CdroidDemo.CommandDelivery

open FramedReceiver PacketMemory BuffData PacketBuffer BufferPool SerialClient ConnMgr
open BufferOwnership McuPackets FifoQueue ManagerRuns UartTransmission SDHWPacketBuffer

/-! ## Runs of ticks and setter calls -/

/-- What happens to a connected manager. -/
inductive Call
  /-- A setter call. -/
  | setter (x : Setter)
  /-- A tick of the manager, with its three clock readings. -/
  | handleEvents (nowTick tickTime sendTime : ℤ)
  /-- The serial client receives bytes. -/
  | onUartData (clock : ℕ → ℤ) (buf : List UInt8)

/-- Perform a call. -/
def call (m : CConnMgr) : Call → Option (CConnMgr × List Event)
  | .setter x => some (x.apply m, [])
  | .handleEvents nowTick tickTime sendTime => handleEvents m nowTick tickTime sendTime
  | .onUartData clock buf => clientData m clock buf

/-- Perform calls in order. -/
def calls (m : CConnMgr) : List Call → Option (CConnMgr × List Event)
  | [] => some (m, [])
  | a :: as => do
    let (m, es) ← call m a
    let (m, gs) ← calls m as
    return (m, es ++ gs)

/-- Bytes 3 to 11 of a frame. -/
def commandBytes (f : List UInt8) : List UInt8 := (f.drop 3).take 9

/-- Bytes 3 to 11 of `mSndData`. -/
def command (d : SndData) : List UInt8 := [d 3, d 4, d 5, d 6, d 7, d 8, d 9, d 10, d 11]

/-- The frame that `send2MCU` built, with its buffer. -/
def built : Event → Option (ℕ × BuffData)
  | .sendResult _ bd b _ => some (bd, b)
  | _ => none

/-- An accepted command comes last. -/
theorem built_concat (es : List Event) (bd : ℕ) (b : BuffData) (r : ℤ) :
    (es ++ [Event.sendResult 0 bd b r]).filterMap built = es.filterMap built ++ [(bd, b)] := by
  rw [List.filterMap_append]
  rfl

/-- The command in a buffer. -/
def carried (x : ℕ × BuffData) : List UInt8 := commandBytes x.2.content

/-- The frame of a command carries it. -/
theorem carried_framed (bd : ℕ) (d : SndData) : carried (bd, framed d) = command d := rfl

/-- When nothing is waiting or pending after a command has been built, the
last frame transmitted carries the current command. -/
def LastCommandWins (es : List Event) (m : CConnMgr) : Prop :=
  m.mUartMCU.mSendQueue = [] → m.mSetData = 0 → es.filterMap built ≠ [] →
    ∃ x, (es.filterMap (transmittedBy 0)).getLast? = some x ∧
      commandBytes x.2 = command m.mSndData

/-- The commands transmitted, followed by those in the queue, are the commands
built, in order, apart from repeats of the one before. -/
def NoneOvertaken (es : List Event) (m : CConnMgr) : Prop :=
  ∃ waiting, List.Forall₂ (fun bd w => ∃ b, m.mPacket.load bd = some b ∧
      commandBytes b.content = w) m.mUartMCU.mSendQueue waiting ∧
    Follows id ((es.filterMap built).map carried)
      ((es.filterMap (transmittedBy 0)).map (fun x => commandBytes x.2) ++ waiting)

/-- Sending the command now loses nothing: if an equal frame is in the queue,
the newest frame of the queue carries the command. -/
def Harmless (m : CConnMgr) : Prop :=
  m.mUartMCU.Queued m.mPacket (framed m.mSndData) →
    ∃ bd b, m.mUartMCU.mSendQueue.getLast? = some bd ∧ m.mPacket.load bd = some b ∧
      commandBytes b.content = command m.mSndData

/-- A call is careful when the command it sends, if any, loses nothing. -/
def Careful (m : CConnMgr) : Call → Prop
  | .handleEvents nowTick tickTime _ =>
    ∀ m₁ es, clientTick m tickTime = some (m₁, es) → Due m₁ nowTick → Harmless m₁
  | _ => True

/-- Every call of a run is careful in the state it is made in. -/
def AllCareful (m : CConnMgr) : List Call → Prop
  | [] => True
  | a :: as => Careful m a ∧ ∀ m' es, call m a = some (m', es) → AllCareful m' as

/-! ## What a run keeps -/

/-- What holds of a manager after a careful run. -/
structure Delivering (es : List Event) (m : CConnMgr) : Prop where
  /-- The manager can send. -/
  ready : Ready m
  /-- The run is one of the client and its pool. -/
  sysRun : Sys.Run (Sys.empty .mcu) es (sys m)
  /-- The board is connected. -/
  isConn : m.mUartMCU.isConn = true
  /-- Every packet built is a frame. -/
  framed : ∀ x ∈ es.filterMap built, ∃ d, x.2 = framed d
  /-- The queue accepted what was built, equal packets left out. -/
  follows : Follows carried (es.filterMap built) (es.filterMap (acceptedBy 0))
  /-- Nothing to send means that the last packet built carries the data. -/
  current : m.mSetData = 0 → ∀ x, (es.filterMap built).getLast? = some x →
    carried x = command m.mSndData

/-- Nothing has been sent at the beginning. -/
theorem delivering_initial : Delivering [] initial :=
  ⟨initial_ready, initial_run, rfl, by simp, Follows.nil, fun _ x hx => by cases hx⟩

/-- An accepted frame has been built. -/
theorem built_of_accepted {e : Event} {x : ℕ × BuffData} (h : acceptedBy 0 e = some x) :
    built e = some x := by
  cases e with
  | sendResult c bd b r =>
    rw [acceptedBy] at h
    split at h
    · exact h
    · cases h
  | transmitted c nowTick bd f => cases h
  | received c e => cases h

/-- Every accepted packet is the frame of a command. -/
theorem framed_of_accepted {es : List Event} {m : CConnMgr} (h : Delivering es m)
    {x : ℕ × BuffData} (hx : x ∈ es.filterMap (acceptedBy 0)) : ∃ d, x.2 = ConnMgr.framed d := by
  obtain ⟨e, he, hex⟩ := List.mem_filterMap.mp hx
  exact h.framed x (List.mem_filterMap.mpr ⟨e, he, built_of_accepted hex⟩)

/-- Setters change the command, not the client. -/
theorem Delivering.setter {es : List Event} {m : CConnMgr} (h : Delivering es m) (x : Setter) :
    Delivering es (x.apply m) := by
  have hs := apply_sys m x
  have hset : (x.apply m).mSetData = m.mSetData + 1 := by cases x <;> rfl
  have hconn : (x.apply m).mUartMCU = m.mUartMCU := by cases x <;> rfl
  refine ⟨h.ready.setter x, by rw [hs]; exact h.sysRun, by rw [hconn]; exact h.isConn, h.framed,
    h.follows, ?_⟩
  intro hz
  omega

/-- Ticks of the client and received bytes build no frame. -/
theorem Delivering.move {es gs : List Event} {m m' : CConnMgr} (h : Delivering es m)
    (hm : Ready m') {op : Op} (ha : (sys m).Allowed op) (hs : (sys m).step op = some (sys m', gs))
    (hg : gs.filterMap built = []) (hconn : m'.mUartMCU.isConn = m.mUartMCU.isConn)
    (hdata : m'.mSndData = m.mSndData) (hset : m'.mSetData = m.mSetData) :
    Delivering (es ++ gs) m' := by
  have hacc : gs.filterMap (acceptedBy 0) = [] :=
    List.filterMap_eq_nil_iff.mpr fun e he => by
      cases hx : acceptedBy 0 e with
      | none => rfl
      | some x =>
        have hb := List.filterMap_eq_nil_iff.mp hg e he
        rw [built_of_accepted hx] at hb
        cases hb
  have hb : (es ++ gs).filterMap built = es.filterMap built := by
    rw [List.filterMap_append, hg, List.append_nil]
  refine ⟨hm, Sys.Run.step op h.sysRun ha hs, hconn.trans h.isConn, ?_, ?_, ?_⟩
  · rw [hb]
    exact h.framed
  · rw [hb, List.filterMap_append, hacc, List.append_nil]
    exact h.follows
  · rw [hb, hset, hdata]
    exact h.current

/-- A tick keeps the account of commands, -/
theorem Delivering.tick {es : List Event} {m : CConnMgr} (h : Delivering es m) (nowTick : ℤ) :
    ∃ m' gs, clientTick m nowTick = some (m', gs) ∧ Delivering (es ++ gs) m' := by
  obtain ⟨p, c, out, htick, ht⟩ := clientTick_ticked h.ready nowTick
  have hst : Sys.Stepped MCU2UI.framing (sys m) (.onTick 0 nowTick)
      (sys {m with mPacket := p, mUartMCU := c}) _ := Sys.Stepped.onTick (sys_client m) ht
  have ha : (sys m).Allowed (.onTick 0 nowTick) := rfl
  refine ⟨_, _, htick, h.move (h.ready.stepped hst) ha (clientTick_step htick) ?_ ?_ rfl rfl⟩
  · cases out with
    | none => rfl
    | some x => rfl
  · cases ht with
    | idle _ => rfl
    | sent _ _ _ _ => rfl

/-- and so does received data. -/
theorem Delivering.data {es : List Event} {m : CConnMgr} (h : Delivering es m) (clock : ℕ → ℤ)
    (buf : List UInt8) :
    ∃ m' gs, clientData m clock buf = some (m', gs) ∧ Delivering (es ++ gs) m' := by
  obtain ⟨p, c, rs, hdata, hf⟩ := clientData_fed h.ready clock buf
  have hst : Sys.Stepped MCU2UI.framing (sys m) (.onUartData 0 clock buf)
      (sys {m with mPacket := p, mUartMCU := c}) _ := Sys.Stepped.onUartData (sys_client m) hf
  have ha : (sys m).Allowed (.onUartData 0 clock buf) := rfl
  refine ⟨_, _, hdata, h.move (h.ready.stepped hst) ha (clientData_step hdata) ?_ ?_ rfl rfl⟩
  · refine List.filterMap_eq_nil_iff.mpr fun e he => ?_
    obtain ⟨x, -, rfl⟩ := List.mem_map.mp he
    rfl
  · obtain ⟨curr, last, s', -, -, -, rfl⟩ := hf.deals
    rfl

/-- The accepted frames that are not transmitted yet are those in the queue. -/
theorem Delivering.account {es : List Event} {m : CConnMgr} (h : Delivering es m) :
    ∃ waiting, Fifo (SentAs .mcu) (es.filterMap (acceptedBy 0)) (es.filterMap (transmittedBy 0))
      waiting ∧ Holds m.mPacket m.mUartMCU.mSendQueue waiting :=
  ((run_accounts (t := .mcu) rfl h.sysRun).account 0 _ (sys_client m)).fifo

/-- The newest frame of the queue is the one accepted last. -/
theorem Delivering.newest {es : List Event} {m : CConnMgr} (h : Delivering es m) {bd : ℕ}
    {b : BuffData} (hq : m.mUartMCU.mSendQueue.getLast? = some bd)
    (hb : m.mPacket.load bd = some b) :
    (es.filterMap (acceptedBy 0)).getLast? = some (bd, b) := by
  obtain ⟨waiting, ⟨sent, hacc, -⟩, hw, hload⟩ := h.account
  have hlast : (waiting.map Prod.fst).getLast? = some bd := by
    rw [hw]
    exact hq
  rw [List.getLast?_map] at hlast
  obtain ⟨x, hx, rfl⟩ := Option.map_eq_some_iff.mp hlast
  have hxb := hload x (List.mem_of_getLast? hx)
  rw [hb] at hxb
  have hsame : b = x.2 := Option.some.inj hxb
  rw [hacc, List.getLast?_append, hx, hsame]
  rfl

/-- A command that loses nothing keeps the invariant: it is accepted or repeats
the newest frame of the queue. -/
theorem Delivering.send {es : List Event} {m : CConnMgr} (h : Delivering es m)
    (hok : Harmless m) (now : ℤ) :
    ∃ m' gs, sendEvents m now = some (m', gs) ∧ Delivering (es ++ gs) m' := by
  obtain ⟨p, bd, p', c', r, hob, hev, hsent, hst⟩ := sendEvents_sent h.ready now
  have hstep := sendEvents_step hev
  have hb := built_concat es bd (ConnMgr.framed m.mSndData) r
  have ha : (sys m).Allowed (.send2MCU 0 m.mSndData) := ⟨rfl, h.ready.mType⟩
  refine ⟨_, _, hev, h.ready.stepped hst, Sys.Run.step _ h.sysRun ha hstep, ?_, ?_, ?_, ?_⟩
  · cases hsent with
    | disconnected hc => exact h.isConn
    | duplicate hc _ => exact hc
    | accepted hc _ => exact hc
  · rw [hb]
    intro x hx
    rcases List.mem_append.mp hx with hold | hnew
    · exact h.framed x hold
    · exact ⟨m.mSndData, by rw [List.mem_singleton.mp hnew]⟩
  · rw [hb, List.filterMap_append]
    cases hsent with
    | disconnected hc =>
      rw [h.isConn] at hc
      cases hc
    | duplicate hc hq =>
      obtain ⟨bd', b', hlast, hload, hbytes⟩ := hok ((queued_obtained h.ready hob _ _).mp hq)
      have hrej : acceptedBy 0 (.sendResult 0 bd (ConnMgr.framed m.mSndData) 1) = none := rfl
      rw [List.filterMap_cons_none hrej, List.filterMap_nil, List.append_nil]
      exact h.follows.drop (h.newest hlast hload) hbytes
    | accepted hc _ =>
      have hacc : acceptedBy 0 (.sendResult 0 bd (ConnMgr.framed m.mSndData) 0) =
          some (bd, ConnMgr.framed m.mSndData) := rfl
      rw [List.filterMap_cons_some hacc, List.filterMap_nil]
      exact h.follows.accept _
  · rw [hb]
    intro _ x hx
    rw [List.getLast?_concat] at hx
    cases hx
    exact carried_framed bd m.mSndData

/-- A careful tick of the manager keeps the invariant. -/
theorem Delivering.handleEvents {es : List Event} {m : CConnMgr} (h : Delivering es m)
    {nowTick tickTime sendTime : ℤ}
    (hok : Careful m (.handleEvents nowTick tickTime sendTime)) :
    ∃ m' gs, ManagerRuns.handleEvents m nowTick tickTime sendTime = some (m', gs) ∧
      Delivering (es ++ gs) m' := by
  obtain ⟨m₁, es₁, htick, h₁⟩ := h.tick tickTime
  unfold ManagerRuns.handleEvents
  rw [htick, Option.bind_eq_bind, Option.bind_some]
  by_cases hdue : Due m₁ nowTick
  · obtain ⟨m₂, es₂, hsend, h₂⟩ := h₁.send (hok m₁ es₁ htick hdue) sendTime
    refine ⟨m₂, es₁ ++ es₂, ?_, by rw [← List.append_assoc]; exact h₂⟩
    simp only [if_pos hdue, hsend, Option.bind_some, Option.pure_def]
  · exact ⟨m₁, es₁, if_neg hdue, h₁⟩

/-- Careful calls succeed and keep the invariant. -/
theorem Delivering.calls {es : List Event} {m : CConnMgr} (h : Delivering es m) {as : List Call}
    (hok : AllCareful m as) :
    ∃ m' gs, CommandDelivery.calls m as = some (m', gs) ∧ Delivering (es ++ gs) m' := by
  induction as generalizing es m with
  | nil => exact ⟨m, [], rfl, by rwa [List.append_nil]⟩
  | cons a as ih =>
    have hone : ∃ m₁ es₁, call m a = some (m₁, es₁) ∧ Delivering (es ++ es₁) m₁ := by
      cases a with
      | setter x => exact ⟨_, [], rfl, by rw [List.append_nil]; exact h.setter x⟩
      | handleEvents nowTick tickTime sendTime => exact h.handleEvents hok.1
      | onUartData clock buf => exact h.data clock buf
    obtain ⟨m₁, es₁, hcall, h₁⟩ := hone
    obtain ⟨m₂, es₂, hcalls, h₂⟩ := ih h₁ (hok.2 m₁ es₁ hcall)
    refine ⟨m₂, es₁ ++ es₂, ?_, by rw [← List.append_assoc]; exact h₂⟩
    simp only [CommandDelivery.calls, hcall, hcalls, Option.bind_eq_bind, Option.bind_some,
      Option.pure_def]

/-! ## The last command -/

/-- A built frame goes out as it is. -/
theorem sentAs_framed {d : SndData} {x : ℕ × BuffData} {y : ℕ × List UInt8}
    (hx : x.2 = ConnMgr.framed d) (h : SentAs .mcu x y) : commandBytes y.2 = carried x := by
  obtain ⟨-, b, hcode, hy⟩ := h
  rw [hx, checkCode_framed] at hcode
  cases hcode
  rw [hy, carried, hx]

/-- Frames go out with the commands they were built with. -/
theorem commands_transmitted {sent : List (ℕ × BuffData)} {frames : List (ℕ × List UInt8)}
    (hf : List.Forall₂ (SentAs .mcu) sent frames)
    (hmem : ∀ x ∈ sent, ∃ d, x.2 = ConnMgr.framed d) :
    frames.map (fun y => commandBytes y.2) = sent.map carried := by
  induction hf with
  | nil => rfl
  | cons hr _ ih =>
    obtain ⟨d, hd⟩ := hmem _ List.mem_cons_self
    rw [List.map_cons, List.map_cons, sentAs_framed hd hr,
      ih fun x hx => hmem x (List.mem_cons_of_mem _ hx)]

/-- Under the invariant the last command wins. -/
theorem Delivering.wins {es : List Event} {m : CConnMgr} (h : Delivering es m) :
    LastCommandWins es m := by
  intro hq hset hne
  obtain ⟨waiting, hfifo, hw, -⟩ := h.account
  have hnil : waiting = [] := by
    rw [hq] at hw
    exact List.map_eq_nil_iff.mp hw
  rw [hnil] at hfifo
  have hlast := h.follows.last
  obtain ⟨x, hx⟩ := List.getLast?_isSome.mpr hne |> Option.isSome_iff_exists.mp
  rw [hx, Option.map_some] at hlast
  obtain ⟨y, hy, hkey⟩ := Option.map_eq_some_iff.mp hlast.symm
  obtain ⟨z, hz, hsent⟩ := hfifo.last hy
  obtain ⟨d, hd⟩ := framed_of_accepted h (List.mem_of_getLast? hy)
  refine ⟨z, hz, ?_⟩
  rw [sentAs_framed hd hsent, hkey]
  exact h.current hset x hx

/-- Under the invariant no command is overtaken. -/
theorem Delivering.noneOvertaken {es : List Event} {m : CConnMgr} (h : Delivering es m) :
    NoneOvertaken es m := by
  obtain ⟨waiting, ⟨sent, hacc, hf⟩, hw, hload⟩ := h.account
  refine ⟨waiting.map carried, ?_, ?_⟩
  · rw [← hw, List.forall₂_map_left_iff, List.forall₂_map_right_iff, List.forall₂_same]
    intro x hx
    exact ⟨x.2, hload x hx, rfl⟩
  · have hsame : (es.filterMap (transmittedBy 0)).map (fun y => commandBytes y.2) =
        sent.map carried :=
      commands_transmitted hf fun x hx =>
        framed_of_accepted h (by rw [hacc]; exact List.mem_append_left _ hx)
    rw [hsame, ← List.map_append, ← hacc]
    exact h.follows.map

/-- A command that is dropped although another one waits behind its equal is
overtaken. -/
theorem Delivering.overtaken {es : List Event} {m : CConnMgr} (h : Delivering es m)
    (hbad : ¬Harmless m) (now : ℤ) :
    ∃ m' gs, sendEvents m now = some (m', gs) ∧ ¬NoneOvertaken (es ++ gs) m' := by
  obtain ⟨hq, hnewest⟩ := Classical.not_imp.mp hbad
  obtain ⟨p, bd, p', c', r, hob, hev, hsent, -⟩ := sendEvents_sent h.ready now
  refine ⟨_, _, hev, ?_⟩
  intro ⟨waiting, hw, hfollows⟩
  have hc' : c' = m.mUartMCU := by
    cases hsent with
    | disconnected _ => rfl
    | duplicate _ _ => rfl
    | accepted _ hn => exact absurd ((queued_obtained h.ready hob _ _).mpr hq) hn
  rw [hc'] at hw
  obtain ⟨it, hit, -⟩ := hq
  obtain ⟨newest, hnew⟩ := Option.isSome_iff_exists.mp
    (List.getLast?_isSome.mpr (List.ne_nil_of_mem hit))
  obtain ⟨w, hlast, b, hb, hbytes⟩ := forall₂_getLast? hw hnew
  have hload : p'.load newest = m.mPacket.load newest := by
    obtain ⟨hne, hsame⟩ := load_queued h.ready hob (ConnMgr.framed m.mSndData)
      (List.mem_of_getLast? hnew)
    have hlt : bd < (p.written bd (ConnMgr.framed m.mSndData)).heap.length := by
      rw [written_heap_length]
      exact lt_of_load (hob.load h.ready.inv.pooled)
    exact (hsent.load hlt hne).trans hsame
  have hkey := hfollows.last
  rw [built_concat, List.map_append, List.map_singleton, List.getLast?_concat,
    List.getLast?_append, hlast] at hkey
  have hw : command m.mSndData = w := Option.some.inj hkey
  exact hnewest ⟨newest, b, hnew, hload.symm.trans hb, hbytes.trans hw.symm⟩

/-- In every run whose sends lose nothing, the last command wins: once nothing
is waiting or pending, the last frame transmitted carries the current command,
and no command is overtaken by an earlier one. -/
theorem last_command_wins {as : List Call} (hok : AllCareful initial as) :
    ∃ m es, calls initial as = some (m, es) ∧ LastCommandWins es m ∧ NoneOvertaken es m := by
  obtain ⟨m, es, hcalls, h⟩ := delivering_initial.calls hok
  exact ⟨m, es, hcalls, h.wins, h.noneOvertaken⟩

/-- Hot water is switched on and the command goes out at the next tick. -/
theorem last_command_wins_hotWater :
    ∃ m es, calls initial [.setter (.setWaterAction .hotWater), .handleEvents 5000 5000 5000,
        .handleEvents 5100 5100 5100] = some (m, es) ∧ LastCommandWins es m ∧
      NoneOvertaken es m := by
  refine last_command_wins ⟨trivial, ?_⟩
  intro m es h
  cases h
  refine ⟨?_, ?_⟩
  · intro m es h _ hq
    cases h
    obtain ⟨it, hit, -⟩ := hq
    cases hit
  · intro m es h
    cases h
    refine ⟨?_, fun _ _ _ => trivial⟩
    intro m es h hdue
    cases h
    exact absurd hdue (by decide)

/-- Ticks of the manager every 50 ms. -/
def ticks : List ℤ → List Call := List.map fun t => .handleEvents t t t

/-- Hot water is switched on and off twice within 150 ms. -/
def switchedTwice : List Call :=
  ticks [5000] ++ [.setter (.setWaterAction .hotWater)] ++ ticks [5050] ++
    [.setter (.setWaterAction .null)] ++ ticks [5100] ++
    [.setter (.setWaterAction .hotWater)] ++ ticks [5150] ++
    [.setter (.setWaterAction .null)] ++ ticks [5200, 5250, 5300, 5350]

/-- The second command to stop is dropped because the first one still waits in
the queue, and the last frame transmitted switches hot water on. -/
theorem second_stop_lost :
    ∃ m es, calls initial switchedTwice = some (m, es) ∧ ¬LastCommandWins es m := by
  have h : (calls initial switchedTwice).any (fun x =>
      decide (x.1.mUartMCU.mSendQueue = [] ∧ x.1.mSetData = 0 ∧
        command x.1.mSndData = [0, 0, 0, 0, 0, 0, 0, 0, 0] ∧
        (x.2.filterMap (transmittedBy 0)).getLast?.map (fun y => commandBytes y.2) =
          some [1, 0, 0, 0, 0, 0, 0, 0, 0] ∧ (x.2.filterMap built).length ≠ 0)) = true := by
    decide +kernel
  obtain ⟨⟨m, es⟩, hcalls, hx⟩ := (Option.any_eq_true _ _).mp h
  obtain ⟨hq, hset, hstop, hhot, hbuilt⟩ := of_decide_eq_true hx
  refine ⟨m, es, hcalls, fun hwins => ?_⟩
  obtain ⟨x, hlast, hcommand⟩ := hwins hq hset fun hnil => hbuilt (by rw [hnil]; rfl)
  rw [hlast, Option.map_some, hcommand, hstop] at hhot
  exact absurd hhot (by decide)

end CdroidDemo.CommandDelivery
