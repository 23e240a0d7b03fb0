import CdroidDemo.BufferOwnership

/-!
# Runs of the connection manager

The calls that reach the manager: setters, commands sent at once, ticks and
received bytes. Each of them is a move of the system that consists of the
manager's packet buffer and its one client, so the ownership of buffers and
the success of every call carry over.
-/

namespace CdroidDemo.ManagerRuns

open FramedReceiver PacketMemory BuffData PacketBuffer BufferPool SerialClient ConnMgr
open UartReceiver BufferOwnership McuPackets SDHWPacketBuffer

/-- The manager that the constructor and a successful `init` leave. -/
def initial : CConnMgr where
  mPacket := ⟨.mcu, [allocate .mcu, allocate .mcu], []⟩
  mUartMCU := {UartClient.created 0 1 with isConn := true}
  mSndData := fun _ => 0
  mSetData := 0
  mLastSendTime := 0

/-- The initial client is the one that is constructed on an empty pool. -/
example : UartClient.create ⟨.mcu, [], []⟩ = some (initial.mPacket, UartClient.created 0 1) := rfl

/-- `mUartMCU->onTick()`. -/
def clientTick (m : CConnMgr) (nowTick : ℤ) : Option (CConnMgr × List Event) := do
  let (p, c, out) ← UartClient.onTick m.mPacket m.mUartMCU nowTick
  return ({m with mPacket := p, mUartMCU := c},
    (out.map fun x => Event.transmitted 0 nowTick x.1 x.2).toList)

/-- `mUartMCU->onUartData()`. -/
def clientData (m : CConnMgr) (clock : ℕ → ℤ) (buf : List UInt8) :
    Option (CConnMgr × List Event) := do
  let (p, c, _, es) ← UartClient.onUartData m.mPacket m.mUartMCU clock buf
  return ({m with mPacket := p, mUartMCU := c}, es.map (Event.received 0))

/-- `send2MCU` with what is seen of it. -/
def sendEvents (m : CConnMgr) (now : ℤ) : Option (CConnMgr × List Event) := do
  let (m, bd, snd, r) ← m.send2MCU now
  return (m, [.sendResult 0 bd snd r])

/-- The condition of `handleEvents` for sending a command. -/
def Due (m : CConnMgr) (nowTick : ℤ) : Prop := 0 < m.mSetData ∨ 1000 ≤ nowTick - m.mLastSendTime

instance (m : CConnMgr) (nowTick : ℤ) : Decidable (Due m nowTick) :=
  inferInstanceAs (Decidable (_ ∨ _))

/-- `CConnMgr::handleEvents`; the clock is read by itself, by the client and
by `send2MCU`. -/
def handleEvents (m : CConnMgr) (nowTick tickTime sendTime : ℤ) :
    Option (CConnMgr × List Event) := do
  let (m, es) ← clientTick m tickTime
  if Due m nowTick then
    let (m, gs) ← sendEvents m sendTime
    return (m, es ++ gs)
  else return (m, es)

/-- A call that works on the manager. -/
inductive Act
  /-- A setter call. -/
  | setter (x : Setter)
  /-- `send2MCU` at a clock reading. -/
  | send2MCU (now : ℤ)
  /-- A tick of the serial client. -/
  | onTick (nowTick : ℤ)
  /-- The serial client receives bytes. -/
  | onUartData (clock : ℕ → ℤ) (buf : List UInt8)
  /-- The serial port opens or closes. -/
  | status (isConn : Bool)

/-- Perform a call. -/
def act (m : CConnMgr) : Act → Option (CConnMgr × List Event)
  | .setter x => some (x.apply m, [])
  | .send2MCU now => sendEvents m now
  | .onTick nowTick => clientTick m nowTick
  | .onUartData clock buf => clientData m clock buf
  | .status isConn => some ({m with mUartMCU := {m.mUartMCU with isConn := isConn}}, [])

/-- Perform calls in order. -/
def run (m : CConnMgr) : List Act → Option (CConnMgr × List Event)
  | [] => some (m, [])
  | a :: acts => do
    let (m, es) ← act m a
    let (m, gs) ← run m acts
    return (m, es ++ gs)

/-! ## The system of the manager -/

/-- The packet buffer of the manager with its one client. -/
def sys (m : CConnMgr) : Sys := ⟨m.mPacket, [some m.mUartMCU], []⟩

/-- The buffers of the manager are in order. -/
structure Ready (m : CConnMgr) : Prop where
  /-- The pool holds packets for the board. -/
  mType : m.mPacket.mType = .mcu
  /-- The buffers are in order. -/
  inv : Sys.Inv MCU2UI.framing (sys m)

/-- The only client of the board side is the one of the manager. -/
theorem sys_client (m : CConnMgr) : (sys m).client 0 = some m.mUartMCU := rfl

/-- The initial manager is reached by construction and the opening of the port. -/
theorem initial_run : Sys.Run (Sys.empty .mcu) [] (sys initial) := by
  have h : Sys.Run (Sys.empty .mcu) []
      ⟨initial.mPacket, [some (UartClient.created 0 1)], []⟩ :=
    Sys.Run.step .construct Sys.Run.start trivial rfl
  exact Sys.Run.step (.status 0 true) h rfl rfl

/-- The manager is ready when the program starts. -/
theorem initial_ready : Ready initial :=
  ⟨rfl, initial_run.inv (Sys.empty_inv rfl)⟩

/-- Setters touch neither the packet buffer nor the client. -/
theorem apply_sys (m : CConnMgr) (x : Setter) : sys (x.apply m) = sys m := by
  cases x <;> rfl

/-- No setter touches what readiness speaks of. -/
theorem Ready.setter {m : CConnMgr} (h : Ready m) (x : Setter) : Ready (x.apply m) := by
  have hs := apply_sys m x
  refine ⟨?_, by rw [hs]; exact h.inv⟩
  have hp := congrArg (fun s => s.pool.mType) hs
  exact hp.trans h.mType

/-- Every move of the system keeps the manager's buffers in order. -/
theorem Ready.stepped {m m' : CConnMgr} (h : Ready m) {op : Op} {es : List Event}
    (hs : Sys.Stepped MCU2UI.framing (sys m) op (sys m') es) : Ready m' :=
  ⟨hs.mType.trans h.mType, hs.inv h.inv⟩

/-- `send2MCU` always succeeds; it sends the frame of the current command. -/
theorem send2MCU_sent {m : CConnMgr} (h : Ready m) (now : ℤ) :
    ∃ p bd p' c' r, Obtained m.mPacket p bd ∧
      m.send2MCU now = some (⟨p', c', Function.update m.mSndData 12 0, 0, now⟩, bd,
        framed m.mSndData, r) ∧
      UartClient.Sent (p.written bd (framed m.mSndData)) m.mUartMCU bd (framed m.mSndData) p' c' r ∧
      Sys.Stepped MCU2UI.framing (sys m) (.send2MCU 0 m.mSndData) ⟨p', [some c'], []⟩
        [.sendResult 0 bd (framed m.mSndData) r] := by
  obtain ⟨p, bd, p', c', r, hob, hcmd, hsent, hst⟩ :=
    Sys.sendCommand_sent h.inv (sys_client m) h.mType m.mSndData
  have hcmd' : sendCommand m.mPacket m.mUartMCU m.mSndData =
      some (p', c', bd, framed m.mSndData, r) := hcmd
  refine ⟨p, bd, p', c', r, hob, ?_, hsent, hst⟩
  simp only [CConnMgr.send2MCU, hcmd', Option.bind_eq_bind, Option.bind_some, Option.pure_def]

/-- `send2MCU` is seen as one attempt to send the frame of the current command. -/
theorem sendEvents_sent {m : CConnMgr} (h : Ready m) (now : ℤ) :
    ∃ p bd p' c' r, Obtained m.mPacket p bd ∧
      sendEvents m now = some (⟨p', c', Function.update m.mSndData 12 0, 0, now⟩,
        [.sendResult 0 bd (framed m.mSndData) r]) ∧
      UartClient.Sent (p.written bd (framed m.mSndData)) m.mUartMCU bd (framed m.mSndData) p' c' r ∧
      Sys.Stepped MCU2UI.framing (sys m) (.send2MCU 0 m.mSndData) ⟨p', [some c'], []⟩
        [.sendResult 0 bd (framed m.mSndData) r] := by
  obtain ⟨p, bd, p', c', r, hob, hsend, hsent, hst⟩ := send2MCU_sent h now
  refine ⟨p, bd, p', c', r, hob, ?_, hsent, hst⟩
  simp only [sendEvents, hsend, Option.bind_eq_bind, Option.bind_some, Option.pure_def]

/-- The buffer obtained for a command is not one of the queue. -/
theorem load_queued {m : CConnMgr} (h : Ready m) {p : SDHWPacketBuffer} {bd : ℕ}
    (hob : Obtained m.mPacket p bd) (b : BuffData) {it : ℕ} (hit : it ∈ m.mUartMCU.mSendQueue) :
    it ≠ bd ∧ (p.written bd b).load it = m.mPacket.load it := by
  have hown : it ∈ m.mUartMCU.owned := List.mem_cons_of_mem _ (List.mem_cons_of_mem _ hit)
  have hlt := h.inv.lt_owned (sys_client m) hown
  have hne : it ≠ bd := (h.inv.obtained hob).ne_held (c := 0) rfl hown List.mem_cons_self
  refine ⟨hne, ?_⟩
  rw [load_written (lt_of_load (hob.load h.inv.pooled)), if_neg hne]
  exact hob.load_old hlt

/-- The buffer obtained for a command hides no queued packet. -/
theorem queued_obtained {m : CConnMgr} (h : Ready m) {p : SDHWPacketBuffer} {bd : ℕ}
    (hob : Obtained m.mPacket p bd) (b' b : BuffData) :
    m.mUartMCU.Queued (p.written bd b') b ↔ m.mUartMCU.Queued m.mPacket b := by
  have hload : ∀ it ∈ m.mUartMCU.mSendQueue, (p.written bd b').load it = m.mPacket.load it :=
    fun it hit => (load_queued h hob b' hit).2
  unfold UartClient.Queued
  rw [written_mType, hob.mType]
  constructor
  · intro ⟨it, hit, dst, hd, hcmp⟩
    exact ⟨it, hit, dst, (hload it hit).symm.trans hd, hcmp⟩
  · intro ⟨it, hit, dst, hd, hcmp⟩
    exact ⟨it, hit, dst, (hload it hit).trans hd, hcmp⟩

/-- A tick of the client always succeeds. -/
theorem clientTick_ticked {m : CConnMgr} (h : Ready m) (nowTick : ℤ) :
    ∃ p c out, clientTick m nowTick = some ({m with mPacket := p, mUartMCU := c},
        (out.map fun x => Event.transmitted 0 nowTick x.1 x.2).toList) ∧
      UartClient.Ticked m.mPacket m.mUartMCU nowTick p c out := by
  obtain ⟨p, c, out, ht, hticked⟩ := UartClient.onTick_ticked h.inv.pooled
    (h.inv.clients 0 _ (sys_client m)) nowTick
  have ht' : UartClient.onTick m.mPacket m.mUartMCU nowTick = some (p, c, out) := ht
  refine ⟨p, c, out, ?_, hticked⟩
  simp only [clientTick, ht', Option.bind_eq_bind, Option.bind_some, Option.pure_def]

/-- Receiving always succeeds. -/
theorem clientData_fed {m : CConnMgr} (h : Ready m) (clock : ℕ → ℤ) (buf : List UInt8) :
    ∃ p c es, clientData m clock buf = some ({m with mPacket := p, mUartMCU := c},
        es.map (Event.received 0)) ∧
      UartClient.Fed m.mPacket MCU2UI.framing m.mUartMCU clock p c es := by
  obtain ⟨p, c, offset, es, hdata, hf⟩ := h.inv.receives (sys_client m) clock buf
  have hdata' : UartClient.onUartData m.mPacket m.mUartMCU clock buf = some (p, c, offset, es) :=
    hdata
  refine ⟨p, c, es, ?_, hf⟩
  simp only [clientData, hdata', Option.bind_eq_bind, Option.bind_some, Option.pure_def]

/-- A tick of the client is a move of the system. -/
theorem clientTick_step {m m' : CConnMgr} {nowTick : ℤ} {es : List Event}
    (h : clientTick m nowTick = some (m', es)) :
    (sys m).step (.onTick 0 nowTick) = some (sys m', es) := by
  obtain ⟨⟨p, c, out⟩, ho, h⟩ := Option.bind_eq_some_iff.mp h
  cases h
  have ho' : UartClient.onTick (sys m).pool m.mUartMCU nowTick = some (p, c, out) := ho
  simp only [Sys.step, sys_client, ho', Option.bind_eq_bind, Option.bind_some]
  rfl

/-- Receiving is a move of the system. -/
theorem clientData_step {m m' : CConnMgr} {clock : ℕ → ℤ} {buf : List UInt8} {es : List Event}
    (h : clientData m clock buf = some (m', es)) :
    (sys m).step (.onUartData 0 clock buf) = some (sys m', es) := by
  obtain ⟨⟨p, c, offset, rs⟩, ho, h⟩ := Option.bind_eq_some_iff.mp h
  cases h
  have ho' : UartClient.onUartData (sys m).pool m.mUartMCU clock buf = some (p, c, offset, rs) :=
    ho
  simp only [Sys.step, sys_client, ho', Option.bind_eq_bind, Option.bind_some]
  rfl

/-- Sending a command is a move of the system. -/
theorem sendEvents_step {m m' : CConnMgr} {now : ℤ} {es : List Event}
    (h : sendEvents m now = some (m', es)) :
    (sys m).step (.send2MCU 0 m.mSndData) = some (sys m', es) := by
  obtain ⟨⟨m₁, bd, b, r⟩, ho, h⟩ := Option.bind_eq_some_iff.mp h
  cases h
  obtain ⟨⟨p, c, bd', b', r'⟩, hc, ho⟩ := Option.bind_eq_some_iff.mp ho
  cases ho
  have hc' : sendCommand (sys m).pool m.mUartMCU m.mSndData = some (p, c, bd, b, r) := hc
  simp only [Sys.step, sys_client, hc', Option.bind_eq_bind, Option.bind_some]
  rfl

/-- The command after a call. -/
def commandAfter (m : CConnMgr) : Act → SndData
  | .setter x => (x.apply m).mSndData
  | .send2MCU _ => Function.update m.mSndData 12 0
  | _ => m.mSndData

/-- Every call succeeds and keeps the buffers in order. -/
theorem act_ready {m : CConnMgr} (h : Ready m) (a : Act) :
    ∃ m' es, act m a = some (m', es) ∧ Ready m' ∧ m'.mSndData = commandAfter m a := by
  cases a with
  | setter x => exact ⟨_, _, rfl, h.setter x, rfl⟩
  | send2MCU now =>
    obtain ⟨p, bd, p', c', r, -, hsend, -, hst⟩ := sendEvents_sent h now
    exact ⟨_, _, hsend, h.stepped hst, rfl⟩
  | onTick nowTick =>
    obtain ⟨p, c, out, htick, ht⟩ := clientTick_ticked h nowTick
    exact ⟨_, _, htick, h.stepped (Sys.Stepped.onTick (sys_client m) ht), rfl⟩
  | onUartData clock buf =>
    obtain ⟨p, c, es, hdata, hf⟩ := clientData_fed h clock buf
    have hst : Sys.Stepped MCU2UI.framing (sys m) (.onUartData 0 clock buf) ⟨p, [some c], []⟩ _ :=
      Sys.Stepped.onUartData (sys_client m) hf
    have hready : Ready {m with mPacket := p, mUartMCU := c} := h.stepped hst
    exact ⟨_, _, hdata, hready, rfl⟩
  | status isConn =>
    exact ⟨_, _, rfl, h.stepped (Sys.Stepped.status (sys_client m) isConn), rfl⟩

end CdroidDemo.ManagerRuns
