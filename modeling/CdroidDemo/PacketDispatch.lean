import CdroidDemo.HandlerRegistry
import CdroidDemo.ReceiverRecovery
import CdroidDemo.StatusWatch

/-!
# From the serial line to the handlers

A packet that the client lets through goes to the callback of the product
test when one is set, and otherwise to the handlers of its type, the
connection manager among them. Product tests begin and end, handlers come and
go and the clocks tick between the reads.
-/

namespace CdroidDemo.PacketDispatch

open FramedReceiver PacketMemory PacketBuffer McuPackets UartReceiver ReceiverFraming
open HandlerRegistry StatusWatch StepRuns ReceiverRecovery

variable {H : Type} [DecidableEq H]

/-! ## The code -/

/-- `BT_MCU`, what `MCU2UI::getType` returns. -/
def btMCU : ℤ := 1

/-- The receiving client, the registry and the connection manager `conn`. -/
structure Station (H : Type) where
  /-- `mUartMCU`. -/
  uart : Receiver
  /-- `g_objHandler`. -/
  objHandler : CHandlerManager H
  /-- The fields of `conn` that status packets go by. -/
  watch : Watch

/-- What is called for a packet. -/
inductive Reaction (H : Type)
  /-- `canlePop` of the product test. -/
  | canlePop (ack : List UInt8)
  /-- `onRecv` of another handler. -/
  | onRecv (hd : H) (ack : List UInt8)
  /-- `onCommDeal` of the connection manager, with the looks it takes. -/
  | onCommDeal (now : ℤ) (ack : List UInt8) (samples : List Sample)
  deriving DecidableEq

/-- The lambda that `setProductTest` registers, run on a packet. -/
def productCallback (ack : List UInt8) : List (Reaction H) :=
  if getData ack 12 &&& 0x10 ≠ 0 ∧ getData ack 2 = 0xcc then [.canlePop ack] else []

/-- `hd->onRecv(ack)`; the connection manager has no callbacks of its own, so
`IHandler::onRecv` calls its `onCommDeal`. -/
def onRecv (conn : H) (now : ℤ) (ack : List UInt8) (w : Watch) (hd : H) :
    Watch × List (Reaction H) :=
  if hd = conn then
    let r := StatusWatch.onCommDeal w now ack
    (r.1, [.onCommDeal now ack r.2])
  else (w, [.onRecv hd ack])

/-- `g_objHandler->onCommand(ack)`. -/
def onCommand (conn : H) (s : Station H) (now : ℤ) (ack : List UInt8) :
    Station H × List (Reaction H) :=
  let r := s.objHandler.onCommand now btMCU
  let q := outputs (onRecv conn now ack) s.watch r.2
  ({s with objHandler := r.1, watch := q.1}, q.2)

/-- What becomes of a packet that was received. -/
def handOn (conn : H) (s : Station H) (now : ℤ) : RecvEvent → Station H × List (Reaction H)
  | .dispatched ack toCallback _ =>
    if toCallback then (s, productCallback ack) else onCommand conn s now ack
  | _ => (s, [])

/-- Hand on the packets of a read; `clock n` is read for packet `n`. -/
def handOnAll (conn : H) (clock : ℕ → ℤ) : ℕ → Station H → List RecvEvent →
    Station H × List (Reaction H)
  | _, s, [] => (s, [])
  | n, s, e :: es =>
    let r := handOn conn s (clock n) e
    let q := handOnAll conn clock (n + 1) r.1 es
    (q.1, r.2 ++ q.2)

/-- What happens at the station. -/
inductive Op (H : Type)
  /-- The line delivers bytes; the clocks of the repeat check and of the handlers. -/
  | onUartData (repeats clock : ℕ → ℤ) (buf : List UInt8)
  /-- `setProductTest`, with or without a callback. -/
  | setProductTest (canlePop : Bool)
  /-- A handler is added for a command. -/
  | addHandler (cmd : ℤ) (hd : H)
  /-- A handler is removed. -/
  | removeHandler (hd : H)
  /-- `g_objHandler->onTick()`. -/
  | onTick (now : ℤ)

/-- `setProductTest`. -/
def setProductTest (s : Station H) (canlePop : Bool) : Station H :=
  {s with uart := {s.uart with mCallbackFunc := canlePop},
          watch := {s.watch with mIsFactory := canlePop}}

/-- One happening. -/
def step (conn : H) (s : Station H) : Op H → Option (Station H × List (Reaction H))
  | .onUartData repeats clock buf => do
    let (uart, _, es) ← UartReceiver.onUartData .mcu repeats s.uart buf
    return handOnAll conn clock s.uart.mRecvCount {s with uart := uart} es
  | .setProductTest canlePop => some (setProductTest s canlePop, [])
  | .addHandler cmd hd => some ({s with objHandler := (s.objHandler.addHandler cmd hd).1}, [])
  | .removeHandler hd => some ({s with objHandler := s.objHandler.removeHandler hd}, [])
  | .onTick now => some ({s with objHandler := s.objHandler.onTick now}, [])

/-- Happenings in order. -/
def run (conn : H) (s : Station H) : List (Op H) → Option (Station H × List (Reaction H))
  | [] => some (s, [])
  | op :: ops => do
    let (s, out) ← step conn s op
    let (s, out') ← run conn s ops
    return (s, out ++ out')

/-- The station behind the constructors, at the clock readings `t₀` of the
registry and `t₁` of `CConnMgr::init`. -/
def initial (conn : H) (t₀ t₁ : ℤ) : Station H :=
  ⟨newReceiver .mcu, ((CHandlerManager.new t₀).addHandler btMCU conn).1, ⟨false, t₁, 0⟩⟩

/-! ## What is seen of a run -/

/-- The bytes that the line delivers. -/
def stream : List (Op H) → List (List UInt8)
  | [] => []
  | .onUartData _ _ buf :: ops => buf :: stream ops
  | _ :: ops => stream ops

/-- The packets that the connection manager deals with. -/
def dealt : Reaction H → Option StatusWatch.Packet
  | .onCommDeal now ack _ => some (now, ack)
  | _ => none

/-- The packets that the product test pops at. -/
def popped : Reaction H → Option (List UInt8)
  | .canlePop ack => some ack
  | _ => none

/-- The looks at warnings. -/
def looks : Reaction H → List Sample
  | .onCommDeal _ _ samples => samples
  | _ => []

/-- A packet handed on: when, its bytes and whether a product test was on. -/
structure Handed where
  /-- When it was handed on. -/
  now : ℤ
  /-- Its bytes. -/
  ack : List UInt8
  /-- Whether a product test was on. -/
  product : Bool
  deriving DecidableEq

/-- The packets of a read that are handed on. -/
def handed (clock : ℕ → ℤ) : ℕ → List RecvEvent → List Handed
  | _, [] => []
  | n, .dispatched ack toCallback _ :: es => ⟨clock n, ack, toCallback⟩ :: handed clock (n + 1) es
  | n, _ :: es => handed clock (n + 1) es

/-- What the connection manager gets. -/
def Handed.toManager (x : Handed) : Option StatusWatch.Packet :=
  if x.product then none else some (x.now, x.ack)

/-- What the product test pops at. -/
def Handed.toProduct (x : Handed) : Option (List UInt8) :=
  if x.product = true ∧ getData x.ack 12 &&& 0x10 ≠ 0 ∧ getData x.ack 2 = 0xcc then some x.ack
  else none

/-- Whether a product test is on behind a happening. -/
def modeAfter (m : Bool) : Op H → Bool
  | .setProductTest canlePop => canlePop
  | _ => m

/-- Whether a product test is on before each happening. -/
def modesBefore : Bool → List (Op H) → List Bool
  | _, [] => []
  | m, op :: ops => m :: modesBefore (modeAfter m op) ops

/-! ## One packet -/

/-- The manager's fields, its product test aside. -/
def off (w : Watch) : Watch := {w with mIsFactory := false}

/-- In product mode the watch is off the factory test as it stands. -/
theorem off_eq {w : Watch} (h : w.mIsFactory = false) : off w = w := by
  cases w
  cases h
  rfl

/-- How the reactions to some packets follow from these packets. -/
structure Seen (w : Watch) (xs : List Handed) (w' : Watch) (out : List (Reaction H)) : Prop where
  /-- The mode stays. -/
  factory : w'.mIsFactory = w.mIsFactory
  /-- The manager dealt with its packets. -/
  dealt : out.filterMap dealt = xs.filterMap Handed.toManager
  /-- The product test was shown its packets. -/
  popped : out.filterMap popped = xs.filterMap Handed.toProduct
  /-- The looks are those of the watch at the manager's packets. -/
  looks : StatusWatch.watch (off w) (xs.filterMap Handed.toManager) = (off w', out.flatMap looks)

omit [DecidableEq H] in

/-- Nothing handed over leaves the watch as it is. -/
theorem seen_nil (w : Watch) : Seen w [] w ([] : List (Reaction H)) := ⟨rfl, rfl, rfl, rfl⟩

omit [DecidableEq H] in

/-- Two stretches of packets are seen one after the other. -/
theorem Seen.append {w w₁ w₂ : Watch} {xs ys : List Handed} {out out' : List (Reaction H)}
    (h : Seen w xs w₁ out) (h' : Seen w₁ ys w₂ out') : Seen w (xs ++ ys) w₂ (out ++ out') := by
  refine ⟨h'.factory.trans h.factory, ?_, ?_, ?_⟩
  · rw [List.filterMap_append, List.filterMap_append, h.dealt, h'.dealt]
  · rw [List.filterMap_append, List.filterMap_append, h.popped, h'.popped]
  · have hw := h.looks
    have hw' := h'.looks
    unfold StatusWatch.watch at hw hw' ⊢
    rw [List.filterMap_append, outputs_append, hw, hw', List.flatMap_append]

/-- Handlers other than the manager leave its fields alone. -/
theorem outputs_onRecv_others {conn : H} {hds : List H} (h : conn ∉ hds) (now : ℤ)
    (ack : List UInt8) (w : Watch) :
    outputs (onRecv conn now ack) w hds = (w, hds.map fun hd => .onRecv hd ack) := by
  induction hds with
  | nil => rfl
  | cons hd hds ih =>
    have hne : hd ≠ conn := fun he => h (he ▸ List.mem_cons_self)
    rw [outputs, onRecv, if_neg hne]
    dsimp only
    rw [ih fun hm => h (List.mem_cons_of_mem hd hm)]
    rfl

/-- Dealing with a packet leaves the mode alone. -/
theorem onCommDeal_factory (w : Watch) (now : ℤ) (ack : List UInt8) :
    (StatusWatch.onCommDeal w now ack).1.mIsFactory = w.mIsFactory := by
  unfold StatusWatch.onCommDeal
  split
  · rfl
  · dsimp only
    split
    · split <;> rfl
    · rfl

omit [DecidableEq H] in
/-- Others are not seen. -/
theorem unseen_others (ack : List UInt8) (hds : List H) :
    (hds.map fun hd => Reaction.onRecv hd ack).filterMap dealt = [] ∧
      (hds.map fun hd => Reaction.onRecv hd ack).filterMap popped = [] ∧
      (hds.map fun hd => Reaction.onRecv hd ack).flatMap looks = [] := by
  induction hds with
  | nil => exact ⟨rfl, rfl, rfl⟩
  | cons hd hds ih => exact ih

/-- A packet outside a product test reaches the manager once. -/
theorem onCommand_seen {conn : H} {s : Station H} (hn : (s.objHandler.handlers btMCU).Nodup)
    (hc : conn ∈ s.objHandler.handlers btMCU) (hf : s.watch.mIsFactory = false) (now : ℤ)
    (ack : List UInt8) :
    Seen s.watch [⟨now, ack, false⟩] (onCommand conn s now ack).1.watch
      (onCommand conn s now ack).2 := by
  obtain ⟨A, B, hsplit⟩ := List.append_of_mem hc
  have hA : conn ∉ A := fun h => by
    rw [hsplit] at hn
    exact (List.nodup_append.mp hn).2.2 conn h conn List.mem_cons_self rfl
  have hB : conn ∉ B := by
    rw [hsplit] at hn
    exact (List.nodup_cons.mp (List.nodup_append.mp hn).2.1).1
  unfold onCommand
  dsimp only
  rw [CHandlerManager.onCommand_snd, hsplit, outputs_append, outputs_onRecv_others hA, outputs,
    onRecv, if_pos rfl]
  dsimp only
  rw [outputs_onRecv_others hB]
  obtain ⟨hdA, hpA, hlA⟩ := unseen_others ack A
  obtain ⟨hdB, hpB, hlB⟩ := unseen_others ack B
  refine ⟨onCommDeal_factory _ _ _, ?_, ?_, ?_⟩
  · rw [List.filterMap_append, hdA, List.filterMap_append, hdB]
    rfl
  · rw [List.filterMap_append, hpA, List.filterMap_append, hpB]
    rfl
  · rw [List.flatMap_append, hlA, List.flatMap_append, hlB, off_eq hf,
      off_eq ((onCommDeal_factory _ _ _).trans hf)]
    rw [List.nil_append, List.append_nil]
    rfl

omit [DecidableEq H] in
/-- A packet of a product test is seen by its callback alone. -/
theorem productCallback_seen {w : Watch} (now : ℤ) (ack : List UInt8) :
    Seen w [⟨now, ack, true⟩] w (productCallback ack : List (Reaction H)) := by
  unfold productCallback
  by_cases h : getData ack 12 &&& 0x10 ≠ 0 ∧ getData ack 2 = 0xcc
  · rw [if_pos h]
    refine ⟨rfl, rfl, ?_, rfl⟩
    have hx : Handed.toProduct ⟨now, ack, true⟩ = some ack := if_pos ⟨rfl, h⟩
    rw [List.filterMap_cons_some hx]
    rfl
  · rw [if_neg h]
    refine ⟨rfl, rfl, ?_, rfl⟩
    have hx : Handed.toProduct ⟨now, ack, true⟩ = none := if_neg fun hx => h hx.2
    rw [List.filterMap_cons_none hx]
    rfl

/-! ## Runs -/

/-- The receiver is in order, the two marks of a product test agree, and the
manager is registered once for status packets. -/
structure Good (conn : H) (s : Station H) : Prop where
  /-- The receiver is in order. -/
  ok : s.uart.Ok .mcu MCU2UI.framing
  /-- The watch and the receiver are in the same mode. -/
  modes : s.watch.mIsFactory = s.uart.mCallbackFunc
  /-- No handler is there twice. -/
  nodup : (s.objHandler.handlers btMCU).Nodup
  /-- The manager is one of the handlers. -/
  mem : conn ∈ s.objHandler.handlers btMCU

/-- One packet that was received, while nothing changes the product test. -/
theorem handOn_seen {conn : H} {s : Station H} (hn : (s.objHandler.handlers btMCU).Nodup)
    (hc : conn ∈ s.objHandler.handlers btMCU) {e : RecvEvent}
    (he : ∀ ack cb r, e = .dispatched ack cb r → cb = s.watch.mIsFactory) (clock : ℕ → ℤ) (n : ℕ) :
    Seen s.watch (handed clock n [e]) (handOn conn s (clock n) e).1.watch
        (handOn conn s (clock n) e).2 ∧
      (handOn conn s (clock n) e).1.uart = s.uart ∧
      (handOn conn s (clock n) e).1.objHandler.handlers btMCU = s.objHandler.handlers btMCU := by
  cases e with
  | checkFail ack => exact ⟨seen_nil _, rfl, rfl⟩
  | suppressed ack now => exact ⟨seen_nil _, rfl, rfl⟩
  | dispatched ack cb r =>
    have hcb := he ack cb r rfl
    cases cb with
    | true => exact ⟨productCallback_seen (clock n) ack, rfl, rfl⟩
    | false =>
      exact ⟨onCommand_seen hn hc hcb.symm (clock n) ack, rfl,
        CHandlerManager.handlers_onCommand _ _ _ _⟩

omit [DecidableEq H] in

/-- The packets of a list of events, those of its head first. -/
theorem handed_cons (clock : ℕ → ℤ) (n : ℕ) (e : RecvEvent) (es : List RecvEvent) :
    handed clock n (e :: es) = handed clock n [e] ++ handed clock (n + 1) es := by
  cases e <;> rfl

/-- The packets of one read. -/
theorem handOnAll_seen {conn : H} {s : Station H} (hn : (s.objHandler.handlers btMCU).Nodup)
    (hc : conn ∈ s.objHandler.handlers btMCU) {es : List RecvEvent}
    (he : ∀ e ∈ es, ∀ ack cb r, e = .dispatched ack cb r → cb = s.watch.mIsFactory)
    (clock : ℕ → ℤ) (n : ℕ) :
    Seen s.watch (handed clock n es) (handOnAll conn clock n s es).1.watch
        (handOnAll conn clock n s es).2 ∧
      (handOnAll conn clock n s es).1.uart = s.uart ∧
      (handOnAll conn clock n s es).1.objHandler.handlers btMCU =
        s.objHandler.handlers btMCU := by
  induction es generalizing s n with
  | nil => exact ⟨seen_nil _, rfl, rfl⟩
  | cons e es ih =>
    obtain ⟨hseen, huart, hhds⟩ := handOn_seen hn hc (he e List.mem_cons_self) clock n
    obtain ⟨hseen', huart', hhds'⟩ := ih (s := (handOn conn s (clock n) e).1) (by rwa [hhds])
      (by rwa [hhds]) (fun x hx ack cb r h => by
        rw [hseen.factory]
        exact he x (List.mem_cons_of_mem e hx) ack cb r h) (n + 1)
    rw [handed_cons]
    exact ⟨hseen.append hseen', huart'.trans huart, hhds'.trans hhds⟩

/-- Receiving leaves the callback alone and asks it for every packet. -/
theorem deals_callback {F : Framing UInt8} {clock : ℕ → ℤ} {s s' : Receiver} {es : List RecvEvent}
    (h : Deals .mcu F clock s es s') :
    s'.mCallbackFunc = s.mCallbackFunc ∧
      ∀ e ∈ es, ∀ ack cb r, e = .dispatched ack cb r → cb = s.mCallbackFunc := by
  induction h with
  | nil s => exact ⟨rfl, fun _ h => (nomatch h)⟩
  | fill b _ ih => exact ih
  | @deal s s₁ s' e es n _ _ hd _ ih =>
    have hkeep : s₁.mCallbackFunc = s.mCallbackFunc := by cases hd <;> rfl
    refine ⟨ih.1.trans hkeep, List.forall_mem_cons.mpr ⟨?_, fun x hx ack cb r h => ?_⟩⟩
    · intro ack cb r he
      cases hd with
      | failed => cases he
      | fresh => cases he; rfl
      | through => cases he; rfl
      | suppressed => cases he
    · exact (ih.2 x hx ack cb r h).trans hkeep

/-- The packets handed over are the dispatched ones, all to one side. -/
theorem handed_spec (clock : ℕ → ℤ) (n : ℕ) {m : Bool} {es : List RecvEvent}
    (he : ∀ e ∈ es, ∀ ack cb r, e = .dispatched ack cb r → cb = m) :
    (∀ x ∈ handed clock n es, x.product = m) ∧
      (handed clock n es).map Handed.ack = (es.filter RecvEvent.isDispatched).map
        RecvEvent.content := by
  induction es generalizing n with
  | nil => exact ⟨fun _ h => (nomatch h), rfl⟩
  | cons e es ih =>
    obtain ⟨ih₁, ih₂⟩ := ih (n + 1) fun x hx => he x (List.mem_cons_of_mem e hx)
    cases e with
    | checkFail ack => exact ⟨ih₁, ih₂⟩
    | suppressed ack now => exact ⟨ih₁, ih₂⟩
    | dispatched ack cb r =>
      refine ⟨List.forall_mem_cons.mpr ⟨he _ List.mem_cons_self ack cb r rfl, ih₁⟩, ?_⟩
      rw [handed, List.map_cons, ih₂]
      rfl

omit [DecidableEq H] in

/-- What is seen is seen the same way with the factory test off. -/
theorem Seen.off {w w' : Watch} {xs : List Handed} {out : List (Reaction H)}
    (h : Seen w xs w' out) : Seen (PacketDispatch.off w) xs (PacketDispatch.off w') out :=
  ⟨rfl, h.dealt, h.popped, h.looks⟩

/-- What happenings hand on, packet by packet, and what they read. -/
structure Progress (s s' : Station H) (reads : List (List UInt8)) (es : List RecvEvent)
    (xs : List Handed) (out : List (Reaction H)) : Prop where
  /-- The reads were framed to the events. -/
  run : Run MCU2UI.framing s.uart.mCurrRecv.content reads (es.map (packet .mcu))
    s'.uart.mCurrRecv.content
  /-- The valid events are those of the verified frames. -/
  valid : ∀ e ∈ es, e.isValid = verified (packet .mcu e).frame
  /-- The packets handed on are the dispatched ones. -/
  acks : xs.map Handed.ack = (es.filter RecvEvent.isDispatched).map RecvEvent.content
  /-- The reactions follow from the packets. -/
  seen : Seen (off s.watch) xs (off s'.watch) out

omit [DecidableEq H] in

/-- Two stretches of progress make one. -/
theorem Progress.append {s s₁ s₂ : Station H} {reads reads' : List (List UInt8)}
    {es es' : List RecvEvent} {xs xs' : List Handed} {out out' : List (Reaction H)}
    (h : Progress s s₁ reads es xs out) (h' : Progress s₁ s₂ reads' es' xs' out') :
    Progress s s₂ (reads ++ reads') (es ++ es') (xs ++ xs') (out ++ out') := by
  refine ⟨?_, ?_, ?_, h.seen.append h'.seen⟩
  · rw [List.map_append]
    exact h.run.append h'.run
  · exact List.forall_mem_append.mpr ⟨h.valid, h'.valid⟩
  · rw [List.map_append, List.filter_append, List.map_append, h.acks, h'.acks]

omit [DecidableEq H] in
/-- A happening that reads nothing. -/
theorem Progress.quiet {s s' : Station H} (hu : s'.uart.mCurrRecv = s.uart.mCurrRecv)
    (hw : off s'.watch = off s.watch) : Progress s s' [] [] [] ([] : List (Reaction H)) := by
  refine ⟨?_, fun _ h => (nomatch h), rfl, ?_⟩
  · rw [hu]
    exact Run.nil _
  · rw [hw]
    exact seen_nil _

/-- A read is dealt with and leaves the station good. -/
theorem Good.read {conn : H} {s : Station H} (h : Good conn s) (repeats clock : ℕ → ℤ)
    (buf : List UInt8) :
    ∃ s' out es xs, step conn s (.onUartData repeats clock buf) = some (s', out) ∧ Good conn s' ∧
      Progress s s' [buf] es xs out ∧ s'.watch.mIsFactory = s.watch.mIsFactory ∧
      ∀ x ∈ xs, x.product = s.watch.mIsFactory := by
  obtain ⟨uart, offset, es, hcall, hrec⟩ := onUartData_received (t := .mcu) rfl repeats h.ok buf
  obtain ⟨hcb, hdisp⟩ := deals_callback hrec.deals
  rw [← h.modes] at hcb hdisp
  obtain ⟨hseen, huart, hhds⟩ := handOnAll_seen (s := {s with uart := uart}) h.nodup h.mem hdisp
    clock s.uart.mRecvCount
  obtain ⟨hproduct, hacks⟩ := handed_spec clock s.uart.mRecvCount hdisp
  refine ⟨_, _, es, handed clock s.uart.mRecvCount es, ?_, ⟨?_, ?_, ?_, ?_⟩, ⟨?_, ?_, hacks,
    hseen.off⟩, hseen.factory, hproduct⟩
  · rw [step, hcall]
    rfl
  · rw [huart]
    exact hrec.ok
  · rw [huart, hseen.factory]
    exact hcb.symm
  · rw [hhds]
    exact h.nodup
  · rw [hhds]
    exact h.mem
  · rw [huart]
    exact hrec.run
  · exact hrec.deals.valid rfl

/-- One happening. -/
theorem Good.step {conn : H} {s : Station H} (h : Good conn s) {op : Op H}
    (hop : op ≠ .removeHandler conn) :
    ∃ s' out es xs, PacketDispatch.step conn s op = some (s', out) ∧ Good conn s' ∧
      Progress s s' (stream [op]) es xs out ∧
      s'.watch.mIsFactory = modeAfter s.watch.mIsFactory op ∧
      ∀ x ∈ xs, x.product = s.watch.mIsFactory := by
  cases op with
  | onUartData repeats clock buf =>
    obtain ⟨s', out, es, xs, hs, hg, hp, hf, hx⟩ := h.read repeats clock buf
    exact ⟨s', out, es, xs, hs, hg, hp, hf, hx⟩
  | setProductTest canlePop =>
    exact ⟨_, _, [], [], rfl, ⟨⟨h.ok.curr, h.ok.last, h.ok.aligned, h.ok.incomplete⟩, rfl, h.nodup,
      h.mem⟩, Progress.quiet rfl rfl, rfl, fun _ hx => (nomatch hx)⟩
  | addHandler cmd hd =>
    refine ⟨_, _, [], [], rfl, ⟨h.ok, h.modes, ?_, ?_⟩, Progress.quiet rfl rfl, rfl,
      fun _ hx => (nomatch hx)⟩
    · rw [CHandlerManager.handlers_addHandler]
      split
      · rename_i hnew
        obtain ⟨rfl, hnew⟩ := hnew
        rw [← List.concat_eq_append]
        exact h.nodup.concat hnew
      · exact h.nodup
    · rw [CHandlerManager.handlers_addHandler]
      split
      · exact List.mem_append_left _ h.mem
      · exact h.mem
  | removeHandler hd =>
    refine ⟨_, _, [], [], rfl, ⟨h.ok, h.modes, ?_, ?_⟩, Progress.quiet rfl rfl, rfl,
      fun _ hx => (nomatch hx)⟩
    · rw [CHandlerManager.handlers_removeHandler]
      exact h.nodup.erase hd
    · rw [CHandlerManager.handlers_removeHandler]
      exact (List.mem_erase_of_ne fun he => hop (congrArg Op.removeHandler he.symm)).mpr h.mem
  | onTick now =>
    refine ⟨_, _, [], [], rfl, ⟨h.ok, h.modes, ?_, ?_⟩, Progress.quiet rfl rfl, rfl,
      fun _ hx => (nomatch hx)⟩
    · rw [CHandlerManager.handlers_onTick]
      exact h.nodup
    · rw [CHandlerManager.handlers_onTick]
      exact h.mem

omit [DecidableEq H] in

/-- The bytes of a list of operations, those of its head first. -/
theorem stream_cons (op : Op H) (ops : List (Op H)) :
    stream (op :: ops) = stream [op] ++ stream ops := by
  cases op <;> rfl

/-- All happenings, in which the manager stays registered. -/
theorem Good.run {conn : H} {s : Station H} (h : Good conn s) {ops : List (Op H)}
    (hops : .removeHandler conn ∉ ops) :
    ∃ s' out es ys, PacketDispatch.run conn s ops = some (s', out) ∧ Good conn s' ∧
      Progress s s' (stream ops) es ys.flatten out ∧
      List.Forall₂ (fun m y => ∀ x ∈ y, x.product = m)
        (modesBefore s.watch.mIsFactory ops) ys := by
  induction ops generalizing s with
  | nil => exact ⟨s, [], [], [], rfl, h, Progress.quiet rfl rfl, .nil⟩
  | cons op ops ih =>
    obtain ⟨s₁, out, es, xs, hstep, hg, hp, hmode, hx⟩ :=
      h.step fun he => hops (he ▸ List.mem_cons_self)
    obtain ⟨s', out', es', ys, hrun, hg', hp', hys⟩ :=
      ih hg fun hm => hops (List.mem_cons_of_mem op hm)
    refine ⟨s', out ++ out', es ++ es', xs :: ys, ?_, hg', ?_, ?_⟩
    · rw [PacketDispatch.run, hstep]
      simp only [Option.bind_eq_bind, Option.bind_some, hrun]
      rfl
    · rw [stream_cons]
      exact hp.append hp'
    · rw [hmode] at hys
      exact .cons hx hys

/-- The station is good when the program starts. -/
theorem initial_good (conn : H) (t₀ t₁ : ℤ) : Good conn (initial conn t₀ t₁) :=
  ⟨(newReceiver_idle .mcu).ok _, rfl, List.nodup_singleton conn, List.mem_singleton_self conn⟩

/-- While the manager stays registered, the packets handed on are verified
frames of the stream, disjoint and in order. Each of them goes to one side:
outside of product tests to the manager, once, and its looks at warnings are
those of these packets; within them to the callback, which pops at its marks. -/
theorem packets_go_to_one_side {conn : H} {ops : List (Op H)} (hops : .removeHandler conn ∉ ops)
    (t₀ t₁ : ℤ) :
    ∃ s' out ys, run conn (initial conn t₀ t₁) ops = some (s', out) ∧
      s'.watch.mIsFactory = s'.uart.mCallbackFunc ∧
      List.Forall₂ (fun m y => ∀ x ∈ y, x.product = m) (modesBefore false ops) ys ∧
      Blocks (ys.flatten.map fun x => x.ack.take 16) (stream ops).flatten ∧
      (∀ x ∈ ys.flatten, WellFormed .mcu (x.ack.take 16)) ∧
      out.filterMap dealt = ys.flatten.filterMap Handed.toManager ∧
      out.filterMap popped = ys.flatten.filterMap Handed.toProduct ∧
      out.flatMap looks = (StatusWatch.watch ⟨false, t₁, 0⟩ (out.filterMap dealt)).2 := by
  obtain ⟨s', out, es, ys, hrun, hg, hp, hys⟩ := (initial_good conn t₀ t₁).run hops
  have hframes : (ys.flatten.map fun x => x.ack.take 16) =
      (es.filter RecvEvent.isDispatched).map (frameOf .mcu) := by
    have hacks := congrArg (List.map (List.take 16)) hp.acks
    rw [List.map_map, List.map_map] at hacks
    exact hacks
  have hvalid : (es.filter RecvEvent.isDispatched).Sublist (es.filter RecvEvent.isValid) := by
    have hsub : es.filter RecvEvent.isDispatched =
        (es.filter RecvEvent.isValid).filter RecvEvent.isDispatched := by
      rw [List.filter_filter]
      refine List.filter_congr fun e _ => ?_
      cases e <;> rfl
    rw [hsub]
    exact List.filter_sublist
  have hcontent : (initial conn t₀ t₁).uart.mCurrRecv.content = [] :=
    (newReceiver_idle .mcu).content
  have hrun' := hp.run
  rw [hcontent] at hrun'
  refine ⟨s', out, ys, hrun, hg.modes, hys, ?_, ?_, hp.seen.dealt, hp.seen.popped, ?_⟩
  · rw [hframes]
    have hb := hrun'.blocks
    rw [List.nil_append, List.map_map] at hb
    exact hb.sublist (List.filter_sublist.map (frameOf .mcu))
  · intro x hx
    refine valid_wellFormed (t := .mcu) rfl hrun' hp.valid _ ?_
    have hmem := List.mem_map_of_mem (f := fun x : Handed => x.ack.take 16) hx
    rw [hframes] at hmem
    exact (hvalid.map (frameOf .mcu)).subset hmem
  · rw [hp.seen.dealt]
    exact (congrArg Prod.snd hp.seen.looks).symm

/-- A status packet, then a product test that pops. -/
def popOps : List (Op ℕ) :=
  [.onUartData (fun _ => 0) (fun _ => 40000) (statusFrame 25), .addHandler btMCU 7,
    .setProductTest true,
    .onUartData (fun _ => 0) (fun _ => 41000)
      [0x02, 0x10, 0xcc, 0, 0, 0, 0, 0, 0, 0, 0, 0, 0x10, 0, 0, 0xee]]

/-- One packet in product mode reaches the one side. -/
theorem packets_go_to_one_side_popOps :
    (run 3 (initial 3 0 0) popOps).map (fun r => (r.2.filterMap popped).length) = some 1 ∧
    ∃ s' out ys, run 3 (initial 3 0 0) popOps = some (s', out) ∧
      s'.watch.mIsFactory = s'.uart.mCallbackFunc ∧
      List.Forall₂ (fun m y => ∀ x ∈ y, x.product = m) (modesBefore false popOps) ys ∧
      Blocks (ys.flatten.map fun x => x.ack.take 16) (stream popOps).flatten ∧
      (∀ x ∈ ys.flatten, WellFormed .mcu (x.ack.take 16)) ∧
      out.filterMap dealt = ys.flatten.filterMap Handed.toManager ∧
      out.filterMap popped = ys.flatten.filterMap Handed.toProduct ∧
      out.flatMap looks = (StatusWatch.watch ⟨false, 0, 0⟩ (out.filterMap dealt)).2 :=
  ⟨by decide +kernel, packets_go_to_one_side (by simp [popOps]) 0 0⟩

end CdroidDemo.PacketDispatch
