import CdroidDemo.PacedQueue
import CdroidDemo.PoolPeak

/-!
# How long a packet waits

`onTick` sends the oldest packet of the queue when the last one went out at
least 100 milliseconds ago; a packet that is received lets the next one out at
once. A queue of a client is a queue served at this pace, whatever the other
clients and callers do.
-/

namespace CdroidDemo.QueueDrain

open FramedReceiver PacketMemory PacketBuffer BufferPool SerialClient UartReceiver
open BufferOwnership SDHWPacketBuffer StepRuns PacedQueue PoolPeak
open BufferOwnership.Sys (Inv Stepped step_stepped empty_inv)

/-- Operations in order, with what is seen of them. -/
def runOps (s : Sys) : List Op → Option (Sys × List Event)
  | [] => some (s, [])
  | op :: ops => do
    let (s, es) ← s.step op
    let (s, gs) ← runOps s ops
    return (s, es ++ gs)

/-- The clock reading of a tick of client `c`. -/
def tickOf (c : ℕ) : Op → Option ℤ
  | .onTick c' nowTick => if c' = c then some nowTick else none
  | _ => none

/-- The queue of a client and when it sent last. -/
def view (cl : UartClient) : Paced ℕ := ⟨cl.mSendQueue, cl.mLastSendTime⟩

/-- The packet that a client sends in an operation. -/
def sentBy (c : ℕ) (t : ℤ) (bd : ℕ) (es : List Event) : Prop :=
  ∃ frame, Event.transmitted c t bd frame ∈ es

variable {F : Framing UInt8} {s s' : Sys} {c : ℕ} {cl : UartClient}

/-- Receiving leaves the time of the last transmission or resets it. -/
theorem deals_lastSendTime {t : BufferType} {clock : ℕ → ℤ} {r r' : Receiver}
    {es : List RecvEvent} (h : Deals t F clock r es r') :
    r'.mLastSendTime = r.mLastSendTime ∨ r'.mLastSendTime = 0 := by
  induction h with
  | nil s => exact Or.inl rfl
  | fill b _ ih => exact ih
  | deal _ _ hd _ ih =>
    rcases ih with h | h
    · cases hd with
      | failed => exact Or.inl h
      | fresh => exact Or.inr h
      | through => exact Or.inr h
      | suppressed => exact Or.inl h
    · exact Or.inr h

/-- The new state of client `c`, its part of an operation as a step of a paced
queue, and that what is served is sent. -/
def Paces (c : ℕ) (cl : UartClient) (s' : Sys) (op : Op) (es : List Event) : Prop :=
  ∃ cl' out, s'.client c = some cl' ∧ Step 100 (view cl) (tickOf c op) (view cl') out ∧
    ∀ t bd, tickOf c op = some t → out = some bd → sentBy c t bd es

/-- An operation that is no tick of the client keeps the pace. -/
theorem paces_quiet {cl' : UartClient} {op : Op} {es : List Event} (hop : tickOf c op = none)
    (hcl : s'.client c = some cl') {new : List ℕ} (hq : cl'.mSendQueue = cl.mSendQueue ++ new)
    (hl : cl'.mLastSendTime = cl.mLastSendTime ∨ cl'.mLastSendTime = 0) :
    Paces c cl s' op es := by
  refine ⟨cl', none, hcl, ?_, fun t bd ht => ?_⟩
  · have hview : view cl' = ⟨cl.mSendQueue ++ new, cl'.mLastSendTime⟩ := by rw [view, hq]
    rw [hop, hview]
    exact Step.quiet new hl
  · rw [hop] at ht
    cases ht

/-- The client just set is the one that is found. -/
theorem client_set_self {p : SDHWPacketBuffer} {held : List ℕ} (hc : s.client c = some cl)
    (v : Option UartClient) : Sys.client ⟨p, s.clients.set c v, held⟩ c = v := by
  rw [Sys.client_set (Sys.lt_of_client hc), if_pos rfl]

/-- Every operation that does not destroy a client is a step of its queue. -/
theorem Stepped.paces {op : Op} {es : List Event} (hs : Stepped F s op s' es)
    (hc : s.client c = some cl) (hd : op ≠ .destroy c) : Paces c cl s' op es := by
  by_cases hother : op.client = some c
  · induction hs generalizing cl with
    | construct => cases hother
    | destroy _ => cases hother; exact absurd rfl hd
    | @status s c' cl₀ hc₀ isConn =>
      cases hother
      rw [hc] at hc₀
      cases hc₀
      exact paces_quiet rfl (client_set_self hc _) (List.append_nil _).symm (Or.inl rfl)
    | @setProductCallback s c' cl₀ hc₀ cb =>
      cases hother
      rw [hc] at hc₀
      cases hc₀
      exact paces_quiet rfl (client_set_self hc _) (List.append_nil _).symm (Or.inl rfl)
    | obtain => cases hother
    | fill => cases hother
    | recycle => cases hother
    | @send s c' bd cl₀ cl' b p r hc₀ _ _ _ hsent =>
      cases hother
      rw [hc] at hc₀
      cases hc₀
      cases hsent with
      | disconnected _ =>
        exact paces_quiet rfl (client_set_self hc _) (List.append_nil _).symm (Or.inl rfl)
      | duplicate _ _ =>
        exact paces_quiet rfl (client_set_self hc _) (List.append_nil _).symm (Or.inl rfl)
      | accepted _ _ => exact paces_quiet rfl (client_set_self hc _) rfl (Or.inl rfl)
    | send2MCU h₁ h₂ h₃ _ _ ih₃ =>
      cases hother
      have hno : none ≠ some c := fun he => by cases he
      have hc₁ := (h₁.client_other hno (Sys.lt_of_client hc)).trans hc
      have hc₂ := (h₂.client_other hno (Sys.lt_of_client hc₁)).trans hc₁
      obtain ⟨cl', out, hcl', hstep, -⟩ := ih₃ hc₂ (fun he => by cases he) rfl
      exact ⟨cl', out, hcl', hstep, fun t bd ht => (nomatch ht)⟩
    | @onTick s c' cl₀ cl' nowTick p out hc₀ ht =>
      cases hother
      rw [hc] at hc₀
      cases hc₀
      have htick : tickOf c (.onTick c nowTick) = some nowTick := if_pos rfl
      cases ht with
      | idle h =>
        refine ⟨_, none, client_set_self hc _, ?_, fun t bd _ h => (nomatch h)⟩
        rw [htick]
        exact Step.wait h
      | @sent ask rest b b' hq ht _ _ =>
        refine ⟨_, some ask, client_set_self hc _, ?_, fun t bd ht' hbd => ?_⟩
        · rw [htick]
          exact Step.serve hq ht
        · rw [htick] at ht'
          cases ht'
          cases hbd
          exact ⟨_, List.mem_singleton_self _⟩
    | @onUartData s c' cl₀ cl' clock buf p es hc₀ hf =>
      cases hother
      rw [hc] at hc₀
      cases hc₀
      obtain ⟨curr, last, r, -, -, hdeals, rfl⟩ := hf.deals
      exact paces_quiet rfl (client_set_self hc _) (List.append_nil _).symm
        (deals_lastSendTime hdeals)
  · have hkeep := hs.client_other hother (Sys.lt_of_client hc)
    have hop : tickOf c op = none := by
      cases op with
      | onTick c' nowTick => exact if_neg fun he => hother (congrArg some he)
      | _ => rfl
    exact paces_quiet hop (hkeep.trans hc) (List.append_nil _).symm (Or.inl rfl)

/-- The clock readings of the ticks of client `c`. -/
def ticksOf (c : ℕ) (ops : List Op) : List ℤ := ops.filterMap (tickOf c)

/-- Allowed operations that do not destroy a client are a run of its queue. -/
theorem runOps_paced (h : Inv F s) (hc : s.client c = some cl) {ops : List Op}
    (ha : Allowed stepTo Sys.Allowed s ops) (hd : .destroy c ∉ ops) :
    ∃ s' es cl' log, runOps s ops = some (s', es) ∧ s'.client c = some cl' ∧
      PacedQueue.Run 100 (view cl) log (view cl') ∧ ticks log = ticksOf c ops ∧
      ∀ t bd, (some t, some bd) ∈ log → sentBy c t bd es := by
  induction ops generalizing s cl with
  | nil => exact ⟨s, [], cl, [], rfl, hc, PacedQueue.Run.nil _, rfl, fun _ _ h => (nomatch h)⟩
  | cons op ops ih =>
    obtain ⟨s₁, es, hstep, hst⟩ := step_stepped h ha.1
    have hto : stepTo s op = some s₁ := by rw [stepTo, hstep]; rfl
    obtain ⟨cl₁, out, hc₁, hpace, hsent⟩ :=
      Stepped.paces hst hc fun he => hd (he ▸ List.mem_cons_self)
    obtain ⟨s', gs, cl', log, hrun, hc', hlog, hticks, hall⟩ :=
      ih (hst.inv h) hc₁ (ha.2 s₁ hto) fun hm => hd (List.mem_cons_of_mem op hm)
    refine ⟨s', es ++ gs, cl', (tickOf c op, out) :: log, ?_, hc', PacedQueue.Run.cons hpace hlog,
      ?_, fun t bd hm => ?_⟩
    · rw [runOps, hstep]
      simp only [Option.bind_eq_bind, Option.bind_some, hrun]
      rfl
    · rw [ticksOf, ticks, List.filterMap_cons, List.filterMap_cons, ← ticks, ← ticksOf, hticks]
    · rcases List.mem_cons.mp hm with he | hm
      · obtain ⟨frame, hf⟩ := hsent t bd (congrArg Prod.fst he).symm (congrArg Prod.snd he).symm
        exact ⟨frame, List.mem_append_left gs hf⟩
      · obtain ⟨frame, hf⟩ := hall t bd hm
        exact ⟨frame, List.mem_append_right es hf⟩

/-- In every state that clients and callers reach, a packet that waits behind
`k` others is sent at most `(k + 1) * (100 + g)` milliseconds after `t₀`, when
the ticks of its client go on at most `g` apart and the client is not
destroyed, whatever else happens. -/
theorem queued_packet_goes_out {t : BufferType} (ht : t = .mcu ∨ t = .tuyaMcu) {es₀ : List Event}
    (hs : Sys.Run (Sys.empty t) es₀ s) (hc : s.client c = some cl) {A B : List ℕ} {bd : ℕ}
    (hq : cl.mSendQueue = A ++ bd :: B) {ops : List Op}
    (ha : Allowed stepTo Sys.Allowed s ops) (hd : .destroy c ∉ ops) {g t₀ : ℤ} (hg : 0 ≤ g)
    (hlast : 0 ≤ cl.mLastSendTime ∧ cl.mLastSendTime ≤ t₀) (hpos : ∀ t ∈ ticksOf c ops, 0 ≤ t)
    (hclose : Close g t₀ (ticksOf c ops))
    (hlong : ∃ t ∈ ticksOf c ops, t₀ + 100 + A.length * (100 + g) ≤ t) :
    ∃ s' es, runOps s ops = some (s', es) ∧
      ∃ t frame, Event.transmitted c t bd frame ∈ es ∧ t ≤ t₀ + (A.length + 1) * (100 + g) := by
  obtain ⟨F, hF⟩ := framing_exists ht
  obtain ⟨s', es, cl', log, hrun, -, hlog, hticks, hall⟩ :=
    runOps_paced (hs.inv (empty_inv hF)) hc ha hd
  rw [← hticks] at hpos hclose hlong
  have hdue : due 100 g t₀ (view cl).last A.length ≤ t₀ + 100 + A.length * (100 + g) :=
    Int.add_le_add_right (max_le (by omega) (Int.add_le_add_right hlast.2 100)) _
  obtain ⟨u, hu, hu'⟩ := hlong
  obtain ⟨t, hmem, hle⟩ := served_in_time hlog (by omega) hg hlast.1 hpos hclose hq
    ⟨u, hu, hdue.trans hu'⟩
  obtain ⟨frame, hf⟩ := hall t bd hmem
  refine ⟨s', es, hrun, t, frame, hf, ?_⟩
  have hmul : ((A.length : ℤ) + 1) * (100 + g) = A.length * (100 + g) + (100 + g) := by ring
  rw [hmul]
  omega

/-- A client with an open port and one command in its queue. -/
theorem oneCommand_run :
    ∃ s es cl, Sys.Run (Sys.empty .mcu) es s ∧ s.client 0 = some cl ∧ cl.mSendQueue = [2] ∧
      cl.mLastSendTime = 0 ∧ Allowed stepTo Sys.Allowed s [.onTick 0 100, .onTick 0 150] := by
  refine ⟨_, _, _, Sys.Run.step (.send2MCU 0 fun _ => 0) (Sys.Run.step (.status 0 true)
    (Sys.Run.step .construct Sys.Run.start trivial rfl) rfl rfl) ⟨rfl, rfl⟩ rfl, rfl, rfl, rfl,
    rfl, fun s' h => ?_⟩
  have h' : s' = _ := (Option.some.inj h).symm
  subst h'
  exact ⟨rfl, fun _ _ => trivial⟩

/-- One queued command goes out at the second tick. -/
theorem queued_packet_goes_out_oneCommand :
    ∃ s es₀, Sys.Run (Sys.empty .mcu) es₀ s ∧
      ∃ s' es, runOps s [.onTick 0 100, .onTick 0 150] = some (s', es) ∧
        ∃ t frame, Event.transmitted 0 t 2 frame ∈ es ∧ t ≤ 50 + (0 + 1) * (100 + 50) := by
  obtain ⟨s, es₀, cl, hrun, hc, hq, hlast, ha⟩ := oneCommand_run
  exact ⟨s, es₀, hrun, queued_packet_goes_out (A := []) (B := []) (Or.inl rfl) hrun hc hq ha
    (by simp) (by decide) (by rw [hlast]; decide) (by decide)
    (show Close 50 50 [100, 150] from ⟨by decide, by decide, trivial⟩) (by decide)⟩

end CdroidDemo.QueueDrain
