import CdroidDemo.BufferOwnership
import CdroidDemo.FifoQueue
import CdroidDemo.History

/-!
# What the serial client transmits

Over any run of clients and callers on one packet buffer, a client transmits
the packets it accepted in the order it accepted them, once each, and the
others are what its queue holds, untouched. Two transmissions are at least
100 ms apart unless a received packet was dispatched between them.
-/

namespace CdroidDemo.UartTransmission

open HeaderResync FramedReceiver PacketMemory BuffData PacketBuffer BufferPool SerialClient
open UartReceiver BufferOwnership FifoQueue History SDHWPacketBuffer Sys

/-- A packet for which `send` of client `c` returned 0. -/
def acceptedBy (c : ℕ) : Event → Option (ℕ × BuffData)
  | .sendResult c' bd b r => if c' = c ∧ r = 0 then some (bd, b) else none
  | _ => none

/-- A packet that client `c` handed to `sendTrans`. -/
def transmittedBy (c : ℕ) : Event → Option (ℕ × List UInt8)
  | .transmitted c' _ bd frame => if c' = c then some (bd, frame) else none
  | _ => none

/-- When client `c` transmitted a packet. -/
def transmissionTime (c : ℕ) : Event → Option ℤ
  | .transmitted c' nowTick _ _ => if c' = c then some nowTick else none
  | _ => none

/-- Client `c` dispatched a received packet. -/
def dispatches (c : ℕ) : Event → Bool
  | .received c' e => decide (c' = c) && e.isDispatched
  | _ => false

/-- A packet is sent as its buffer with the check code computed. -/
def SentAs (t : BufferType) (a : ℕ × BuffData) (x : ℕ × List UInt8) : Prop :=
  x.1 = a.1 ∧ ∃ b, checkCode t a.2 = some b ∧ x.2 = b.content

/-- The packets of a queue are the accepted ones that wait, unchanged. -/
def Holds (p : SDHWPacketBuffer) (queue : List ℕ) (waiting : List (ℕ × BuffData)) : Prop :=
  waiting.map Prod.fst = queue ∧ ∀ x ∈ waiting, p.load x.1 = some x.2

/-- What the history of a client says about its queue and its timer. -/
structure Account (t : BufferType) (c : ℕ) (es : List Event) (p : SDHWPacketBuffer)
    (cl : UartClient) : Prop where
  /-- What was accepted was transmitted in order, or waits. -/
  fifo : ∃ waiting, Fifo (SentAs t) (es.filterMap (acceptedBy c))
    (es.filterMap (transmittedBy c)) waiting ∧ Holds p cl.mSendQueue waiting
  /-- The time of the last transmission is known. -/
  timer : ∀ n, timer (transmissionTime c) (dispatches c) es = some n → cl.mLastSendTime = n
  /-- Two transmissions are 100 ms apart. -/
  spaced : Spaced 100 (transmissionTime c) (dispatches c) es

/-- The event neither accepts nor transmits a packet of client `c`. -/
def Quiet (c : ℕ) (e : Event) : Prop :=
  acceptedBy c e = none ∧ transmittedBy c e = none ∧ transmissionTime c e = none

/-- An event of another client is quiet. -/
theorem quiet_of_client {c : ℕ} {e : Event} (h : e.client ≠ c) : Quiet c e := by
  cases e with
  | sendResult c' bd b r => exact ⟨if_neg fun hc => h hc.1, rfl, rfl⟩
  | transmitted c' nowTick bd frame => exact ⟨rfl, if_neg h, if_neg h⟩
  | received c' e => exact ⟨rfl, rfl, rfl⟩

/-- A new client has no history. -/
theorem account_new {t : BufferType} {c : ℕ} {es : List Event} {p : SDHWPacketBuffer}
    {cl : UartClient} (hes : ∀ e ∈ es, e.client ≠ c) (hq : cl.mSendQueue = []) :
    Account t c es p cl := by
  have hacc : es.filterMap (acceptedBy c) = [] :=
    List.filterMap_eq_nil_iff.mpr fun e he => (quiet_of_client (hes e he)).1
  have htx : es.filterMap (transmittedBy c) = [] :=
    List.filterMap_eq_nil_iff.mpr fun e he => (quiet_of_client (hes e he)).2.1
  have hmark : ∀ e ∈ es, transmissionTime c e = none := fun e he =>
    (quiet_of_client (hes e he)).2.2
  have htimer : timer (transmissionTime c) (dispatches c) ([] ++ es) = _ :=
    timer_append_unmarked hmark
  have hspaced : Spaced 100 (transmissionTime c) (dispatches c) ([] ++ es) :=
    spaced_nil.append_unmarked hmark
  rw [List.nil_append] at htimer hspaced
  refine ⟨⟨[], ?_, hq.symm, by simp⟩, ?_, hspaced⟩
  · rw [hacc, htx]
    exact fifo_nil
  · intro n hn
    rw [htimer, timer_nil, ite_self] at hn
    cases hn

section Steps

variable {t : BufferType} {c : ℕ} {es gs : List Event} {p p' : SDHWPacketBuffer}
  {cl cl' : UartClient}

/-- Quiet events keep the account when the queue stays and the timer is
only changed by a dispatch. -/
theorem Account.quiet (h : Account t c es p cl) (hg : ∀ e ∈ gs, Quiet c e)
    (hq : cl'.mSendQueue = cl.mSendQueue) (hl : ∀ q ∈ cl.mSendQueue, p'.load q = p.load q)
    (ht : gs.any (dispatches c) = false → cl'.mLastSendTime = cl.mLastSendTime) :
    Account t c (es ++ gs) p' cl' := by
  have hacc : gs.filterMap (acceptedBy c) = [] :=
    List.filterMap_eq_nil_iff.mpr fun e he => (hg e he).1
  have htx : gs.filterMap (transmittedBy c) = [] :=
    List.filterMap_eq_nil_iff.mpr fun e he => (hg e he).2.1
  have hmark : ∀ e ∈ gs, transmissionTime c e = none := fun e he => (hg e he).2.2
  obtain ⟨waiting, hf, hw, hload⟩ := h.fifo
  refine ⟨⟨waiting, ?_, hw.trans hq.symm, fun x hx => ?_⟩, ?_, h.spaced.append_unmarked hmark⟩
  · rw [List.filterMap_append, List.filterMap_append, hacc, htx, List.append_nil, List.append_nil]
    exact hf
  · have hmem : x.1 ∈ cl.mSendQueue := hw ▸ List.mem_map_of_mem hx
    rw [hl x.1 hmem]
    exact hload x hx
  · intro n hn
    rw [timer_append_unmarked hmark] at hn
    split at hn
    · cases hn
    · rename_i hd
      rw [ht (Bool.eq_false_iff.mpr hd)]
      exact h.timer n hn

/-- An accepted packet waits at the end of the queue. -/
theorem Account.accept (h : Account t c es p cl) {bd : ℕ} {b : BuffData}
    (hb : p.load bd = some b) :
    Account t c (es ++ [.sendResult c bd b 0]) p
      {cl with mSendQueue := cl.mSendQueue ++ [bd]} := by
  have hone : acceptedBy c (.sendResult c bd b 0) = some (bd, b) := if_pos ⟨rfl, rfl⟩
  obtain ⟨waiting, hf, hw, hload⟩ := h.fifo
  refine ⟨⟨waiting ++ [(bd, b)], ?_, ?_, ?_⟩, ?_, ?_⟩
  · rw [List.filterMap_append, List.filterMap_append, List.filterMap_cons_some hone]
    simp only [List.filterMap_nil, List.filterMap_cons, transmittedBy, List.append_nil]
    exact hf.push (bd, b)
  · rw [List.map_append, hw]
    rfl
  · intro x hx
    rcases List.mem_append.mp hx with hold | hnew
    · exact hload x hold
    · rw [List.mem_singleton.mp hnew]
      exact hb
  · intro n hn
    rw [timer_concat] at hn
    exact h.timer n hn
  · exact h.spaced.concat fun n m hn => by cases hn

/-- A transmission takes the oldest packet of the queue. -/
theorem Account.transmit (h : Account t c es p cl) {nowTick : ℤ} {ask : ℕ} {rest : List ℕ}
    {b b' : BuffData} (hq : cl.mSendQueue = ask :: rest)
    (ht : 100 ≤ nowTick - cl.mLastSendTime) (hb : p.load ask = some b)
    (hcode : checkCode t b = some b') (hl : ∀ q ∈ rest, p'.load q = p.load q) :
    Account t c (es ++ [.transmitted c nowTick ask b'.content]) p'
      (cl.drained nowTick rest) := by
  have hone : transmittedBy c (.transmitted c nowTick ask b'.content) = some (ask, b'.content) :=
    if_pos rfl
  have htime : transmissionTime c (.transmitted c nowTick ask b'.content) = some nowTick :=
    if_pos rfl
  obtain ⟨waiting, hf, hw, hload⟩ := h.fifo
  rw [hq] at hw
  obtain ⟨x, wait, rfl, hx, hrest⟩ := List.map_eq_cons_iff.mp hw
  have hxb := hload x List.mem_cons_self
  rw [hx, hb] at hxb
  have hsame : x.2 = b := (Option.some.inj hxb).symm
  refine ⟨⟨wait, ?_, hrest, ?_⟩, ?_, ?_⟩
  · rw [List.filterMap_append, List.filterMap_append, List.filterMap_cons_some hone]
    simp only [List.filterMap_nil, List.filterMap_cons, acceptedBy, List.append_nil]
    exact hf.pop ⟨hx.symm, b', by rw [hsame]; exact hcode, rfl⟩
  · intro y hy
    have hmem : y.1 ∈ rest := hrest ▸ List.mem_map_of_mem hy
    rw [hl y.1 hmem]
    exact hload y (List.mem_cons_of_mem x hy)
  · intro n hn
    rw [timer_concat, tick, htime] at hn
    exact Option.some.inj hn
  · refine h.spaced.concat fun n m hn hm => ?_
    rw [htime] at hn
    rw [h.timer m hm] at ht
    cases hn
    exact ht

/-- `send` accounts for the packet it accepts and only for that one. -/
theorem Account.sent {F : Framing UInt8} {s : Sys} {bd : ℕ} {b : BuffData} {r : ℤ}
    (h : Account t c es s.pool cl) (hi : Inv F s) (hc : s.client c = some cl)
    (hbd : bd ∈ s.held) (hb : s.pool.load bd = some b)
    (hs : UartClient.Sent s.pool cl bd b p' cl' r) :
    Account t c (es ++ [.sendResult c bd b r]) p' cl' := by
  have hload : ∀ q ∈ cl.mSendQueue, p'.load q = s.pool.load q := by
    intro q hq
    have hne := hi.ne_held hc (List.mem_cons_of_mem _ (List.mem_cons_of_mem _ hq)) hbd
    exact hs.load (lt_of_load hb) hne
  have hquiet : ∀ r : ℤ, r ≠ 0 → ∀ e ∈ [Event.sendResult c bd b r], Quiet c e := by
    intro r hr e he
    rw [List.mem_singleton.mp he]
    exact ⟨if_neg fun hx => hr hx.2, rfl, rfl⟩
  cases hs with
  | disconnected _ => exact h.quiet (hquiet _ (by decide)) rfl hload fun _ => rfl
  | duplicate _ _ => exact h.quiet (hquiet _ (by decide)) rfl hload fun _ => rfl
  | accepted _ _ => exact h.accept hb

/-- A tick accounts for the packet it transmits. -/
theorem Account.ticked {F : Framing UInt8} {s : Sys} {nowTick : ℤ}
    {out : Option (ℕ × List UInt8)} (h : Account t c es s.pool cl) (ht : s.pool.mType = t)
    (hi : Inv F s) (hc : s.client c = some cl)
    (hs : UartClient.Ticked s.pool cl nowTick p' cl' out) :
    Account t c (es ++ (out.map fun x => Event.transmitted c nowTick x.1 x.2).toList) p' cl' := by
  cases hs with
  | idle _ => exact h.quiet (fun e he => by cases he) rfl (fun _ _ => rfl) fun _ => rfl
  | @sent ask rest b b' hq htime hb hcode =>
    have hn := hi.owned_nodup hc
    simp only [UartClient.owned, hq, List.nodup_cons] at hn
    refine h.transmit hq htime hb (ht ▸ hcode) fun q hqr => ?_
    have hne : q ≠ ask := fun he => hn.2.2.1 (he ▸ hqr)
    rw [load_recycled (lt_of_load hb), if_neg hne]

/-- Receiving touches no queued packet, and the timer only by a dispatch. -/
theorem Account.fed {F : Framing UInt8} {s : Sys} {clock : ℕ → ℤ} {rs : List RecvEvent}
    (h : Account t c es s.pool cl) (hi : Inv F s) (hc : s.client c = some cl)
    (hf : UartClient.Fed s.pool F cl clock p' cl' rs) :
    Account t c (es ++ rs.map (Event.received c)) p' cl' := by
  have hn := hi.owned_nodup hc
  simp only [UartClient.owned, List.nodup_cons, List.mem_cons, not_or] at hn
  obtain ⟨curr, last, s', -, -, hdeals, rfl⟩ := hf.deals
  refine h.quiet ?_ rfl ?_ ?_
  · intro e he
    obtain ⟨x, -, rfl⟩ := List.mem_map.mp he
    exact ⟨rfl, rfl, rfl⟩
  · intro q hq
    have hcu : q ≠ cl.mCurrRecv := fun he => hn.2.1 (he ▸ hq)
    have hl : q ≠ cl.mLastRecv := fun he => hn.1.2 (he ▸ hq)
    exact hf.other q hcu hl
  · intro hd
    refine hdeals.undispatched fun e he => ?_
    have hone := List.any_eq_false.mp hd _ (List.mem_map_of_mem (f := Event.received c) he)
    rw [dispatches, decide_eq_true rfl, Bool.true_and] at hone
    exact Bool.eq_false_iff.mpr hone

end Steps

/-- The accounts of all clients of a system, and no event of a client that
is still to be constructed. -/
structure Accounts (t : BufferType) (es : List Event) (s : Sys) : Prop where
  /-- Every event belongs to a client. -/
  bounded : ∀ e ∈ es, e.client < s.clients.length
  /-- Every client has its account. -/
  account : ∀ c cl, s.client c = some cl → Account t c es s.pool cl

/-- An operation keeps the accounts when it keeps the one of its own client. -/
theorem Accounts.step {F : Framing UInt8} {t : BufferType} {s s' : Sys} {op : Op}
    {es gs : List Event} (h : Accounts t es s) (hi : Inv F s) (hs : Stepped F s op s' gs)
    (hown : ∀ c cl', op.client = some c → s'.client c = some cl' →
      Account t c (es ++ gs) s'.pool cl') : Accounts t (es ++ gs) s' := by
  have hle : s.clients.length ≤ s'.clients.length := by
    rcases hs.clients with ⟨last, curr, hnew⟩ | hlen
    · rw [hnew, List.length_append]
      exact Nat.le_add_right _ _
    · exact hlen.ge
  refine ⟨?_, ?_⟩
  · intro e he
    rcases List.mem_append.mp he with hold | hnew
    · exact Nat.lt_of_lt_of_le (h.bounded e hold) hle
    · exact Nat.lt_of_lt_of_le (hs.op_client_lt (hs.event_client e hnew)) hle
  · intro c cl' hc'
    by_cases hop : op.client = some c
    · exact hown c cl' hop hc'
    · have hg : ∀ e ∈ gs, e.client ≠ c := fun e he hec =>
        hop (hec ▸ hs.event_client e he)
      by_cases hlt : c < s.clients.length
      · have hc : s.client c = some cl' := (hs.client_other hop hlt).symm.trans hc'
        refine (h.account c cl' hc).quiet (fun e he => quiet_of_client (hg e he)) rfl
          (fun q hq => ?_) fun _ => rfl
        exact hs.load_other hi hc hop q (List.mem_cons_of_mem _ (List.mem_cons_of_mem _ hq))
      · refine account_new (fun e he => ?_) (hs.client_new (Nat.le_of_not_lt hlt) hc')
        rcases List.mem_append.mp he with hold | hnew
        · exact fun hec => hlt (hec ▸ h.bounded e hold)
        · exact hg e hnew

/-- An operation of a client keeps the accounts when it keeps the one of that
client. -/
theorem Accounts.own {F : Framing UInt8} {t : BufferType} {s : Sys} {op : Op}
    {es gs : List Event} {c : ℕ} {cl cl' : UartClient} {p' : SDHWPacketBuffer} {held' : List ℕ}
    (h : Accounts t es s) (hi : Inv F s) (hc : s.client c = some cl)
    (hs : Stepped F s op ⟨p', s.clients.set c (some cl'), held'⟩ gs) (hop : op.client = some c)
    (ha : Account t c (es ++ gs) p' cl') :
    Accounts t (es ++ gs) ⟨p', s.clients.set c (some cl'), held'⟩ := by
  refine h.step hi hs fun c' x hop' hc' => ?_
  rw [hop] at hop'
  cases hop'
  rw [client_set (lt_of_client hc), if_pos rfl] at hc'
  cases hc'
  exact ha

/-- Every allowed operation keeps the accounts. -/
theorem Stepped.accounts {F : Framing UInt8} {t : BufferType} {s s' : Sys} {op : Op}
    {es gs : List Event} (hs : Stepped F s op s' gs) (ht : s.pool.mType = t) (hi : Inv F s)
    (h : Accounts t es s) : Accounts t (es ++ gs) s' := by
  induction hs generalizing es with
  | construct h₁ h₂ => exact h.step hi (Stepped.construct h₁ h₂) fun c cl' hop => by cases hop
  | obtain ho => exact h.step hi (Stepped.obtain ho) fun c cl' hop => by cases hop
  | fill hbd hb => exact h.step hi (Stepped.fill hbd hb) fun c cl' hop => by cases hop
  | recycle hbd => exact h.step hi (Stepped.recycle hbd) fun c cl' hop => by cases hop
  | @destroy s c cl hc =>
    refine h.step hi (Stepped.destroy hc) fun c' cl' hop hc' => ?_
    cases hop
    rw [client_set (lt_of_client hc), if_pos rfl] at hc'
    cases hc'
  | @status s c cl hc isConn =>
    have ha : Account t c (es ++ []) s.pool {cl with isConn := isConn} :=
      (h.account c cl hc).quiet (fun e he => by cases he) rfl (fun _ _ => rfl) fun _ => rfl
    exact h.own hi hc (Stepped.status hc isConn) rfl ha
  | @setProductCallback s c cl hc cb =>
    have ha : Account t c (es ++ []) s.pool {cl with mCallbackFunc := cb} :=
      (h.account c cl hc).quiet (fun e he => by cases he) rfl (fun _ _ => rfl) fun _ => rfl
    exact h.own hi hc (Stepped.setProductCallback hc cb) rfl ha
  | @send s c bd cl cl' b p r hc hbd hb hcode hsent =>
    exact h.own hi hc (Stepped.send hc hbd hb hcode hsent) rfl
      ((h.account c cl hc).sent hi hc hbd hb hsent)
  | send2MCU h₁ h₂ h₃ ih₁ ih₂ ih₃ =>
    have ha₁ := ih₁ ht hi h
    have hi₁ := h₁.inv hi
    have ha₂ := ih₂ (h₁.mType.trans ht) hi₁ ha₁
    have ha₃ := ih₃ (h₂.mType.trans (h₁.mType.trans ht)) (h₂.inv hi₁) ha₂
    rw [List.append_nil, List.append_nil] at ha₃
    exact ha₃
  | @onTick s c cl cl' nowTick p out hc htick =>
    exact h.own hi hc (Stepped.onTick hc htick) rfl ((h.account c cl hc).ticked ht hi hc htick)
  | @onUartData s c cl cl' clock buf p gs hc hf =>
    have hst : Stepped F s (.onUartData c clock buf) _ _ := Stepped.onUartData hc hf
    exact h.own hi hc hst rfl ((h.account c cl hc).fed hi hc hf)

/-- The accounts hold in every state that clients and callers can reach. -/
theorem run_accounts {F : Framing UInt8} {t : BufferType} (hF : framing t = some F) {s : Sys}
    {es : List Event} (hr : Run (empty t) es s) : Accounts t es s := by
  have hi := empty_inv hF
  induction hr with
  | start => exact ⟨fun e he => (by cases he), fun c cl hc => (by cases hc)⟩
  | step op hr ha hs ih =>
    have hinv := hr.inv hi
    exact Stepped.accounts (stepped_of_step hinv ha hs) (hr.mType hi) hinv ih

/-- In every run the packets a client has transmitted are the packets it has
accepted, in the same order and once each, apart from those still in its
queue, and transmissions are at least 100 ms apart unless a received packet
was dispatched between them. -/
theorem transmits_accepted_in_order {t : BufferType} (ht : t = .mcu ∨ t = .tuyaMcu) {s : Sys}
    {es : List Event} (hr : Run (empty t) es s) {c : ℕ} {cl : UartClient}
    (hc : s.client c = some cl) :
    (∃ sent waiting, es.filterMap (acceptedBy c) = sent ++ waiting ∧
      List.Forall₂ (SentAs t) sent (es.filterMap (transmittedBy c)) ∧
      waiting.map Prod.fst = cl.mSendQueue ∧ ∀ x ∈ waiting, s.pool.load x.1 = some x.2) ∧
      ∀ a l b t₁ t₂ bd₁ bd₂ f₁ f₂,
        es = a ++ .transmitted c t₁ bd₁ f₁ :: l ++ .transmitted c t₂ bd₂ f₂ :: b →
        (∀ e ∈ l, transmissionTime c e = none ∧ dispatches c e = false) → 100 ≤ t₂ - t₁ := by
  obtain ⟨F, hF⟩ := framing_exists ht
  have h := (run_accounts hF hr).account c cl hc
  refine ⟨?_, ?_⟩
  · obtain ⟨waiting, ⟨sent, hacc, hsent⟩, hw, hload⟩ := h.fifo
    exact ⟨sent, waiting, hacc, hsent, hw, hload⟩
  · intro a l b t₁ t₂ bd₁ bd₂ f₁ f₂ he hl
    have hs := h.spaced
    rw [he] at hs
    have h₁ : transmissionTime c (.transmitted c t₁ bd₁ f₁) = some t₁ := if_pos rfl
    have h₂ : transmissionTime c (.transmitted c t₂ bd₂ f₂) = some t₂ := if_pos rfl
    exact hs.pair h₁ h₂ hl

/-- A new module packet with a command. -/
def queryPacket : BuffData :=
  {allocate .tuyaMcu with
    buf := (allocate .tuyaMcu).buf.set 3 7
    buf_length := by rw [List.length_set]; exact (allocate .tuyaMcu).buf_length}

/-- Two module packets are accepted; the second one waits for its time. -/
theorem transmits_accepted_in_order_module :
    ∃ (s : Sys) (es : List Event) (cl : UartClient), s.client 0 = some cl ∧ cl.mSendQueue = [] ∧
      es = [.sendResult 0 2 (allocate .tuyaMcu) 0, .sendResult 0 3 queryPacket 0,
        .transmitted 0 5000 2 [0x55, 0xaa, 0x03, 0, 0, 0, 0x02],
        .transmitted 0 5150 3 [0x55, 0xaa, 0x03, 7, 0, 0, 0x09]] ∧
      (∃ sent waiting, es.filterMap (acceptedBy 0) = sent ++ waiting ∧
        List.Forall₂ (SentAs .tuyaMcu) sent (es.filterMap (transmittedBy 0)) ∧
        waiting.map Prod.fst = cl.mSendQueue ∧ ∀ x ∈ waiting, s.pool.load x.1 = some x.2) ∧
      ∀ a l b t₁ t₂ bd₁ bd₂ f₁ f₂,
        es = a ++ .transmitted 0 t₁ bd₁ f₁ :: l ++ .transmitted 0 t₂ bd₂ f₂ :: b →
        (∀ e ∈ l, transmissionTime 0 e = none ∧ dispatches 0 e = false) → 100 ≤ t₂ - t₁ := by
  have hopen := Run.step (.status 0 true)
    (Run.step .construct (Run.start : Run (empty .tuyaMcu) [] _) trivial rfl) rfl rfl
  have hfirst := Run.step (.send 0 2) (Run.step .obtain hopen trivial rfl)
    ⟨rfl, List.mem_cons_self, _, rfl, by decide⟩ rfl
  have hfilled := Run.step (.fill 3 queryPacket) (Run.step .obtain hfirst trivial rfl)
    ⟨List.mem_cons_self, ⟨rfl, rfl, Nat.zero_le _⟩⟩ rfl
  have hsecond := Run.step (.send 0 3) hfilled ⟨rfl, List.mem_cons_self, _, rfl, by decide⟩ rfl
  have hticks := Run.step (.onTick 0 5150) (Run.step (.onTick 0 5050)
    (Run.step (.onTick 0 5000) hsecond rfl rfl) rfl rfl) rfl rfl
  exact ⟨_, _, _, rfl, rfl, rfl, transmits_accepted_in_order (Or.inr rfl) hticks rfl⟩

end CdroidDemo.UartTransmission
