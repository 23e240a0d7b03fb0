import CdroidDemo.ConnMgr
import CdroidDemo.LinearOwnership

/-!
# Who owns the packet buffers

Any number of serial clients and callers share one packet buffer. Callers
obtain buffers, fill the ones they hold, recycle them or send them; every
operation of a client moves buffers between its queue, its receive buffers
and the free list. Ownership stays linear, so no operation ever meets a
buffer that somebody else is using.
-/

namespace CdroidDemo.BufferOwnership

open HeaderResync FramedReceiver PacketMemory BuffData PacketBuffer BufferPool SerialClient
open ConnMgr UartReceiver LinearOwnership McuPackets SDHWPacketBuffer

/-- A packet buffer with the clients built on it and its callers. -/
structure Sys where
  /-- The pool. -/
  pool : SDHWPacketBuffer
  /-- The clients in the order of their construction, without the destroyed ones. -/
  clients : List (Option UartClient)
  /-- Buffers obtained by callers and not handed on yet. -/
  held : List ℕ

/-- The operations of clients and callers. -/
inductive Op
  /-- Construct a client. -/
  | construct
  /-- Destroy a client. -/
  | destroy (c : ℕ)
  /-- The serial port of a client opens or closes. -/
  | status (c : ℕ) (isConn : Bool)
  /-- `setProductCallback`. -/
  | setProductCallback (c : ℕ) (cb : Bool)
  /-- A caller obtains a buffer. -/
  | obtain
  /-- A caller fills a buffer it holds. -/
  | fill (bd : ℕ) (b : BuffData)
  /-- A caller recycles a buffer it holds. -/
  | recycle (bd : ℕ)
  /-- A caller sends a buffer it holds. -/
  | send (c bd : ℕ)
  /-- The connection manager sends its command. -/
  | send2MCU (c : ℕ) (mSndData : SndData)
  /-- A tick of a client. -/
  | onTick (c : ℕ) (nowTick : ℤ)
  /-- A client receives bytes. -/
  | onUartData (c : ℕ) (clock : ℕ → ℤ) (buf : List UInt8)

/-- The client an operation works on. -/
def Op.client : Op → Option ℕ
  | .destroy c | .status c _ | .setProductCallback c _ | .send c _ | .send2MCU c _ | .onTick c _
  | .onUartData c _ _ => some c
  | .construct | .obtain | .fill _ _ | .recycle _ => none

/-- What is seen of an operation. -/
inductive Event
  /-- `send` of a packet returned `r`. -/
  | sendResult (c bd : ℕ) (b : BuffData) (r : ℤ)
  /-- A packet was handed to `sendTrans`. -/
  | transmitted (c : ℕ) (nowTick : ℤ) (bd : ℕ) (frame : List UInt8)
  /-- A completed packet was received. -/
  | received (c : ℕ) (e : RecvEvent)

/-- The client an event belongs to. -/
def Event.client : Event → ℕ
  | .sendResult c _ _ _ | .transmitted c _ _ _ | .received c _ => c

namespace Sys

/-- Nothing allocated and no client. -/
def empty (t : BufferType) : Sys := ⟨⟨t, [], []⟩, [], []⟩

/-- The client constructed as number `c`, unless it is destroyed. -/
def client (s : Sys) (c : ℕ) : Option UartClient := (s.clients[c]?).join

/-- Perform an operation. -/
def step (s : Sys) : Op → Option (Sys × List Event)
  | .construct => do
    let (p, cl) ← UartClient.create s.pool
    return ({s with pool := p, clients := s.clients ++ [some cl]}, [])
  | .destroy c => do
    let p ← UartClient.destroy s.pool (← s.client c)
    return ({s with pool := p, clients := s.clients.set c none}, [])
  | .status c isConn => do
    let cl ← s.client c
    return ({s with clients := s.clients.set c (some {cl with isConn := isConn})}, [])
  | .setProductCallback c cb => do
    let cl ← s.client c
    return ({s with clients := s.clients.set c (some {cl with mCallbackFunc := cb})}, [])
  | .obtain => do
    let (p, bd) ← s.pool.obtain
    return ({s with pool := p, held := bd :: s.held}, [])
  | .fill bd b => do
    let p ← s.pool.store bd b
    return ({s with pool := p}, [])
  | .recycle bd => do
    let p ← s.pool.recycle bd
    return ({s with pool := p, held := s.held.erase bd}, [])
  | .send c bd => do
    let b ← s.pool.load bd
    let (p, cl, r) ← UartClient.send s.pool (← s.client c) bd
    return (⟨p, s.clients.set c (some cl), s.held.erase bd⟩, [.sendResult c bd b r])
  | .send2MCU c mSndData => do
    let (p, cl, bd, b, r) ← sendCommand s.pool (← s.client c) mSndData
    return ({s with pool := p, clients := s.clients.set c (some cl)}, [.sendResult c bd b r])
  | .onTick c nowTick => do
    let (p, cl, out) ← UartClient.onTick s.pool (← s.client c) nowTick
    return ({s with pool := p, clients := s.clients.set c (some cl)},
      (out.map fun x => Event.transmitted c nowTick x.1 x.2).toList)
  | .onUartData c clock buf => do
    let (p, cl, _, es) ← UartClient.onUartData s.pool (← s.client c) clock buf
    return ({s with pool := p, clients := s.clients.set c (some cl)}, es.map (Event.received c))

/-- What callers keep to: they name existing clients, touch and send buffers
they hold only, and send packets that can be completed. -/
def Allowed (s : Sys) : Op → Prop
  | .construct | .obtain => True
  | .destroy c | .status c _ | .setProductCallback c _ | .onTick c _ | .onUartData c _ _ =>
    (s.client c).isSome
  | .fill bd b => bd ∈ s.held ∧ Sized s.pool.mType b
  | .recycle bd => bd ∈ s.held
  | .send c bd => (s.client c).isSome ∧ bd ∈ s.held ∧
      ∃ b, s.pool.load bd = some b ∧ Codable s.pool.mType b
  | .send2MCU c _ => (s.client c).isSome ∧ s.pool.mType = .mcu

/-- A run of allowed operations with what is seen of it. -/
inductive Run (s₀ : Sys) : List Event → Sys → Prop
  /-- The run has not left its first state. -/
  | start : Run s₀ [] s₀
  /-- One more operation that is allowed. -/
  | step {s s' : Sys} {es gs : List Event} (op : Op) (h : Run s₀ es s) (ha : s.Allowed op)
      (hs : s.step op = some (s', gs)) : Run s₀ (es ++ gs) s'

/-! ## The account of all buffers -/

/-- What a client slot owns. -/
def ownedBy : Option UartClient → List ℕ
  | none => []
  | some cl => cl.owned

/-- Every place a buffer can be in: the free list, the hands of callers, and
the queues and receive buffers of the clients. -/
def places (s : Sys) : List ℕ := s.pool.mBuffs ++ (s.held ++ s.clients.flatMap ownedBy)

/-- The buffers are owned linearly, and those of the clients are in order. -/
structure Inv (F : Framing UInt8) (s : Sys) : Prop where
  /-- The packets have a framing. -/
  framed : framing s.pool.mType = some F
  /-- The pool is in order. -/
  pooled : s.pool.Pooled
  /-- Every pointer has one place. -/
  linear : Linear s.places s.pool.heap.length
  /-- Every client is in order. -/
  clients : ∀ c cl, s.client c = some cl → cl.Ok s.pool F

/-- The empty system keeps the account. -/
theorem empty_inv {t : BufferType} {F : Framing UInt8} (hF : framing t = some F) :
    Inv F (empty t) := by
  refine ⟨hF, ⟨?_, ?_⟩, linear_nil, ?_⟩
  · intro bd b h
    cases h
  · intro bd h
    cases h
  · intro c cl h
    cases h

/-- The slot of an existing client. -/
theorem client_eq {s : Sys} {c : ℕ} {cl : UartClient} (h : s.client c = some cl) :
    s.clients[c]? = some (some cl) := by
  unfold client at h
  cases hc : s.clients[c]? with
  | none =>
    rw [hc] at h
    cases h
  | some v =>
    rw [hc] at h
    cases v with
    | none => cases h
    | some x =>
      cases h
      rfl

/-- An existing client was constructed. -/
theorem lt_of_client {s : Sys} {c : ℕ} {cl : UartClient} (h : s.client c = some cl) :
    c < s.clients.length :=
  (List.getElem?_eq_some_iff.mp (client_eq h)).1

/-- The clients after one slot has been replaced. -/
theorem client_set {p : SDHWPacketBuffer} {l : List (Option UartClient)} {held : List ℕ}
    {c : ℕ} (hc : c < l.length) (v : Option UartClient) (c' : ℕ) :
    client ⟨p, l.set c v, held⟩ c' = if c' = c then v else (l[c']?).join := by
  unfold client
  by_cases h : c' = c
  · subst h
    rw [if_pos rfl, List.getElem?_set_self hc]
    rfl
  · rw [if_neg h, List.getElem?_set_ne (Ne.symm h)]

/-- Buffers of a client are in the account of the clients. -/
theorem mem_owned {s : Sys} {c q : ℕ} {cl : UartClient} (h : s.client c = some cl)
    (hq : q ∈ cl.owned) : q ∈ s.clients.flatMap ownedBy :=
  List.mem_flatMap.mpr ⟨some cl, List.mem_of_getElem? (client_eq h), hq⟩

/-- What a client owns is neither free nor held. -/
theorem Inv.apart {F : Framing UInt8} {s : Sys} (h : Inv F s) {q : ℕ}
    (hq : q ∈ s.clients.flatMap ownedBy) : q ∉ s.pool.mBuffs ∧ q ∉ s.held := by
  have hd := h.linear.disjoint
  have hd' := List.disjoint_of_nodup_append (List.Nodup.of_append_right h.linear.nodup)
  exact ⟨fun hf => hd hf (List.mem_append_right _ hq), fun hh => hd' hh hq⟩

/-- Two clients own different buffers. -/
theorem Inv.owned_disjoint {F : Framing UInt8} {s : Sys} (h : Inv F s) {c c' : ℕ}
    {cl cl' : UartClient} (hc : s.client c = some cl) (hc' : s.client c' = some cl')
    (hne : c ≠ c') : cl.owned.Disjoint cl'.owned := by
  have hn := List.Nodup.of_append_right (List.Nodup.of_append_right h.linear.nodup)
  have hp := (List.nodup_flatMap.mp hn).2
  obtain ⟨hlt, he⟩ := List.getElem?_eq_some_iff.mp (client_eq hc)
  obtain ⟨hlt', he'⟩ := List.getElem?_eq_some_iff.mp (client_eq hc')
  rcases Nat.lt_or_gt_of_ne hne with hl | hl
  · have := List.pairwise_iff_getElem.mp hp c c' hlt hlt' hl
    rw [he, he'] at this
    exact this
  · have := List.pairwise_iff_getElem.mp hp c' c hlt' hlt hl
    rw [he, he'] at this
    exact fun x hx hx' => this hx' hx

/-- A client owns each of its buffers once. -/
theorem Inv.owned_nodup {F : Framing UInt8} {s : Sys} (h : Inv F s) {c : ℕ} {cl : UartClient}
    (hc : s.client c = some cl) : cl.owned.Nodup := by
  have hn := List.Nodup.of_append_right (List.Nodup.of_append_right h.linear.nodup)
  exact (List.nodup_flatMap.mp hn).1 _ (List.mem_of_getElem? (client_eq hc))

/-- Every place holds allocated buffers only. -/
theorem Inv.lt {F : Framing UInt8} {s : Sys} (h : Inv F s) {q : ℕ} (hq : q ∈ s.places) :
    q < s.pool.heap.length :=
  h.linear.mem_iff.mp hq

/-- So do the callers, -/
theorem Inv.lt_held {F : Framing UInt8} {s : Sys} (h : Inv F s) {q : ℕ} (hq : q ∈ s.held) :
    q < s.pool.heap.length :=
  h.lt (List.mem_append_right _ (List.mem_append_left _ hq))

/-- and so does every client. -/
theorem Inv.lt_owned {F : Framing UInt8} {s : Sys} (h : Inv F s) {c q : ℕ} {cl : UartClient}
    (hc : s.client c = some cl) (hq : q ∈ cl.owned) : q < s.pool.heap.length :=
  h.lt (List.mem_append_right _ (List.mem_append_right _ (mem_owned hc hq)))

/-- A buffer in the hands of a caller belongs to no client. -/
theorem Inv.ne_held {F : Framing UInt8} {s : Sys} (h : Inv F s) {c q bd : ℕ} {cl : UartClient}
    (hc : s.client c = some cl) (hq : q ∈ cl.owned) (hbd : bd ∈ s.held) : q ≠ bd :=
  fun he => (h.apart (mem_owned hc hq)).2 (he ▸ hbd)

/-! ## What an operation does -/

/-- All that an allowed operation can do. Sending a command is obtaining a
buffer, filling it with the frame and sending it. -/
inductive Stepped (F : Framing UInt8) : Sys → Op → Sys → List Event → Prop
  /-- A client is created with two buffers from the pool. -/
  | construct {s : Sys} {p₁ p₂ : SDHWPacketBuffer} {last curr : ℕ}
      (h₁ : Obtained s.pool p₁ last) (h₂ : Obtained p₁ p₂ curr) :
      Stepped F s .construct
        ⟨p₂, s.clients ++ [some (UartClient.created last curr)], s.held⟩ []
  /-- A client gives its buffers back. -/
  | destroy {s : Sys} {c : ℕ} {cl : UartClient} (hc : s.client c = some cl) :
      Stepped F s (.destroy c)
        ⟨UartClient.recycledAll s.pool cl.owned, s.clients.set c none, s.held⟩ []
  /-- A client's connection changes. -/
  | status {s : Sys} {c : ℕ} {cl : UartClient} (hc : s.client c = some cl) (isConn : Bool) :
      Stepped F s (.status c isConn)
        ⟨s.pool, s.clients.set c (some {cl with isConn := isConn}), s.held⟩ []
  /-- A client's packets go to the other side. -/
  | setProductCallback {s : Sys} {c : ℕ} {cl : UartClient} (hc : s.client c = some cl)
      (cb : Bool) :
      Stepped F s (.setProductCallback c cb)
        ⟨s.pool, s.clients.set c (some {cl with mCallbackFunc := cb}), s.held⟩ []
  /-- A buffer is taken from the pool. -/
  | obtain {s : Sys} {p : SDHWPacketBuffer} {bd : ℕ} (h : Obtained s.pool p bd) :
      Stepped F s .obtain ⟨p, s.clients, bd :: s.held⟩ []
  /-- A buffer that is held is written. -/
  | fill {s : Sys} {bd : ℕ} {b : BuffData} (hbd : bd ∈ s.held) (hb : Sized s.pool.mType b) :
      Stepped F s (.fill bd b) ⟨s.pool.written bd b, s.clients, s.held⟩ []
  /-- A buffer that is held goes back to the pool. -/
  | recycle {s : Sys} {bd : ℕ} (hbd : bd ∈ s.held) :
      Stepped F s (.recycle bd) ⟨s.pool.recycled bd, s.clients, s.held.erase bd⟩ []
  /-- A buffer that is held is queued, or goes back to the pool. -/
  | send {s : Sys} {c bd : ℕ} {cl cl' : UartClient} {b : BuffData} {p : SDHWPacketBuffer} {r : ℤ}
      (hc : s.client c = some cl) (hbd : bd ∈ s.held) (hb : s.pool.load bd = some b)
      (hcode : Codable s.pool.mType b) (h : UartClient.Sent s.pool cl bd b p cl' r) :
      Stepped F s (.send c bd)
        ⟨p, s.clients.set c (some cl'), s.held.erase bd⟩ [.sendResult c bd b r]
  /-- The manager builds and sends a command. -/
  | send2MCU {s s₁ s₂ s₃ : Sys} {c bd : ℕ} {d : SndData} {es : List Event}
      (h₁ : Stepped F s .obtain s₁ []) (h₂ : Stepped F s₁ (.fill bd (framed d)) s₂ [])
      (h₃ : Stepped F s₂ (.send c bd) s₃ es) : Stepped F s (.send2MCU c d) s₃ es
  /-- A client may transmit its oldest packet. -/
  | onTick {s : Sys} {c : ℕ} {cl cl' : UartClient} {nowTick : ℤ} {p : SDHWPacketBuffer}
      {out : Option (ℕ × List UInt8)} (hc : s.client c = some cl)
      (h : UartClient.Ticked s.pool cl nowTick p cl' out) :
      Stepped F s (.onTick c nowTick) ⟨p, s.clients.set c (some cl'), s.held⟩
        (out.map fun x => Event.transmitted c nowTick x.1 x.2).toList
  /-- A client takes in bytes. -/
  | onUartData {s : Sys} {c : ℕ} {cl cl' : UartClient} {clock : ℕ → ℤ} {buf : List UInt8}
      {p : SDHWPacketBuffer} {es : List RecvEvent} (hc : s.client c = some cl)
      (h : UartClient.Fed s.pool F cl clock p cl' es) :
      Stepped F s (.onUartData c clock buf) ⟨p, s.clients.set c (some cl'), s.held⟩
        (es.map (Event.received c))

/-- Obtaining a buffer moves it from the free list, or the heap, to its holder. -/
theorem obtained_linear {p p' : SDHWPacketBuffer} {bd : ℕ} {rest : List ℕ}
    (h : Obtained p p' bd) (hl : Linear (p.mBuffs ++ rest) p.heap.length) :
    Linear (p'.mBuffs ++ bd :: rest) p'.heap.length := by
  cases h with
  | reused h =>
    rw [h] at hl
    exact hl.move List.perm_middle
  | allocated h =>
    rw [h, List.nil_append] at hl
    simp only [h, List.nil_append, List.length_append, List.length_singleton]
    exact hl.grow

/-- Obtaining frees nothing. -/
theorem obtained_length {p p' : SDHWPacketBuffer} {bd : ℕ} (h : Obtained p p' bd) :
    p.heap.length ≤ p'.heap.length := by
  cases h with
  | reused h => exact Nat.le_refl _
  | allocated h => simp only [List.length_append, Nat.le_add_right]

section Preservation

variable {F : Framing UInt8} {s : Sys}

/-- An operation of callers keeps the clients when it does not touch what
they own. -/
theorem Inv.callers (h : Inv F s) {p' : SDHWPacketBuffer} {held' : List ℕ}
    (ht : p'.mType = s.pool.mType) (hp : p'.Pooled)
    (hl : ∀ q ∈ s.clients.flatMap ownedBy, p'.load q = s.pool.load q)
    (hlin : Linear (p'.mBuffs ++ (held' ++ s.clients.flatMap ownedBy)) p'.heap.length) :
    Inv F ⟨p', s.clients, held'⟩ := by
  refine ⟨by rw [ht]; exact h.framed, hp, hlin, ?_⟩
  intro c cl hc
  exact (h.clients c cl hc).frame ht fun q hq => hl q (mem_owned hc hq)

/-- An operation on one client keeps the others when it touches only what
that client owns, what is held and what is free. -/
theorem Inv.replace (h : Inv F s) {c : ℕ} {cl : UartClient} (hc : s.client c = some cl)
    {p' : SDHWPacketBuffer} {held' : List ℕ} {v : Option UartClient}
    (ht : p'.mType = s.pool.mType) (hp : p'.Pooled)
    (hl : ∀ q, q ∉ s.pool.mBuffs → q ∉ s.held → q ∉ cl.owned → p'.load q = s.pool.load q)
    (hok : ∀ cl', v = some cl' → cl'.Ok p' F)
    (hlen : p'.heap.length = s.pool.heap.length)
    (hperm : (p'.mBuffs ++ (held' ++ ownedBy v)).Perm
      (s.pool.mBuffs ++ (s.held ++ cl.owned))) :
    Inv F ⟨p', s.clients.set c v, held'⟩ := by
  refine ⟨by rw [ht]; exact h.framed, hp, ?_, ?_⟩
  · have hset := flatMap_set_perm (f := ownedBy) (client_eq hc) v
    refine (hlen.symm ▸ h.linear).move (List.perm_iff_count.mpr fun q => ?_)
    have h₁ := hset.count_eq q
    have h₂ := hperm.count_eq q
    simp only [places, List.count_append, ownedBy] at h₁ h₂ ⊢
    omega
  · intro c' cl' hc'
    rw [client_set (lt_of_client hc)] at hc'
    split at hc'
    · exact hok cl' hc'
    · rename_i hne
      have hd := h.owned_disjoint hc hc' (Ne.symm hne)
      refine (h.clients c' cl' hc').frame ht fun q hq => ?_
      have ha := h.apart (mem_owned hc' hq)
      exact hl q ha.1 ha.2 fun hm => hd hm hq

/-- Changing fields of a client that own nothing. -/
theorem Inv.retag (h : Inv F s) {c : ℕ} {cl cl' : UartClient} (hc : s.client c = some cl)
    (hok : cl'.Ok s.pool F) (howned : cl'.owned = cl.owned) :
    Inv F ⟨s.pool, s.clients.set c (some cl'), s.held⟩ :=
  h.replace hc rfl h.pooled (fun _ _ _ _ => rfl) (fun _ he => Option.some.inj he ▸ hok) rfl
    (by simp only [ownedBy, howned, List.Perm.refl])

/-- An obtained buffer is with the caller. -/
theorem Inv.obtained (h : Inv F s) {p : SDHWPacketBuffer} {bd : ℕ} (ho : Obtained s.pool p bd) :
    Inv F ⟨p, s.clients, bd :: s.held⟩ :=
  h.callers ho.mType (ho.pooled h.pooled)
    (fun _ hq => ho.load_old (h.lt (List.mem_append_right _ (List.mem_append_right _ hq))))
    (obtained_linear ho h.linear)

/-- Filling moves no buffer. -/
theorem Inv.filled (h : Inv F s) {bd : ℕ} {b : BuffData} (hbd : bd ∈ s.held)
    (hb : Sized s.pool.mType b) : Inv F ⟨s.pool.written bd b, s.clients, s.held⟩ := by
  have hlt := h.lt_held hbd
  have hfree : bd ∉ s.pool.mBuffs := fun hm =>
    h.linear.disjoint hm (List.mem_append_left _ hbd)
  refine h.callers rfl (h.pooled.written hlt hfree hb) ?_ ?_
  · intro q hq
    have hne : q ≠ bd := fun he => (h.apart hq).2 (he ▸ hbd)
    rw [load_written hlt, if_neg hne]
  · rw [written_heap_length]
    exact h.linear

/-- A recycled buffer is free again. -/
theorem Inv.recycled (h : Inv F s) {bd : ℕ} (hbd : bd ∈ s.held) :
    Inv F ⟨s.pool.recycled bd, s.clients, s.held.erase bd⟩ := by
  have hlt := h.lt_held hbd
  refine h.callers rfl (h.pooled.recycled hlt) ?_ ?_
  · intro q hq
    have hne : q ≠ bd := fun he => (h.apart hq).2 (he ▸ hbd)
    rw [load_recycled hlt, if_neg hne]
  · rw [recycled_heap_length]
    refine h.linear.move (List.perm_iff_count.mpr fun q => ?_)
    have he := (List.perm_cons_erase hbd).count_eq q
    simp only [places, recycled_mBuffs, List.count_append, List.count_cons, List.count_nil] at he ⊢
    omega

/-- Whatever `send` returns, the buffer leaves the caller for one place. -/
theorem Inv.sent (h : Inv F s) {c bd : ℕ} {cl cl' : UartClient} {b : BuffData}
    {p : SDHWPacketBuffer} {r : ℤ} (hc : s.client c = some cl) (hbd : bd ∈ s.held)
    (hb : s.pool.load bd = some b) (hcode : Codable s.pool.mType b)
    (hs : UartClient.Sent s.pool cl bd b p cl' r) :
    Inv F ⟨p, s.clients.set c (some cl'), s.held.erase bd⟩ := by
  have hsame : s.clients.set c (some cl) = s.clients := by
    obtain ⟨hlt, he⟩ := List.getElem?_eq_some_iff.mp (client_eq hc)
    rw [← he, List.set_getElem_self]
  cases hs with
  | disconnected _ =>
    rw [hsame]
    exact h.recycled hbd
  | duplicate _ _ =>
    rw [hsame]
    exact h.recycled hbd
  | accepted _ _ =>
    have hok := h.clients c cl hc
    refine h.replace hc rfl h.pooled (fun _ _ _ _ => rfl) ?_ rfl ?_
    · intro cl' he
      cases he
      refine ⟨hok.distinct, hok.curr, hok.last, ?_⟩
      intro ask hask
      rcases List.mem_append.mp hask with hold | hnew
      · exact hok.queue ask hold
      · rw [List.mem_singleton.mp hnew]
        exact ⟨b, hb, hcode⟩
    · refine List.perm_iff_count.mpr fun q => ?_
      have he := (List.perm_cons_erase hbd).count_eq q
      simp only [ownedBy, UartClient.owned, List.count_append, List.count_cons,
        List.count_nil] at he ⊢
      omega

/-- The packet a tick sends goes from the queue to the free list. -/
theorem Inv.ticked (h : Inv F s) {c : ℕ} {cl cl' : UartClient} {nowTick : ℤ}
    {p : SDHWPacketBuffer} {out : Option (ℕ × List UInt8)} (hc : s.client c = some cl)
    (ht : UartClient.Ticked s.pool cl nowTick p cl' out) :
    Inv F ⟨p, s.clients.set c (some cl'), s.held⟩ := by
  have hok := h.clients c cl hc
  have hload : ∀ q, q ∉ cl.owned → p.load q = s.pool.load q := fun q hq => ht.load hq
  cases ht with
  | idle _ => exact h.retag hc hok rfl
  | @sent ask rest b b' hq _ hb _ =>
    have hlt := lt_of_load hb
    have hn := h.owned_nodup hc
    refine h.replace hc rfl (h.pooled.recycled hlt) (fun q _ _ hown => hload q hown) ?_
      (recycled_heap_length _ _) ?_
    · intro cl' he
      cases he
      have hrest : (cl.drained nowTick rest).Ok s.pool F :=
        ⟨hok.distinct, hok.curr, hok.last, fun a ha =>
          hok.queue a (by rw [hq]; exact List.mem_cons_of_mem ask ha)⟩
      refine hrest.frame rfl fun q hqm => ?_
      have hne : q ≠ ask := by
        intro he
        subst he
        simp only [UartClient.owned, UartClient.drained, hq, List.nodup_cons, List.mem_cons,
          not_or] at hn hqm
        rcases hqm with hl | hcu | hr
        · exact hn.1.2.1 hl.symm
        · exact hn.2.1.1 hcu.symm
        · exact hn.2.2.1 hr
      rw [load_recycled hlt, if_neg hne]
    · refine List.perm_iff_count.mpr fun q => ?_
      simp only [ownedBy, UartClient.owned, UartClient.drained, hq, recycled_mBuffs,
        List.count_append, List.count_cons, List.count_nil]
      omega

/-- Receiving moves no buffer. -/
theorem Inv.fed (h : Inv F s) {c : ℕ} {cl cl' : UartClient} {clock : ℕ → ℤ}
    {p : SDHWPacketBuffer} {es : List RecvEvent} (hc : s.client c = some cl)
    (hf : UartClient.Fed s.pool F cl clock p cl' es) :
    Inv F ⟨p, s.clients.set c (some cl'), s.held⟩ := by
  refine h.replace hc hf.mType hf.pooled (fun q _ _ hown => hf.load hown)
    (fun _ he => Option.some.inj he ▸ hf.ok) hf.heap ?_
  · obtain ⟨curr, last, s', -, -, -, rfl⟩ := hf.deals
    rw [hf.mBuffs]
    exact List.Perm.refl _

/-- A new client starts with two fresh buffers. -/
theorem Inv.constructed (h : Inv F s) {p₁ p₂ : SDHWPacketBuffer} {last curr : ℕ}
    (h₁ : Obtained s.pool p₁ last) (h₂ : Obtained p₁ p₂ curr) :
    Inv F ⟨p₂, s.clients ++ [some (UartClient.created last curr)], s.held⟩ := by
  have hi₁ := h.obtained h₁
  have hi₂ := hi₁.obtained h₂
  have hlin := hi₂.linear
  refine ⟨hi₂.framed, hi₂.pooled, ?_, ?_⟩
  · refine hlin.move (List.perm_iff_count.mpr fun q => ?_)
    simp only [places, List.flatMap_append, List.flatMap_cons, List.flatMap_nil, ownedBy,
      UartClient.owned, UartClient.created, List.count_append, List.count_cons, List.count_nil]
    omega
  · intro c cl hc
    by_cases hlt : c < s.clients.length
    · have hold : s.client c = some cl := by
        unfold client at hc ⊢
        rwa [List.getElem?_append_left hlt] at hc
      exact hi₂.clients c cl hold
    · have hnew : cl = UartClient.created last curr := by
        unfold client at hc
        rw [List.getElem?_append_right (by omega)] at hc
        cases hi : c - s.clients.length with
        | zero =>
          rw [hi] at hc
          cases hc
          rfl
        | succ i =>
          rw [hi] at hc
          cases hc
      have hload₁ := h₁.load h.pooled
      have hlt₁ := lt_of_load hload₁
      have hl := (h₂.load_old hlt₁).trans hload₁
      have hcu := h₂.load hi₁.pooled
      have hne : curr ≠ last := by
        have hn := List.Nodup.of_append_right hi₂.linear.nodup
        exact fun he => (List.nodup_cons.mp hn).1 (he ▸ List.mem_cons_self)
      subst hnew
      refine ⟨hne, ⟨_, hcu, Or.inl ?_, ?_⟩, ⟨_, hl⟩, fun a ha => by cases ha⟩
      · exact Nat.zero_le _
      · exact frameLen_nil F

/-- A destroyed client gives all its buffers back. -/
theorem Inv.destroyed (h : Inv F s) {c : ℕ} {cl : UartClient} (hc : s.client c = some cl) :
    Inv F ⟨UartClient.recycledAll s.pool cl.owned, s.clients.set c none, s.held⟩ := by
  have hlt : ∀ q ∈ cl.owned, q < s.pool.heap.length := fun q hq =>
    h.lt_owned hc hq
  refine h.replace hc (UartClient.recycledAll_mType _ _)
    (UartClient.destroy_eq h.pooled hlt).2 ?_ (fun _ he => by cases he)
    (UartClient.recycledAll_heap_length _ _) ?_
  · intro q _ _ hown
    exact UartClient.load_recycledAll hlt hown
  · refine List.perm_iff_count.mpr fun q => ?_
    simp only [UartClient.recycledAll_mBuffs, ownedBy, List.count_append, List.count_nil]
    omega

/-- Every allowed operation keeps the invariant. -/
theorem Stepped.inv {op : Op} {s' : Sys} {es : List Event} (hs : Stepped F s op s' es)
    (h : Inv F s) : Inv F s' := by
  induction hs with
  | construct h₁ h₂ => exact h.constructed h₁ h₂
  | destroy hc => exact h.destroyed hc
  | @status s c cl hc isConn =>
    have hok := h.clients c cl hc
    exact h.retag hc ⟨hok.distinct, hok.curr, hok.last, hok.queue⟩ rfl
  | @setProductCallback s c cl hc cb =>
    have hok := h.clients c cl hc
    exact h.retag hc ⟨hok.distinct, hok.curr, hok.last, hok.queue⟩ rfl
  | obtain ho => exact h.obtained ho
  | fill hbd hb => exact h.filled hbd hb
  | recycle hbd => exact h.recycled hbd
  | send hc hbd hb hcode hsent => exact h.sent hc hbd hb hcode hsent
  | send2MCU _ _ _ ih₁ ih₂ ih₃ => exact ih₃ (ih₂ (ih₁ h))
  | onTick hc ht => exact h.ticked hc ht
  | onUartData hc hf => exact h.fed hc hf

end Preservation

/-- Clients are added by construction only. -/
theorem Stepped.clients {F : Framing UInt8} {s s' : Sys} {op : Op} {es : List Event}
    (hs : Stepped F s op s' es) :
    (∃ last curr, s'.clients = s.clients ++ [some (UartClient.created last curr)]) ∨
      s'.clients.length = s.clients.length := by
  induction hs with
  | construct => exact Or.inl ⟨_, _, rfl⟩
  | destroy => exact Or.inr List.length_set
  | status => exact Or.inr List.length_set
  | setProductCallback => exact Or.inr List.length_set
  | obtain => exact Or.inr rfl
  | fill => exact Or.inr rfl
  | recycle => exact Or.inr rfl
  | send => exact Or.inr List.length_set
  | send2MCU h₁ h₂ h₃ _ _ _ =>
    cases h₁
    cases h₂
    cases h₃
    exact Or.inr List.length_set
  | onTick => exact Or.inr List.length_set
  | onUartData => exact Or.inr List.length_set

/-- An operation leaves the other clients as they are. -/
theorem Stepped.client_other {F : Framing UInt8} {s s' : Sys} {op : Op} {es : List Event}
    (hs : Stepped F s op s' es) {c : ℕ} (hop : op.client ≠ some c) (hlt : c < s.clients.length) :
    s'.client c = s.client c := by
  have hset : ∀ {s : Sys} {c' : ℕ} {x : UartClient} (p : SDHWPacketBuffer)
      (v : Option UartClient) (held : List ℕ), s.client c' = some x → some c' ≠ some c →
      client ⟨p, s.clients.set c' v, held⟩ c = s.client c := by
    intro s c' x p v held hx hne
    rw [client_set (lt_of_client hx), if_neg fun he => hne (congrArg some he.symm)]
    rfl
  induction hs with
  | construct =>
    unfold client
    rw [List.getElem?_append_left hlt]
  | destroy hc => exact hset _ _ _ hc hop
  | status hc => exact hset _ _ _ hc hop
  | setProductCallback hc => exact hset _ _ _ hc hop
  | obtain => rfl
  | fill => rfl
  | recycle => rfl
  | send hc => exact hset _ _ _ hc hop
  | send2MCU h₁ h₂ _ _ _ ih₃ =>
    cases h₁
    cases h₂
    exact ih₃ hop hlt
  | onTick hc => exact hset _ _ _ hc hop
  | onUartData hc => exact hset _ _ _ hc hop

/-- An operation leaves the buffers of the other clients as they are. -/
theorem Stepped.load_other {F : Framing UInt8} {s s' : Sys} {op : Op} {es : List Event}
    (hs : Stepped F s op s' es) (h : Inv F s) {c : ℕ} {cl : UartClient}
    (hc : s.client c = some cl) (hop : op.client ≠ some c) :
    ∀ q ∈ cl.owned, s'.pool.load q = s.pool.load q := by
  induction hs with
  | construct h₁ h₂ =>
    intro q hq
    have hlt := h.lt_owned hc hq
    rw [h₂.load_old (Nat.lt_of_lt_of_le hlt (obtained_length h₁)), h₁.load_old hlt]
  | destroy hc' =>
    intro q hq
    have hd := h.owned_disjoint hc hc' fun he => hop (congrArg some he.symm)
    exact UartClient.load_recycledAll (fun r hr => h.lt_owned hc' hr) fun hm => hd hq hm
  | status => exact fun q hq => rfl
  | setProductCallback => exact fun q hq => rfl
  | obtain ho =>
    intro q hq
    exact ho.load_old (h.lt_owned hc hq)
  | @fill s bd b hbd hb =>
    intro q hq
    have hne : q ≠ bd := h.ne_held hc hq hbd
    have hlt := h.lt_held hbd
    rw [load_written hlt, if_neg hne]
  | @recycle s bd hbd =>
    intro q hq
    have hne : q ≠ bd := h.ne_held hc hq hbd
    have hlt := h.lt_held hbd
    rw [load_recycled hlt, if_neg hne]
  | @send s c' bd cl₁ cl₂ b p r hc' hbd hb _ hsent =>
    intro q hq
    have hne : q ≠ bd := h.ne_held hc hq hbd
    exact hsent.load (lt_of_load hb) hne
  | send2MCU h₁ h₂ h₃ ih₁ ih₂ ih₃ =>
    have hi₁ := h₁.inv h
    have hlt := lt_of_client hc
    have hno : none ≠ some c := fun he => by cases he
    have hc₁ := (h₁.client_other hno hlt).trans hc
    have hc₂ := (h₂.client_other hno (lt_of_client hc₁)).trans hc₁
    intro q hq
    rw [ih₃ (h₂.inv hi₁) hc₂ hop q hq, ih₂ hi₁ hc₁ hno q hq, ih₁ h hc hno q hq]
  | onTick hc' ht =>
    have hd := h.owned_disjoint hc hc' fun he => hop (congrArg some he.symm)
    exact fun q hq => ht.load fun hm => hd hq hm
  | onUartData hc' hf =>
    have hd := h.owned_disjoint hc hc' fun he => hop (congrArg some he.symm)
    exact fun q hq => hf.load fun hm => hd hq hm

/-- A newly constructed client has sent nothing. -/
theorem Stepped.client_new {F : Framing UInt8} {s s' : Sys} {op : Op} {es : List Event}
    (hs : Stepped F s op s' es) {c : ℕ} {cl : UartClient} (hle : s.clients.length ≤ c)
    (hc : s'.client c = some cl) : cl.mSendQueue = [] := by
  have hlt := lt_of_client hc
  rcases hs.clients with ⟨last, curr, hnew⟩ | hlen
  · have hc' := client_eq hc
    rw [hnew, List.length_append, List.length_singleton] at hlt
    have hlast : c = s.clients.length := by omega
    rw [hnew, hlast, List.getElem?_concat_length] at hc'
    cases hc'
    rfl
  · omega

/-- Operations name existing clients. -/
theorem Stepped.op_client_lt {F : Framing UInt8} {s s' : Sys} {op : Op} {es : List Event}
    (hs : Stepped F s op s' es) {c : ℕ} (hop : op.client = some c) : c < s.clients.length := by
  induction hs with
  | construct => cases hop
  | destroy hc => cases hop; exact lt_of_client hc
  | status hc => cases hop; exact lt_of_client hc
  | setProductCallback hc => cases hop; exact lt_of_client hc
  | obtain => cases hop
  | fill => cases hop
  | recycle => cases hop
  | send hc => cases hop; exact lt_of_client hc
  | send2MCU h₁ h₂ _ _ _ ih₃ =>
    cases h₁
    cases h₂
    exact ih₃ hop
  | onTick hc => cases hop; exact lt_of_client hc
  | onUartData hc => cases hop; exact lt_of_client hc

/-- Only the client of the operation is seen. -/
theorem Stepped.event_client {F : Framing UInt8} {s s' : Sys} {op : Op} {es : List Event}
    (hs : Stepped F s op s' es) : ∀ e ∈ es, op.client = some e.client := by
  induction hs with
  | construct => simp
  | destroy => simp
  | status => simp
  | setProductCallback => simp
  | obtain => simp
  | fill => simp
  | recycle => simp
  | send => simp [Op.client, Event.client]
  | send2MCU _ _ _ _ _ ih₃ => exact ih₃
  | @onTick s c cl cl' nowTick p out hc ht =>
    cases out with
    | none => simp
    | some x => simp [Op.client, Event.client]
  | onUartData => simp [Op.client, Event.client]

/-- The packet type of the pool never changes. -/
theorem Stepped.mType {F : Framing UInt8} {s s' : Sys} {op : Op} {es : List Event}
    (hs : Stepped F s op s' es) : s'.pool.mType = s.pool.mType := by
  induction hs with
  | construct h₁ h₂ => exact h₂.mType.trans h₁.mType
  | destroy hc => exact UartClient.recycledAll_mType _ _
  | status hc isConn => rfl
  | setProductCallback hc cb => rfl
  | obtain ho => exact ho.mType
  | fill hbd hb => rfl
  | recycle hbd => rfl
  | send hc hbd hb hcode hsent => cases hsent <;> rfl
  | send2MCU _ _ _ ih₁ ih₂ ih₃ => exact ih₃.trans (ih₂.trans ih₁)
  | onTick hc ht => cases ht <;> rfl
  | onUartData hc hf => exact hf.mType

/-- Sending a command is obtaining a buffer, filling it with the frame and
sending it; it always succeeds. -/
theorem sendCommand_sent {F : Framing UInt8} {s : Sys} (h : Inv F s) {c : ℕ} {cl : UartClient}
    (hc : s.client c = some cl) (ht : s.pool.mType = .mcu) (d : SndData) :
    ∃ p bd p' cl' r, Obtained s.pool p bd ∧
      sendCommand s.pool cl d = some (p', cl', bd, framed d, r) ∧
      UartClient.Sent (p.written bd (framed d)) cl bd (framed d) p' cl' r ∧
      Stepped F s (.send2MCU c d) ⟨p', s.clients.set c (some cl'), s.held⟩
        [.sendResult c bd (framed d) r] := by
  obtain ⟨p, bd, hobt, hob⟩ := obtain_obtained h.pooled
  have ht' : p.mType = .mcu := hob.mType.trans ht
  have hload := hob.load h.pooled
  rw [ht] at hload
  have hlt := lt_of_load hload
  have hbd : bd ∈ bd :: s.held := List.mem_cons_self
  have h₁ : Stepped F s .obtain ⟨p, s.clients, bd :: s.held⟩ [] := Stepped.obtain hob
  have hsize : Sized p.mType (framed d) := ht' ▸ framed_sized d
  have h₂ : Stepped F ⟨p, s.clients, bd :: s.held⟩ (.fill bd (framed d))
      ⟨p.written bd (framed d), s.clients, bd :: s.held⟩ [] := Stepped.fill hbd hsize
  have hi := h₂.inv (h₁.inv h)
  have hb : (p.written bd (framed d)).load bd = some (framed d) := by
    rw [load_written hlt, if_pos rfl]
  obtain ⟨p', cl', r, hsend, hsent⟩ := UartClient.send_sent hi.pooled (hi.clients c cl hc) hb
  have hcode : Codable (p.written bd (framed d)).mType (framed d) := by
    rw [written_mType, ht']
    exact framed_codable d
  have h₃ := Stepped.send (F := F) (s := ⟨p.written bd (framed d), s.clients, bd :: s.held⟩)
    hc hbd hb hcode hsent
  rw [List.erase_cons_head] at h₃
  refine ⟨p, bd, p', cl', r, hob, ?_, hsent, Stepped.send2MCU h₁ h₂ h₃⟩
  simp only [sendCommand, hobt, hload, buildFrame_eq, store_eq_some hlt, hsend,
    Option.bind_eq_bind, Option.bind_some, Option.pure_def]

/-- A client that owns its buffers can always receive. -/
theorem Inv.receives {F : Framing UInt8} {s : Sys} (h : Inv F s) {c : ℕ} {cl : UartClient}
    (hc : s.client c = some cl) (clock : ℕ → ℤ) (buf : List UInt8) :
    ∃ p cl' offset es, UartClient.onUartData s.pool cl clock buf = some (p, cl', offset, es) ∧
      UartClient.Fed s.pool F cl clock p cl' es := by
  have hn := h.owned_nodup hc
  simp only [UartClient.owned, List.nodup_cons, List.mem_cons, not_or] at hn
  have hl := h.apart (mem_owned hc List.mem_cons_self)
  have hcu := h.apart (mem_owned hc (List.mem_cons_of_mem _ List.mem_cons_self))
  exact UartClient.onUartData_fed h.framed h.pooled (h.clients c cl hc) ⟨hcu.1, hl.1⟩
    ⟨hn.2.1, hn.1.2⟩ clock buf

/-- Every allowed operation succeeds. -/
theorem step_stepped {F : Framing UInt8} {s : Sys} (h : Inv F s) {op : Op} (ha : s.Allowed op) :
    ∃ s' es, s.step op = some (s', es) ∧ Stepped F s op s' es := by
  cases op with
  | construct =>
    obtain ⟨p₁, p₂, last, curr, h₁, h₂, hcreate⟩ := UartClient.create_eq h.pooled
    refine ⟨_, _, ?_, Stepped.construct h₁ h₂⟩
    simp only [step, hcreate, Option.bind_eq_bind, Option.bind_some, Option.pure_def]
  | destroy c =>
    obtain ⟨cl, hc⟩ := Option.isSome_iff_exists.mp ha
    have hlt : ∀ q ∈ cl.owned, q < s.pool.heap.length := fun q hq =>
      h.lt_owned hc hq
    have hd := (UartClient.destroy_eq h.pooled hlt).1
    refine ⟨_, _, ?_, Stepped.destroy hc⟩
    simp only [step, hc, hd, Option.bind_eq_bind, Option.bind_some, Option.pure_def]
  | status c isConn =>
    obtain ⟨cl, hc⟩ := Option.isSome_iff_exists.mp ha
    refine ⟨_, _, ?_, Stepped.status hc isConn⟩
    simp only [step, hc, Option.bind_eq_bind, Option.bind_some, Option.pure_def]
  | setProductCallback c cb =>
    obtain ⟨cl, hc⟩ := Option.isSome_iff_exists.mp ha
    refine ⟨_, _, ?_, Stepped.setProductCallback hc cb⟩
    simp only [step, hc, Option.bind_eq_bind, Option.bind_some, Option.pure_def]
  | obtain =>
    obtain ⟨p, bd, hobt, hob⟩ := obtain_obtained h.pooled
    refine ⟨_, _, ?_, Stepped.obtain hob⟩
    simp only [step, hobt, Option.bind_eq_bind, Option.bind_some, Option.pure_def]
  | fill bd b =>
    have hlt := h.lt_held ha.1
    refine ⟨_, _, ?_, Stepped.fill ha.1 ha.2⟩
    simp only [step, store_eq_some hlt, Option.bind_eq_bind, Option.bind_some, Option.pure_def]
  | recycle bd =>
    have hlt := h.lt_held ha
    have hload := load_eq_some hlt
    have hrec := recycle_eq hload (h.pooled.sized bd _ hload)
    refine ⟨_, _, ?_, Stepped.recycle ha⟩
    simp only [step, hrec, Option.bind_eq_bind, Option.bind_some, Option.pure_def]
  | send c bd =>
    obtain ⟨hc, hbd, b, hb, hcode⟩ := ha
    obtain ⟨cl, hc⟩ := Option.isSome_iff_exists.mp hc
    obtain ⟨p, cl', r, hsend, hsent⟩ := UartClient.send_sent h.pooled (h.clients c cl hc) hb
    refine ⟨_, _, ?_, Stepped.send hc hbd hb hcode hsent⟩
    simp only [step, hc, hb, hsend, Option.bind_eq_bind, Option.bind_some, Option.pure_def]
  | send2MCU c d =>
    obtain ⟨cl, hc⟩ := Option.isSome_iff_exists.mp ha.1
    obtain ⟨p, bd, p', cl', r, -, hcmd, -, hst⟩ := sendCommand_sent h hc ha.2 d
    refine ⟨_, _, ?_, hst⟩
    simp only [step, hc, hcmd, Option.bind_eq_bind, Option.bind_some, Option.pure_def]
  | onTick c nowTick =>
    obtain ⟨cl, hc⟩ := Option.isSome_iff_exists.mp ha
    obtain ⟨p, cl', out, htick, ht⟩ := UartClient.onTick_ticked h.pooled (h.clients c cl hc) nowTick
    refine ⟨_, _, ?_, Stepped.onTick hc ht⟩
    simp only [step, hc, htick, Option.bind_eq_bind, Option.bind_some, Option.pure_def]
  | onUartData c clock buf =>
    obtain ⟨cl, hc⟩ := Option.isSome_iff_exists.mp ha
    obtain ⟨p, cl', offset, es, hdata, hf⟩ := h.receives hc clock buf
    refine ⟨_, _, ?_, Stepped.onUartData hc hf⟩
    simp only [step, hc, hdata, Option.bind_eq_bind, Option.bind_some, Option.pure_def]

/-- What an allowed operation returns is one of the things it can do. -/
theorem stepped_of_step {F : Framing UInt8} {s s' : Sys} (h : Inv F s) {op : Op}
    {es : List Event} (ha : s.Allowed op) (hs : s.step op = some (s', es)) :
    Stepped F s op s' es := by
  obtain ⟨s₁, es₁, h₁, hst⟩ := step_stepped h ha
  rw [h₁] at hs
  cases hs
  exact hst

/-- The invariant holds in every state of a run. -/
theorem Run.inv {F : Framing UInt8} {s₀ s : Sys} {es : List Event} (hr : Run s₀ es s)
    (h : Inv F s₀) : Inv F s := by
  induction hr with
  | start => exact h
  | step op _ ha hs ih => exact (stepped_of_step ih ha hs).inv ih

/-- The packet type never changes. -/
theorem Run.mType {F : Framing UInt8} {s₀ s : Sys} {es : List Event} (hr : Run s₀ es s)
    (h : Inv F s₀) : s.pool.mType = s₀.pool.mType := by
  induction hr with
  | start => rfl
  | step op hr ha hs ih => exact (stepped_of_step (hr.inv h) ha hs).mType.trans ih

/-- In every state that clients and callers can reach, each buffer ever
allocated is in exactly one place, no operation fails, and a buffer that
`obtain` returns is nobody else's, empty, of full size and all zero. -/
theorem buffers_owned_linearly {t : BufferType} (ht : t = .mcu ∨ t = .tuyaMcu) {s : Sys}
    {es : List Event} (h : Run (empty t) es s) :
    (∀ bd, bd < s.pool.heap.length → s.places.count bd = 1) ∧
      (∀ bd ∈ s.places, bd < s.pool.heap.length) ∧
      (∀ op, s.Allowed op → ∃ s' gs, s.step op = some (s', gs)) ∧
      ∃ p bd b, s.pool.obtain = some (p, bd) ∧ bd ∉ s.held ∧
        (∀ c cl, s.client c = some cl → bd ∉ cl.owned) ∧ p.load bd = some b ∧
        b.len = 0 ∧ b.slen = bufLen t ∧ b.buf = List.replicate (bufLen t) 0 := by
  obtain ⟨F, hF⟩ := framing_exists ht
  have hi := h.inv (empty_inv hF)
  have htype : s.pool.mType = t := h.mType (empty_inv hF)
  refine ⟨fun bd hbd => hi.linear.count hbd, fun bd hbd => hi.lt hbd, ?_, ?_⟩
  · intro op ha
    obtain ⟨s', gs, hs, -⟩ := step_stepped hi ha
    exact ⟨s', gs, hs⟩
  · obtain ⟨p, bd, hobt, ho⟩ := obtain_obtained hi.pooled
    have hio := hi.obtained ho
    have hn := List.Nodup.of_append_right hio.linear.nodup
    have hnew := (List.nodup_cons.mp hn).1
    have hload := ho.load hi.pooled
    rw [htype] at hload
    refine ⟨p, bd, _, hobt, fun hm => hnew (List.mem_append_left _ hm), ?_, hload, rfl, rfl, rfl⟩
    intro c cl hc hm
    exact hnew (List.mem_append_right _ (mem_owned hc hm))

/-- One client and one buffer obtained by a caller: three buffers, each in one
place. -/
theorem buffers_owned_linearly_obtained :
    let s : Sys := ⟨⟨.mcu, List.replicate 3 (allocate .mcu), []⟩,
      [some (UartClient.created 0 1)], [2]⟩
    (∀ bd, bd < s.pool.heap.length → s.places.count bd = 1) ∧
      (∀ bd ∈ s.places, bd < s.pool.heap.length) ∧
      (∀ op, s.Allowed op → ∃ s' gs, s.step op = some (s', gs)) ∧
      ∃ p bd b, s.pool.obtain = some (p, bd) ∧ bd ∉ s.held ∧
        (∀ c cl, s.client c = some cl → bd ∉ cl.owned) ∧ p.load bd = some b ∧
        b.len = 0 ∧ b.slen = 32 ∧ b.buf = List.replicate 32 0 :=
  buffers_owned_linearly (Or.inl rfl)
    (Run.step .obtain (Run.step .construct Run.start trivial rfl) trivial rfl)

end Sys

end CdroidDemo.BufferOwnership
