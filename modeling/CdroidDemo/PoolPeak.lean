import CdroidDemo.BufferOwnership
import CdroidDemo.StepRuns

/-!
# How much the pool allocates

`obtain` allocates only when no buffer is free, and buffers are never given
back to the heap. Over any run the pool allocates exactly as many buffers as
were in use at once at some moment.
-/

namespace CdroidDemo.PoolPeak

open FramedReceiver PacketMemory PacketBuffer BufferPool SerialClient BufferOwnership
open SDHWPacketBuffer StepRuns
open BufferOwnership.Sys (Inv Stepped ownedBy places step_stepped empty_inv)

/-- Buffers in the hands of callers and clients. -/
def inUse (s : Sys) : ℕ := s.held.length + (s.clients.flatMap ownedBy).length

/-- What is in use at most before an operation ends; only `send2MCU` obtains a
buffer that it may have given back by then. -/
def usedDuring (s : Sys) : Op → ℕ
  | .send2MCU _ _ => inUse s + 1
  | _ => inUse s

/-- The state behind an operation. -/
def stepTo (s : Sys) (op : Op) : Option Sys := (s.step op).map Prod.fst

/-- The most that is in use at once during some operations. -/
def peak (s : Sys) : List Op → ℕ
  | [] => inUse s
  | op :: ops => max (usedDuring s op) ((stepTo s op).elim 0 fun s' => peak s' ops)

variable {F : Framing UInt8} {s s' : Sys}

/-- Every allocated buffer is free or in use. -/
theorem heap_eq (h : Inv F s) : s.pool.heap.length = s.pool.mBuffs.length + inUse s := by
  have hlen := h.linear.length_eq
  rw [List.length_range, places, List.length_append, List.length_append] at hlen
  exact hlen.symm

/-- A buffer is allocated exactly when all of them are in use. -/
theorem obtained_heap (h : Inv F s) {p : SDHWPacketBuffer} {bd : ℕ} (ho : Obtained s.pool p bd) :
    p.heap.length = max s.pool.heap.length (inUse s + 1) := by
  have hheap := heap_eq h
  cases ho with
  | reused hb =>
    rw [hb, List.length_cons] at hheap
    have hle : inUse s + 1 ≤ s.pool.heap.length := by omega
    exact (Nat.max_eq_left hle).symm
  | allocated hb =>
    rw [hb, List.length_nil, Nat.zero_add] at hheap
    rw [List.length_append, List.length_singleton, hheap]
    exact (Nat.max_eq_right (Nat.le_succ _)).symm

/-- An operation that allocates nothing. -/
theorem peak_of_same (h : Inv F s) (h' : Inv F s')
    (hheap : s'.pool.heap.length = s.pool.heap.length) :
    s'.pool.heap.length = max s.pool.heap.length (max (inUse s) (inUse s')) := by
  have hs := heap_eq h
  have hs' := heap_eq h'
  omega

/-- A transmission allocates nothing. -/
theorem sent_heap {p p' : SDHWPacketBuffer} {c c' : UartClient} {ask : ℕ}
    {b : BuffData} {r : ℤ} (h : UartClient.Sent p c ask b p' c' r) :
    p'.heap.length = p.heap.length := by
  cases h with
  | disconnected _ => exact recycled_heap_length p ask
  | duplicate _ _ => exact recycled_heap_length p ask
  | accepted _ _ => rfl

/-- One operation. -/
theorem Stepped.heap {op : Op} {es : List Event} (hs : Stepped F s op s' es) (h : Inv F s) :
    s'.pool.heap.length = max s.pool.heap.length (max (usedDuring s op) (inUse s')) := by
  have h' := hs.inv h
  cases hs with
  | @construct _ p₁ p₂ last curr h₁ h₂ =>
    have hi₁ := h.obtained h₁
    have hp₁ := obtained_heap h h₁
    have hp₂ := obtained_heap hi₁ h₂
    have hcount : inUse ⟨p₂, s.clients ++ [some (UartClient.created last curr)], s.held⟩ =
        inUse s + 2 := by
      simp only [inUse, List.flatMap_append, List.flatMap_singleton, ownedBy, UartClient.owned,
        UartClient.created, List.length_append, List.length_cons, List.length_nil]
      omega
    have hcount₁ : inUse ⟨p₁, s.clients, last :: s.held⟩ = inUse s + 1 := by
      simp only [inUse, List.length_cons]
      omega
    have hused : usedDuring s .construct = inUse s := rfl
    rw [hcount, hused]
    dsimp only at hp₂ ⊢
    omega
  | destroy hc => exact peak_of_same h h' (UartClient.recycledAll_heap_length _ _)
  | status hc isConn => exact peak_of_same h h' rfl
  | setProductCallback hc cb => exact peak_of_same h h' rfl
  | @obtain _ p bd ho =>
    have hp := obtained_heap h ho
    have hcount : inUse ⟨p, s.clients, bd :: s.held⟩ = inUse s + 1 := by
      simp only [inUse, List.length_cons]
      omega
    have hused : usedDuring s .obtain = inUse s := rfl
    rw [hcount, hused]
    dsimp only
    omega
  | fill hbd hb => exact peak_of_same h h' (written_heap_length _ _ _)
  | recycle hbd => exact peak_of_same h h' (recycled_heap_length _ _)
  | send hc hbd hb hcode hsent => exact peak_of_same h h' (sent_heap hsent)
  | send2MCU h₁ h₂ h₃ =>
    have hle := heap_eq h'
    cases h₁ with
    | obtain ho =>
      have hp := obtained_heap h ho
      cases h₂ with
      | fill hbd hb =>
        cases h₃ with
        | send hc hbd' hb' hcode hsent =>
          have hheap := sent_heap hsent
          rw [written_heap_length] at hheap
          rw [usedDuring]
          dsimp only at hp hheap hle ⊢
          omega
  | onTick hc ht =>
    refine peak_of_same h h' ?_
    cases ht with
    | idle _ => rfl
    | sent _ _ _ _ => exact recycled_heap_length _ _
  | onUartData hc hf => exact peak_of_same h h' hf.heap

/-- Runs from any state in order. -/
theorem heap_eq_peak (h : Inv F s) {ops : List Op} (ha : Allowed stepTo Sys.Allowed s ops) :
    ∃ s', run stepTo s ops = some s' ∧ Inv F s' ∧
      s'.pool.heap.length = max s.pool.heap.length (peak s ops) := by
  induction ops generalizing s with
  | nil =>
    have hheap := heap_eq h
    refine ⟨s, rfl, h, ?_⟩
    rw [peak]
    omega
  | cons op ops ih =>
    obtain ⟨s₁, es, hstep, hst⟩ := step_stepped h ha.1
    have hto : stepTo s op = some s₁ := by rw [stepTo, hstep]; rfl
    have hi := hst.inv h
    obtain ⟨s', hrun, hi', hheap⟩ := ih hi (ha.2 s₁ hto)
    refine ⟨s', (run_cons hto).trans hrun, hi', ?_⟩
    have hone := Stepped.heap hst h
    have hmono : inUse s₁ ≤ peak s₁ ops := by
      cases ops with
      | nil => exact Nat.le_refl _
      | cons op' ops' =>
        have hle : inUse s₁ ≤ usedDuring s₁ op' := by
          cases op' <;> simp only [usedDuring, Nat.le_refl, Nat.le_add_right]
        exact hle.trans (Nat.le_max_left _ _)
    rw [hheap, hone, peak, hto, Option.elim_some]
    omega

/-- Behind any allowed operations the pool has allocated exactly as many
buffers as were in use at once, and what is not in use now is free. -/
theorem pool_allocates_its_peak {t : BufferType} (ht : t = .mcu ∨ t = .tuyaMcu) {ops : List Op}
    (ha : Allowed stepTo Sys.Allowed (Sys.empty t) ops) :
    ∃ s, run stepTo (Sys.empty t) ops = some s ∧
      s.pool.heap.length = peak (Sys.empty t) ops ∧
      s.pool.mBuffs.length + inUse s = peak (Sys.empty t) ops := by
  obtain ⟨F, hF⟩ := framing_exists ht
  obtain ⟨s, hrun, hi, hheap⟩ := heap_eq_peak (empty_inv hF) ha
  have hempty : (Sys.empty t).pool.heap.length = 0 := rfl
  rw [hempty, Nat.zero_max] at hheap
  exact ⟨s, hrun, hheap, (heap_eq hi).symm.trans hheap⟩

/-- A client and two commands, of which the port takes none. -/
def closedPort : List Op := [.construct, .send2MCU 0 fun _ => 0, .send2MCU 0 fun _ => 1]

/-- Three packets waiting at a closed port take three allocations. -/
theorem pool_allocates_its_peak_closedPort :
    peak (Sys.empty .mcu) closedPort = 3 ∧
    ∃ s, run stepTo (Sys.empty .mcu) closedPort = some s ∧
      s.pool.heap.length = peak (Sys.empty .mcu) closedPort ∧
      s.pool.mBuffs.length + inUse s = peak (Sys.empty .mcu) closedPort := by
  refine ⟨by decide +kernel, pool_allocates_its_peak (Or.inl rfl) ⟨trivial, fun s' h => ?_⟩⟩
  cases h
  refine ⟨⟨rfl, rfl⟩, fun s' h => ?_⟩
  have h₂ : s' = _ := (Option.some.inj h).symm
  subst h₂
  exact ⟨⟨rfl, rfl⟩, fun _ _ => trivial⟩

end CdroidDemo.PoolPeak
