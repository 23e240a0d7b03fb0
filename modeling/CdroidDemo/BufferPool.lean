import CdroidDemo.PacketBuffer

/-!
# The pool of packet buffers

`SDHWPacketBuffer` owns every buffer it has allocated. A pointer is the index
of its buffer among all buffers ever allocated, so pointers stay valid, and
the free list is a list of pointers. A free buffer is indistinguishable from
a newly allocated one.
-/

namespace CdroidDemo.BufferPool

open PacketMemory BuffData PacketBuffer

/-- `SDHWPacketBuffer`: its type and its buffers. -/
structure SDHWPacketBuffer where
  /-- `mType`: the packet type. -/
  mType : BufferType
  /-- Every buffer allocated so far. -/
  heap : List BuffData
  /-- `mBuffs`: the free list. -/
  mBuffs : List ℕ

namespace SDHWPacketBuffer

/-- The buffer behind a pointer. -/
def load (p : SDHWPacketBuffer) (bd : ℕ) : Option BuffData := p.heap[bd]?

/-- The pool with another buffer behind a pointer. -/
def written (p : SDHWPacketBuffer) (bd : ℕ) (b : BuffData) : SDHWPacketBuffer :=
  {p with heap := p.heap.set bd b}

/-- Replace the buffer behind a pointer. -/
def store (p : SDHWPacketBuffer) (bd : ℕ) (b : BuffData) : Option SDHWPacketBuffer :=
  if bd < p.heap.length then some (p.written bd b) else none

/-- The loop of `obtain`: the first free buffer of the type and size, and the
free list without it. -/
def searchFree (p : SDHWPacketBuffer) (len : ℕ) : List ℕ → Option (Option (ℕ × List ℕ))
  | [] => some none
  | it :: rest => do
    let bf ← p.load it
    if bf.type = p.mType ∧ bf.slen = len then return some (it, rest)
    else return (← searchFree p len rest).map fun r => (r.1, it :: r.2)

/-- `SDHWPacketBuffer::obtain`: a free buffer, or a newly allocated one. -/
def obtain (p : SDHWPacketBuffer) : Option (SDHWPacketBuffer × ℕ) := do
  match ← searchFree p (bufLen p.mType) p.mBuffs with
  | some (bf, rest) =>
    let p ← p.store bf ((← p.load bf).setLen 0)
    return ({p with mBuffs := rest}, bf)
  | none => return ({p with heap := p.heap ++ [allocate p.mType]}, p.heap.length)

/-- `SDHWPacketBuffer::recycle`: the buffer is zeroed and becomes free. -/
def recycle (p : SDHWPacketBuffer) (buf : ℕ) : Option SDHWPacketBuffer := do
  let p ← p.store buf ((← p.load buf).bzero.setLen 0)
  return {p with mBuffs := p.mBuffs ++ [buf]}

/-! ## What the pool operations compute -/

/-- All buffers have the size of the type and the free ones are as allocated. -/
structure Pooled (p : SDHWPacketBuffer) : Prop where
  /-- Every buffer has the size of its kind. -/
  sized : ∀ bd b, p.load bd = some b → Sized p.mType b
  /-- The free buffers are as they were allocated. -/
  free : ∀ bd ∈ p.mBuffs, p.load bd = some (allocate p.mType)

/-- All that `obtain` can do to a pool. -/
inductive Obtained (p : SDHWPacketBuffer) : SDHWPacketBuffer → ℕ → Prop
  /-- The oldest free buffer is taken. -/
  | reused {bd : ℕ} {rest : List ℕ} (h : p.mBuffs = bd :: rest) :
      Obtained p {p with mBuffs := rest} bd
  /-- A new buffer is allocated. -/
  | allocated (h : p.mBuffs = []) :
      Obtained p {p with heap := p.heap ++ [allocate p.mType]} p.heap.length

/-- The pool after a buffer has been recycled. -/
def recycled (p : SDHWPacketBuffer) (bd : ℕ) : SDHWPacketBuffer :=
  {p.written bd (allocate p.mType) with mBuffs := p.mBuffs ++ [bd]}

/-- An allocated buffer can be read. -/
theorem load_eq_some {p : SDHWPacketBuffer} {bd : ℕ} (h : bd < p.heap.length) :
    p.load bd = some p.heap[bd] :=
  List.getElem?_eq_getElem h

/-- What can be read is allocated. -/
theorem lt_of_load {p : SDHWPacketBuffer} {bd : ℕ} {b : BuffData} (h : p.load bd = some b) :
    bd < p.heap.length :=
  (List.getElem?_eq_some_iff.mp h).1

/-- Writing keeps the packet type, -/
@[simp] theorem written_mType (p : SDHWPacketBuffer) (bd : ℕ) (b : BuffData) :
    (p.written bd b).mType = p.mType := rfl

/-- the free list, -/
@[simp] theorem written_mBuffs (p : SDHWPacketBuffer) (bd : ℕ) (b : BuffData) :
    (p.written bd b).mBuffs = p.mBuffs := rfl

/-- and the number of buffers. -/
@[simp] theorem written_heap_length (p : SDHWPacketBuffer) (bd : ℕ) (b : BuffData) :
    (p.written bd b).heap.length = p.heap.length := List.length_set

/-- An allocated buffer can be written. -/
theorem store_eq_some {p : SDHWPacketBuffer} {bd : ℕ} (h : bd < p.heap.length) (b : BuffData) :
    p.store bd b = some (p.written bd b) := if_pos h

/-- What a write leaves behind each pointer. -/
theorem load_written {p : SDHWPacketBuffer} {bd : ℕ} (h : bd < p.heap.length) (b : BuffData)
    (q : ℕ) : (p.written bd b).load q = if q = bd then some b else p.load q := by
  simp only [load, written, List.getElem?_set]
  by_cases hq : q = bd
  · rw [if_pos hq.symm, if_pos hq, if_pos h]
  · rw [if_neg (Ne.symm hq), if_neg hq]

/-- The holder of a buffer may fill it with anything of its size. -/
theorem Pooled.written {p : SDHWPacketBuffer} (hp : p.Pooled) {bd : ℕ} {b : BuffData}
    (hlt : bd < p.heap.length) (hbd : bd ∉ p.mBuffs) (hb : Sized p.mType b) :
    (p.written bd b).Pooled := by
  refine ⟨?_, ?_⟩
  · intro q c hq
    rw [load_written hlt] at hq
    split at hq
    · cases hq
      exact hb
    · exact hp.sized q c hq
  · intro q hq
    have hne : q ≠ bd := fun he => hbd (he ▸ hq)
    rw [load_written hlt, if_neg hne]
    exact hp.free q hq

/-- The search takes the first free buffer. -/
theorem searchFree_eq {p : SDHWPacketBuffer} (hp : p.Pooled) :
    searchFree p (bufLen p.mType) p.mBuffs = some (p.mBuffs.head?.map fun bd =>
      (bd, p.mBuffs.tail)) := by
  cases h : p.mBuffs with
  | nil => rfl
  | cons bd rest =>
    have hload := hp.free bd (by rw [h]; exact List.mem_cons_self)
    rw [searchFree, hload]
    simp only [Option.bind_eq_bind, Option.bind_some]
    rw [if_pos ⟨rfl, rfl⟩]
    rfl

/-- `obtain` always succeeds. -/
theorem obtain_obtained {p : SDHWPacketBuffer} (hp : p.Pooled) :
    ∃ p' bd, p.obtain = some (p', bd) ∧ Obtained p p' bd := by
  unfold obtain
  rw [searchFree_eq hp]
  cases h : p.mBuffs with
  | nil =>
    refine ⟨{p with heap := p.heap ++ [allocate p.mType]}, p.heap.length, ?_,
      Obtained.allocated h⟩
    simp only [h, List.head?_nil, Option.map_none, Option.bind_eq_bind, Option.bind_some]
    rfl
  | cons bd rest =>
    have hload := hp.free bd (by rw [h]; exact List.mem_cons_self)
    have hlt := lt_of_load hload
    have hsame : p.written bd ((allocate p.mType).setLen 0) = p := by
      have hget := (List.getElem?_eq_some_iff.mp hload).2
      change {p with heap := p.heap.set bd (allocate p.mType)} = p
      rw [← hget, List.set_getElem_self]
    refine ⟨_, _, ?_, Obtained.reused h⟩
    simp only [Option.bind_eq_bind, Option.bind_some, List.head?_cons, Option.map_some,
      List.tail_cons, hload, store_eq_some hlt, hsame]
    rfl

/-- Obtaining keeps the packet type, -/
theorem Obtained.mType {p p' : SDHWPacketBuffer} {bd : ℕ} (h : Obtained p p' bd) :
    p'.mType = p.mType := by
  cases h <;> rfl

/-- The obtained buffer is as allocated. -/
theorem Obtained.load {p p' : SDHWPacketBuffer} {bd : ℕ} (h : Obtained p p' bd) (hp : p.Pooled) :
    p'.load bd = some (allocate p.mType) := by
  cases h with
  | reused h => exact hp.free bd (by rw [h]; exact List.mem_cons_self)
  | allocated h => exact List.getElem?_concat_length

/-- Existing buffers are left as they are. -/
theorem Obtained.load_old {p p' : SDHWPacketBuffer} {bd : ℕ} (h : Obtained p p' bd) {q : ℕ}
    (hq : q < p.heap.length) : p'.load q = p.load q := by
  cases h with
  | reused h => rfl
  | allocated h => exact List.getElem?_append_left hq

/-- and what holds of the pool. -/
theorem Obtained.pooled {p p' : SDHWPacketBuffer} {bd : ℕ} (h : Obtained p p' bd)
    (hp : p.Pooled) : p'.Pooled := by
  cases h with
  | reused h =>
    exact ⟨hp.sized, fun q hq => hp.free q (by rw [h]; exact List.mem_cons_of_mem bd hq)⟩
  | allocated h =>
    refine ⟨?_, fun q hq => ?_⟩
    · intro q b hq
      have hmem := List.mem_of_getElem? hq
      rcases List.mem_append.mp hmem with hold | hnew
      · obtain ⟨i, hi⟩ := List.mem_iff_getElem?.mp hold
        exact hp.sized i b hi
      · rw [List.mem_singleton.mp hnew]
        exact allocate_sized _
    · have hq' : q ∈ p.mBuffs := hq
      rw [h] at hq'
      cases hq'

/-- Recycling zeroes the buffer back to its allocated state. -/
theorem recycle_eq {p : SDHWPacketBuffer} {bd : ℕ} {b : BuffData} (hb : p.load bd = some b)
    (hs : Sized p.mType b) : p.recycle bd = some (p.recycled bd) := by
  have hzero : b.bzero.setLen 0 = allocate p.mType := by
    have ht := hs.type
    have hl := hs.slen
    cases b
    cases ht
    cases hl
    rfl
  unfold recycle
  rw [hb]
  simp only [Option.bind_eq_bind, Option.bind_some, hzero, store_eq_some (lt_of_load hb)]
  rfl

/-- A recycled buffer is as new, and the others are as before. -/
theorem load_recycled {p : SDHWPacketBuffer} {bd : ℕ} (h : bd < p.heap.length) (q : ℕ) :
    (p.recycled bd).load q = if q = bd then some (allocate p.mType) else p.load q :=
  load_written h (allocate p.mType) q

/-- Recycling keeps the packet type, -/
@[simp] theorem recycled_mType (p : SDHWPacketBuffer) (bd : ℕ) :
    (p.recycled bd).mType = p.mType := rfl

/-- puts the buffer at the end of the free list, -/
@[simp] theorem recycled_mBuffs (p : SDHWPacketBuffer) (bd : ℕ) :
    (p.recycled bd).mBuffs = p.mBuffs ++ [bd] := rfl

/-- and keeps the number of buffers. -/
@[simp] theorem recycled_heap_length (p : SDHWPacketBuffer) (bd : ℕ) :
    (p.recycled bd).heap.length = p.heap.length := List.length_set

/-- What was written before does not survive recycling. -/
theorem written_recycled (p : SDHWPacketBuffer) (bd : ℕ) (b : BuffData) :
    (p.written bd b).recycled bd = p.recycled bd := by
  simp only [recycled, written, List.set_set]

/-- It keeps what holds of the pool. -/
theorem Pooled.recycled {p : SDHWPacketBuffer} (hp : p.Pooled) {bd : ℕ}
    (h : bd < p.heap.length) : (p.recycled bd).Pooled := by
  refine ⟨?_, ?_⟩
  · intro q b hq
    rw [load_recycled h] at hq
    split at hq
    · cases hq
      exact allocate_sized _
    · exact hp.sized q b hq
  · intro q hq
    rw [load_recycled h]
    split
    · rfl
    · rename_i hne
      rcases List.mem_append.mp hq with hq | hq
      · exact hp.free q hq
      · exact absurd (List.mem_singleton.mp hq) hne

end SDHWPacketBuffer

end CdroidDemo.BufferPool
