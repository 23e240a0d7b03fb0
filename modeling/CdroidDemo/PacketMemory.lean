import Mathlib.Data.List.Basic
import Mathlib.Data.Nat.Notation

/-!
# Packet buffers with checked accesses

A `BuffData` is the header fields of a packet buffer together with its
payload of `slen` bytes. Every access of the program goes through one of the
operations here, which fail outside the payload. A computation that returns
a value has therefore stayed inside the buffer; failure stands for undefined
behaviour and is never a result of the program.
-/

namespace CdroidDemo.PacketMemory

/-- `BufferType`: the kind of packets a buffer is allocated for. -/
inductive BufferType
  /-- No packets. -/
  | null
  /-- Packets of the board. -/
  | mcu
  /-- Packets of the module. -/
  | tuyaMcu
  /-- Packets of the product test. -/
  | factory
  deriving DecidableEq, Repr

/-- `BuffData`: a packet buffer. The payload has exactly `slen` bytes. -/
@[ext] structure BuffData where
  /-- `type`: the packet type it was allocated for. -/
  type : BufferType
  /-- `slen`: size of the payload. -/
  slen : ℕ
  /-- `len`: number of valid bytes. -/
  len : ℕ
  /-- `buf`: the payload, stale bytes behind the valid ones included. -/
  buf : List UInt8
  /-- The allocation has the recorded size. -/
  buf_length : buf.length = slen
  deriving DecidableEq

namespace BuffData

/-- The valid bytes. -/
def content (b : BuffData) : List UInt8 := b.buf.take b.len

/-- The valid bytes lie inside the payload. -/
def Fits (b : BuffData) : Prop := b.len ≤ b.slen

/-- Change the number of valid bytes. -/
def setLen (b : BuffData) (n : ℕ) : BuffData := {b with len := n}

/-- `b->buf[i]` as a read. -/
def read (b : BuffData) (i : ℕ) : Option UInt8 := b.buf[i]?

/-- `b->buf[i] = v`. -/
def write (b : BuffData) (i : ℕ) (v : UInt8) : Option BuffData :=
  if i < b.slen then
    some {b with buf := b.buf.set i v, buf_length := by rw [List.length_set, b.buf_length]}
  else none

/-- Read the first `n` payload bytes, as `memcpy` from the buffer does. -/
def first (b : BuffData) (n : ℕ) : Option (List UInt8) :=
  if n ≤ b.slen then some (b.buf.take n) else none

/-- Overwrite the payload from `pos` on by `src`. -/
def overwrite (buf : List UInt8) (pos : ℕ) (src : List UInt8) : List UInt8 :=
  buf.take pos ++ src ++ buf.drop (pos + src.length)

/-- Overwriting inside a buffer keeps its length. -/
theorem overwrite_length {buf src : List UInt8} {pos : ℕ} (h : pos + src.length ≤ buf.length) :
    (overwrite buf pos src).length = buf.length := by
  simp only [overwrite, List.length_append, List.length_take, List.length_drop]
  omega

/-- `memcpy(b->buf + pos, src, n)` with the `n` bytes of `src`. -/
def memcpy (b : BuffData) (pos : ℕ) (src : List UInt8) : Option BuffData :=
  if h : pos + src.length ≤ b.slen then
    some {b with
      buf := overwrite b.buf pos src
      buf_length := by rw [overwrite_length (by rw [b.buf_length]; exact h), b.buf_length]}
  else none

/-- `memmove(b->buf, b->buf + pos, n)`. -/
def memmove (b : BuffData) (pos n : ℕ) : Option BuffData :=
  if h : pos + n ≤ b.slen then
    some {b with
      buf := overwrite b.buf 0 ((b.buf.drop pos).take n)
      buf_length := by
        rw [overwrite_length, b.buf_length]
        simp only [List.length_take, List.length_drop, b.buf_length]
        omega}
  else none

/-- `bzero(b->buf, b->slen)`. -/
def bzero (b : BuffData) : BuffData :=
  {b with buf := List.replicate b.slen 0, buf_length := List.length_replicate}

/-- Setting the length keeps the kind. -/
@[simp] theorem setLen_type (b : BuffData) (n : ℕ) : (b.setLen n).type = b.type := rfl

/-- Setting the length keeps the size. -/
@[simp] theorem setLen_slen (b : BuffData) (n : ℕ) : (b.setLen n).slen = b.slen := rfl

/-- The length is the one that was set. -/
@[simp] theorem setLen_len (b : BuffData) (n : ℕ) : (b.setLen n).len = n := rfl

/-- Setting the length keeps the bytes. -/
@[simp] theorem setLen_buf (b : BuffData) (n : ℕ) : (b.setLen n).buf = b.buf := rfl

/-- The content is as long as the length that was set. -/
theorem content_setLen (b : BuffData) (n : ℕ) : (b.setLen n).content = b.buf.take n := rfl

/-- A buffer of length zero has no content. -/
@[simp] theorem content_setLen_zero (b : BuffData) : (b.setLen 0).content = [] := by
  rw [content_setLen, List.take_zero]

/-- A fitting buffer has `len` valid bytes. -/
theorem content_length {b : BuffData} (h : b.Fits) : b.content.length = b.len := by
  rw [content, List.length_take, b.buf_length]
  exact Nat.min_eq_left h

/-- The payload is the valid bytes followed by stale ones. -/
theorem buf_eq_content_append (b : BuffData) : b.buf = b.content ++ b.buf.drop b.len :=
  (List.take_append_drop b.len b.buf).symm

/-- A read inside the buffer gives the byte there. -/
theorem read_eq_some {b : BuffData} {i : ℕ} (h : i < b.buf.length) : b.read i = some b.buf[i] :=
  List.getElem?_eq_getElem h

/-- A read of a valid byte reads the content. -/
theorem read_content {b : BuffData} {i : ℕ} (h : i < b.len) : b.read i = b.content[i]? := by
  rw [read, content, List.getElem?_take, if_pos h]

/-- A write inside the payload changes the one byte only. -/
theorem write_spec {b : BuffData} {i : ℕ} (h : i < b.slen) (v : UInt8) :
    ∃ b', b.write i v = some b' ∧ b'.type = b.type ∧ b'.slen = b.slen ∧ b'.len = b.len ∧
      b'.buf = b.buf.set i v :=
  ⟨_, if_pos h, rfl, rfl, rfl, rfl⟩

/-- A stretch inside the buffer can be taken. -/
theorem first_eq_some {b : BuffData} {n : ℕ} (h : n ≤ b.slen) :
    b.first n = some (b.buf.take n) := if_pos h

/-- A copy behind the valid bytes appends to the content. -/
theorem memcpy_append (b : BuffData) (src : List UInt8) (h : b.len + src.length ≤ b.slen) :
    ∃ b', b.memcpy b.len src = some b' ∧ b'.type = b.type ∧ b'.slen = b.slen ∧
      b'.buf.take (b.len + src.length) = b.content ++ src := by
  refine ⟨_, dif_pos h, rfl, rfl, ?_⟩
  have hl : (b.buf.take b.len ++ src).length = b.len + src.length := by
    rw [List.length_append, List.length_take, b.buf_length]
    omega
  change ((b.buf.take b.len ++ src) ++ b.buf.drop (b.len + src.length)).take _ = _
  rw [← hl, List.take_left]
  rfl

/-- A copy to the front makes the copied bytes the first ones. -/
theorem memcpy_front (b : BuffData) (src : List UInt8) (h : src.length ≤ b.slen) :
    ∃ b', b.memcpy 0 src = some b' ∧ b'.type = b.type ∧ b'.slen = b.slen ∧ b'.len = b.len ∧
      b'.buf.take src.length = src := by
  refine ⟨_, dif_pos (by omega), rfl, rfl, rfl, ?_⟩
  change ((b.buf.take 0 ++ src) ++ b.buf.drop (0 + src.length)).take _ = _
  rw [List.take_zero, List.nil_append, List.take_left]

/-- Moving the valid bytes from `j` on to the front drops `j` bytes. -/
theorem memmove_content {b : BuffData} {j : ℕ} (hf : b.Fits) (hj : j ≤ b.len) :
    ∃ b', b.memmove j (b.len - j) = some b' ∧ b'.type = b.type ∧ b'.slen = b.slen ∧
      b'.buf.take (b.len - j) = b.content.drop j := by
  have hfit : j + (b.len - j) ≤ b.slen := by
    have : b.len ≤ b.slen := hf
    omega
  refine ⟨_, dif_pos hfit, rfl, rfl, ?_⟩
  have hl : ((b.buf.drop j).take (b.len - j)).length = b.len - j := by
    rw [List.length_take, List.length_drop, b.buf_length]
    omega
  change ((b.buf.take 0 ++ (b.buf.drop j).take (b.len - j)) ++ b.buf.drop _).take (b.len - j) = _
  rw [List.take_zero, List.nil_append, List.take_append_of_le_length (Nat.le_of_eq hl.symm),
    List.take_of_length_le (Nat.le_of_eq hl), content, List.drop_take]

end BuffData

/-- `DataCheck::Sum` and the summing loops: the first `n` bytes modulo 256. -/
def sum (b : BuffData) : ℕ → Option UInt8
  | 0 => some 0
  | n + 1 => do
    let s ← sum b n
    let x ← b.read n
    return s + x

/-- The sum of a byte string modulo 256. -/
def byteSum (l : List UInt8) : UInt8 := l.foldl (· + ·) 0

/-- The summing loop stays inside the payload and computes the sum. -/
theorem sum_eq {b : BuffData} {n : ℕ} (h : n ≤ b.slen) :
    sum b n = some (byteSum (b.buf.take n)) := by
  induction n with
  | zero => rfl
  | succ n ih =>
    have hn : n < b.buf.length := by rw [b.buf_length]; omega
    rw [sum, ih (by omega), BuffData.read_eq_some hn]
    simp only [Option.bind_eq_bind, Option.bind_some, Option.pure_def, byteSum]
    rw [List.take_succ_eq_append_getElem hn, List.foldl_append]
    rfl

/-- The last byte of a packet is the sum of all bytes before it. -/
def verified (f : List UInt8) : Bool := decide (f.getLast? = some (byteSum f.dropLast))

/-- Comparing byte `n - 1` with the sum of the bytes before it verifies the
first `n` bytes. -/
theorem verified_first {b : BuffData} {n : ℕ} (hn : 0 < n) (h : n ≤ b.slen) :
    (do
      let last ← b.read (n - 1)
      let s ← sum b (n - 1)
      return last == s) = some (verified (b.buf.take n)) := by
  have hlen : (b.buf.take n).length = n := by
    rw [List.length_take, b.buf_length]
    omega
  have hpos : n - 1 < b.buf.length := by
    rw [b.buf_length]
    omega
  have hlast : (b.buf.take n).getLast? = some b.buf[n - 1] := by
    rw [List.getLast?_eq_getElem?, hlen, List.getElem?_take, if_pos (by omega)]
    exact List.getElem?_eq_getElem hpos
  have hdrop : (b.buf.take n).dropLast = b.buf.take (n - 1) := by
    rw [List.dropLast_eq_take, hlen, List.take_take, Nat.min_eq_left (by omega)]
  rw [BuffData.read_eq_some hpos, sum_eq (by omega), verified, hlast, hdrop]
  simp only [Option.bind_eq_bind, Option.bind_some, Option.pure_def, Option.some.injEq]
  rfl

end CdroidDemo.PacketMemory
