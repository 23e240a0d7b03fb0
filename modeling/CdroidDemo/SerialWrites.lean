import Mathlib.Algebra.Order.Ring.Int
import Mathlib.Data.List.Basic

/-!
# Writing to the serial port

`UART0_Send` writes a buffer to a device that accepts some of the bytes at a
time, or none. The log of its writes is compared with what the device answers
to them: what the device has accepted and what is counted belong together.
-/

namespace CdroidDemo.SerialWrites

/-- The device behind the file descriptor: what its `write` returns at each
call. That is never more than what is requested; 0 or less is a failure. -/
structure Device where
  /-- The result of a call, given the calls before it and the bytes requested. -/
  write : ℕ → ℤ → ℤ
  /-- No call takes more bytes than it is given. -/
  write_le : ∀ calls count, 0 < count → write calls count ≤ count

/-- One call of `write`. -/
structure Write where
  /-- The bytes it was given. -/
  bytes : List UInt8
  /-- What it returned. -/
  result : ℤ
deriving DecidableEq

/-- The bytes that the device takes in a call: as many as it returns. -/
def Write.accepted (w : Write) : List UInt8 := w.bytes.take w.result.toNat

/-- What the device has accepted in some calls. -/
def acceptedBytes (ws : List Write) : List UInt8 := (ws.map Write.accepted).flatten

/-- `offset`, and what has happened at the device so far. -/
structure Sent where
  /-- `offset`: the bytes that were counted. -/
  offset : ℤ
  /-- The calls of `write` so far. -/
  writes : List Write
  /-- `tcflush` was called. -/
  flushed : Bool

/-- The `count` bytes from `send_buf + offset` on. -/
def requested (send_buf : List UInt8) (offset count : ℤ) : List UInt8 :=
  (send_buf.drop offset.toNat).take count.toNat

/-- One write: what it returns, and what has happened after it. -/
def Sent.write (s : Sent) (fd : Device) (send_buf : List UInt8) (data_len : ℤ) : ℤ × Sent :=
  let count := data_len - s.offset
  let len := fd.write s.writes.length count
  let writes := s.writes ++ [⟨requested send_buf s.offset count, len⟩]
  if 0 < len then (len, {s with offset := s.offset + len, writes := writes})
  else (len, {s with writes := writes, flushed := true})

/-- A write that succeeds advances the offset. -/
theorem write_offset_lt {s : Sent} {fd : Device} {send_buf : List UInt8} {data_len : ℤ}
    (h : 0 < (s.write fd send_buf data_len).1) :
    s.offset < (s.write fd send_buf data_len).2.offset := by
  unfold Sent.write at h ⊢
  dsimp only at h ⊢
  split at h
  · rename_i hpos
    rw [if_pos hpos]
    exact lt_add_of_pos_right _ hpos
  · rename_i hneg
    exact absurd h hneg

/-- The loop of `UART0_Send`. Every turn but a last one advances the offset. -/
def sendLoop (fd : Device) (send_buf : List UInt8) (data_len : ℤ) (s : Sent) : Sent :=
  if s.offset < data_len then
    if _h : 0 < (s.write fd send_buf data_len).1 then
      sendLoop fd send_buf data_len (s.write fd send_buf data_len).2
    else (s.write fd send_buf data_len).2
  else s
termination_by (data_len - s.offset).toNat
decreasing_by
  have := write_offset_lt _h
  omega

/-- `UART0_Send`; it returns the last `offset`. -/
def UART0_Send (fd : Device) (send_buf : List UInt8) (data_len : ℤ) : Sent :=
  sendLoop fd send_buf data_len ⟨0, [], false⟩

/-- The log is one of the device: every call was given the bytes that the
device had not accepted yet, at least one, after calls that all succeeded, and
the result is what the device answers to this call. -/
def Answered (fd : Device) (send_buf : List UInt8) (data_len : ℤ) (ws : List Write) : Prop :=
  ∀ before w after, ws = before ++ w :: after →
    w.bytes = (send_buf.take data_len.toNat).drop (acceptedBytes before).length ∧ w.bytes ≠ [] ∧
      (∀ v ∈ before, 0 < v.result) ∧ w.result = fd.write before.length w.bytes.length

/-- Every write succeeded. -/
def Flawless (ws : List Write) : Prop := ∀ w ∈ ws, 0 < w.result

/-- What the calls of `write` and the count have to do with each other. -/
structure Accounts (fd : Device) (send_buf : List UInt8) (data_len : ℤ) (s : Sent) : Prop where
  /-- The calls are those of the device. -/
  answered : Answered fd send_buf data_len s.writes
  /-- There are no more of them than bytes. -/
  few : s.writes.length ≤ data_len
  /-- What is counted is not negative. -/
  nonneg : 0 ≤ s.offset
  /-- No more is counted than there is. -/
  le : s.offset ≤ data_len
  /-- The device has accepted the counted bytes, in their order and once each. -/
  accepted : acceptedBytes s.writes = send_buf.take s.offset.toNat
  /-- As many bytes are counted as the device has accepted. -/
  length : (acceptedBytes s.writes).length = s.offset
  /-- All bytes are counted exactly when no call returned 0 or an error. -/
  all : s.offset = data_len ↔ Flawless s.writes
  /-- The output is flushed exactly when a call did. -/
  flushed : s.flushed = true ↔ ¬Flawless s.writes

/-! ## Logs -/

/-- The bytes accepted by one more write. -/
theorem acceptedBytes_concat (ws : List Write) (w : Write) :
    acceptedBytes (ws ++ [w]) = acceptedBytes ws ++ w.accepted := by
  rw [acceptedBytes, List.map_append, List.flatten_append, acceptedBytes, List.map_singleton,
    List.flatten_singleton]

/-- One more write is flawless when it wrote something. -/
theorem flawless_concat {ws : List Write} {w : Write} :
    Flawless (ws ++ [w]) ↔ Flawless ws ∧ 0 < w.result := by
  rw [Flawless, List.forall_mem_append, List.forall_mem_singleton]
  rfl

section Turn

variable {fd : Device} {send_buf : List UInt8} {data_len : ℤ}

/-- One more call behind a log without failures. -/
theorem Answered.concat {ws : List Write} {w : Write} (h : Answered fd send_buf data_len ws)
    (hf : Flawless ws)
    (hbytes : w.bytes = (send_buf.take data_len.toNat).drop (acceptedBytes ws).length)
    (hne : w.bytes ≠ []) (hresult : w.result = fd.write ws.length w.bytes.length) :
    Answered fd send_buf data_len (ws ++ [w]) := by
  intro before v after he
  rcases List.eq_nil_or_concat after with rfl | ⟨after, u, rfl⟩
  · obtain ⟨rfl, hw⟩ := List.append_inj' he rfl
    obtain rfl := List.singleton_inj.mp hw
    exact ⟨hbytes, hne, hf, hresult⟩
  · rw [List.concat_eq_append, ← List.cons_append, ← List.append_assoc] at he
    exact h before v after (List.append_inj' he rfl).1

/-! ## One turn -/

/-- The account while all writes have succeeded. -/
structure Counted (fd : Device) (send_buf : List UInt8) (data_len : ℤ) (s : Sent) : Prop where
  /-- The calls are those of the device. -/
  answered : Answered fd send_buf data_len s.writes
  /-- None of them failed. -/
  flawless : Flawless s.writes
  /-- Each of them counted at least one byte. -/
  few : s.writes.length ≤ s.offset
  /-- No more is counted than there is. -/
  le : s.offset ≤ data_len
  /-- The device has accepted the counted bytes. -/
  accepted : acceptedBytes s.writes = send_buf.take s.offset.toNat
  /-- The output has not been flushed. -/
  unflushed : s.flushed = false

variable {s : Sent}

/-- The count of written bytes is never negative. -/
theorem Counted.nonneg (h : Counted fd send_buf data_len s) : 0 ≤ s.offset :=
  (Int.natCast_nonneg _).trans h.few

/-- As many bytes are counted as the device has accepted. -/
theorem Counted.length (h : Counted fd send_buf data_len s) (hbuf : data_len ≤ send_buf.length) :
    (acceptedBytes s.writes).length = s.offset := by
  have hlo := h.nonneg
  have hle := h.le
  rw [h.accepted, List.length_take]
  omega

/-- The next write is answered like all those before it. -/
theorem Counted.answered_write (h : Counted fd send_buf data_len s) (hlt : s.offset < data_len)
    (hbuf : data_len ≤ send_buf.length) :
    Answered fd send_buf data_len (s.writes ++
      [⟨requested send_buf s.offset (data_len - s.offset),
        fd.write s.writes.length (data_len - s.offset)⟩]) := by
  have hlo := h.nonneg
  have hlen := h.length hbuf
  have hcount : ((requested send_buf s.offset (data_len - s.offset)).length : ℤ) =
      data_len - s.offset := by
    rw [requested, List.length_take, List.length_drop]
    omega
  refine h.answered.concat h.flawless ?_ (fun hnil => ?_) ?_
  · have hn : (acceptedBytes s.writes).length = s.offset.toNat := by omega
    have hleft : data_len.toNat - s.offset.toNat = (data_len - s.offset).toNat := by omega
    rw [hn, requested, List.drop_take, hleft]
  · dsimp only at hnil
    rw [hnil, List.length_nil] at hcount
    omega
  · dsimp only
    rw [hcount]

/-- A write that succeeds keeps the account. -/
theorem Counted.write (h : Counted fd send_buf data_len s) (hlt : s.offset < data_len)
    (hbuf : data_len ≤ send_buf.length) (hpos : 0 < (s.write fd send_buf data_len).1) :
    Counted fd send_buf data_len (s.write fd send_buf data_len).2 := by
  have hanswered := h.answered_write hlt hbuf
  have hlo := h.nonneg
  have hfew := h.few
  have hle := fd.write_le s.writes.length (data_len - s.offset) (sub_pos.mpr hlt)
  unfold Sent.write at hpos ⊢
  dsimp only at hpos ⊢
  split at hpos
  · rename_i hres
    rw [if_pos hres]
    refine ⟨hanswered, flawless_concat.mpr ⟨h.flawless, hres⟩, ?_, ?_, ?_, h.unflushed⟩
    · dsimp only
      rw [List.length_append, List.length_singleton]
      omega
    · dsimp only
      omega
    · dsimp only
      have hmin : (fd.write s.writes.length (data_len - s.offset)).toNat ≤
          (data_len - s.offset).toNat := Int.toNat_le_toNat hle
      rw [acceptedBytes_concat, h.accepted, Write.accepted, requested, List.take_take,
        Nat.min_eq_left hmin, Int.toNat_add hlo hpos.le, List.take_add]
  · rename_i hres
    exact absurd hpos hres

/-- A write that fails ends the account. -/
theorem Counted.fail (h : Counted fd send_buf data_len s) (hlt : s.offset < data_len)
    (hbuf : data_len ≤ send_buf.length) (hneg : ¬0 < (s.write fd send_buf data_len).1) :
    Accounts fd send_buf data_len (s.write fd send_buf data_len).2 := by
  have hanswered := h.answered_write hlt hbuf
  have hlo := h.nonneg
  have hfew := h.few
  have hlen := h.length hbuf
  unfold Sent.write at hneg ⊢
  dsimp only at hneg ⊢
  split at hneg
  · rename_i hres
    exact absurd hres hneg
  · rename_i hres
    have hflaw : ¬Flawless (s.writes ++ [⟨requested send_buf s.offset (data_len - s.offset),
        fd.write s.writes.length (data_len - s.offset)⟩]) := fun hall =>
      hres (flawless_concat.mp hall).2
    have hnothing : acceptedBytes (s.writes ++
        [⟨requested send_buf s.offset (data_len - s.offset),
          fd.write s.writes.length (data_len - s.offset)⟩]) = acceptedBytes s.writes := by
      rw [acceptedBytes_concat, Write.accepted, Int.toNat_of_nonpos (not_lt.mp hres),
        List.take_zero, List.append_nil]
    rw [if_neg hres]
    refine ⟨hanswered, ?_, hlo, hlt.le, hnothing.trans h.accepted, ?_,
      iff_of_false hlt.ne hflaw, iff_of_true rfl hflaw⟩
    · dsimp only
      rw [List.length_append, List.length_singleton]
      omega
    · dsimp only
      rw [hnothing, hlen]

/-! ## The whole loop -/

/-- The loop ends with an account of all its writes. -/
theorem sendLoop_accounts (h : Counted fd send_buf data_len s) (hbuf : data_len ≤ send_buf.length) :
    Accounts fd send_buf data_len (sendLoop fd send_buf data_len s) := by
  induction s using sendLoop.induct fd send_buf data_len with
  | case1 s hlt hpos ih =>
    rw [sendLoop, if_pos hlt, dif_pos hpos]
    exact ih (h.write hlt hbuf hpos)
  | case2 s hlt hneg =>
    rw [sendLoop, if_pos hlt, dif_neg hneg]
    exact h.fail hlt hbuf hneg
  | case3 s hge =>
    rw [sendLoop, if_neg hge]
    refine ⟨h.answered, h.few.trans h.le, h.nonneg, h.le, h.accepted, h.length hbuf,
      iff_of_true (le_antisymm h.le (not_lt.mp hge)) h.flawless,
      iff_of_false ?_ (not_not.mpr h.flawless)⟩
    rw [h.unflushed]
    exact Bool.false_ne_true

end Turn

/-- `UART0_Send` ends after at most as many calls of `write` as bytes. Each
call gets the bytes that the device has not accepted yet and the answer that
the device gives to it; none is made after a failure, or when nothing is left.
The device has accepted the bytes of the buffer up to the offset that is
returned, in their order and once each, and these are all of them exactly
when no call returned 0 or an error. -/
theorem UART0_Send_accounts (fd : Device) {send_buf : List UInt8} {data_len : ℤ}
    (h0 : 0 ≤ data_len) (hbuf : data_len ≤ send_buf.length) :
    Accounts fd send_buf data_len (UART0_Send fd send_buf data_len) := by
  refine sendLoop_accounts ⟨fun before w after he => ?_, fun w hw => ?_, le_rfl, h0, rfl, rfl⟩ hbuf
  · cases before <;> cases he
  · exact absurd hw List.not_mem_nil

/-- A device that takes two bytes and then fails. -/
def twoThenFails : Device where
  write calls count := if calls = 0 then min 2 count else -1
  write_le calls count hc := by
    split
    · exact min_le_right 2 count
    · omega

/-- Three of four bytes are to be sent, and two are accepted. -/
theorem UART0_Send_accounts_failing :
    Accounts twoThenFails [1, 2, 3, 4] 3 (UART0_Send twoThenFails [1, 2, 3, 4] 3) ∧
      acceptedBytes (UART0_Send twoThenFails [1, 2, 3, 4] 3).writes = [1, 2] := by
  have h := @UART0_Send_accounts twoThenFails [1, 2, 3, 4] 3 (by decide) (by decide)
  refine ⟨h, ?_⟩
  have hoff : (UART0_Send twoThenFails [1, 2, 3, 4] 3).offset = 2 := by
    rw [UART0_Send, sendLoop, if_pos (by decide), dif_pos (by decide), sendLoop,
      if_pos (by decide), dif_neg (by decide)]
    rfl
  rw [h.accepted, hoff]
  rfl

end CdroidDemo.SerialWrites
