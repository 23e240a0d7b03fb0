import CdroidDemo.CrcChecksum
import CdroidDemo.PacketAssembly

/-!
# Packets between the display board and the MCU

`UI2MCU` builds the 32-byte command frames, `MCU2UI` reassembles and checks
the 16-byte status frames. The second header byte of a status frame is also
its length, so a full receive buffer that begins with the header always
completes a frame.
-/

namespace CdroidDemo.McuPackets

open HeaderResync FramedReceiver PacketMemory PacketAssembly BuffData CrcChecksum

namespace UI2MCU

/-- `UI2MCU::BUF_LEN`. -/
def bufLen : ℕ := 32

/-- `UI2MCU::HEAD_BYTE`. -/
def headByte : UInt8 := 0x02

/-- `parse`: an empty buffer becomes a frame with its header byte. -/
def parse (b : BuffData) : Option BuffData :=
  if b.len = 0 then (b.setLen bufLen).write 0 headByte else some b

/-- `setData`. -/
def setData (b : BuffData) (pos : ℕ) (data : UInt8) : Option BuffData := b.write pos data

/-- `checkcode`: the little-endian CRC of all bytes before it. -/
def checkcode (b : BuffData) : Option BuffData :=
  if b.len < 2 then none
  else do
    let cyc16 := crc16Modbus (← b.first (b.len - 2))
    let b' ← b.write (b.len - 2) (lowByte cyc16)
    b'.write (b.len - 1) (highByte cyc16)

/-- `checkcode` puts the check code into the last two bytes. -/
theorem checkcode_spec {b : BuffData} (hl : 2 ≤ b.len) (hs : b.len ≤ b.slen) :
    ∃ b', checkcode b = some b' ∧ b'.type = b.type ∧ b'.slen = b.slen ∧ b'.len = b.len ∧
      b'.buf = (b.buf.set (b.len - 2) (lowByte (crc16Modbus (b.buf.take (b.len - 2))))).set
        (b.len - 1) (highByte (crc16Modbus (b.buf.take (b.len - 2)))) := by
  obtain ⟨b₁, h₁, ht₁, hs₁, hl₁, hb₁⟩ := write_spec (b := b) (i := b.len - 2) (by omega)
    (lowByte (crc16Modbus (b.buf.take (b.len - 2))))
  obtain ⟨b₂, h₂, ht₂, hs₂, hl₂, hb₂⟩ := write_spec (b := b₁) (i := b.len - 1) (by omega)
    (highByte (crc16Modbus (b.buf.take (b.len - 2))))
  refine ⟨b₂, ?_, ht₂.trans ht₁, hs₂.trans hs₁, hl₂.trans hl₁, by rw [hb₂, hb₁]⟩
  unfold checkcode
  rw [if_neg (by omega), first_eq_some (by omega)]
  simp only [Option.bind_eq_bind, Option.bind_some, h₁, h₂]

end UI2MCU

namespace MCU2UI

/-- `MCU2UI::BUF_LEN`. -/
def bufLen : ℕ := 32

/-- `MCU2UI::HEAD_BYTE`. -/
def headByte : List UInt8 := [0x02, 0x10]

/-- The search loop of `add`: turns left, `i` and `j`. A header byte at the
very end is kept as a candidate. -/
def findHeadLoop (b : BuffData) : ℕ → ℕ → Option ℕ → Option (Option ℕ × Bool)
  | 0, _, j => some (j, false)
  | k + 1, i, j => do
    if (← b.read i) = 0x02 then
      if ← nextIs b i 1 0x10 then return (some i, true)
      else findHeadLoop b k (i + 1) (if i = b.len - 1 then some i else j)
    else findHeadLoop b k (i + 1) j

/-- The header search of `add` over the valid bytes. -/
def findHead (b : BuffData) : Option (Option ℕ × Bool) := findHeadLoop b b.len 0 none

/-- `MCU2UI::add`. -/
def add (b : BuffData) (bf : List UInt8) : Option (BuffData × ℕ) :=
  PacketAssembly.add bufLen headByte.length findHead b bf

/-- `MCU2UI::complete`; the header bytes are read even when stale. -/
def complete (b : BuffData) : Option Bool := do
  if (← b.read 0) = 0x02 then
    if (← b.read 1) = 0x10 then return decide ((← b.read 1).toNat ≤ b.len)
    else return false
  else return false

/-- `MCU2UI::check`: byte `mBuf[1] - 1` is the sum of the bytes before it. -/
def check (b : BuffData) : Option Bool := do
  let n ← b.read 1
  if n = 0 then none
  else do
    let last ← b.read (n.toNat - 1)
    let s ← sum b (n.toNat - 1)
    return last == s

/-- The framing of status frames: 16 bytes behind a two-byte header. -/
def framing : Framing UInt8 where
  hdr := headByte
  cap := bufLen
  frameLen c := if headByte <+: c ∧ 16 ≤ c.length then some 16 else none
  hdr_lt_cap := by decide
  hdr_pos := by decide
  frameLen_hdr h := by
    split at h
    · rename_i hc; exact hc.1
    · cases h
  frameLen_le h := by
    split at h
    · rename_i hc; cases h; exact hc.2
    · cases h
  frameLen_pos h := by
    split at h
    · cases h; decide
    · cases h
  frameLen_append m h := by
    split at h
    · rename_i hc
      cases h
      rw [if_pos ⟨hc.1.trans (List.prefix_append _ m), by rw [List.length_append]; omega⟩]
    · cases h

/-- The contents that complete a status frame. -/
theorem frameLen_iff {c : List UInt8} {n : ℕ} :
    framing.frameLen c = some n ↔ n = 16 ∧ headByte <+: c ∧ 16 ≤ c.length := by
  change (if headByte <+: c ∧ 16 ≤ c.length then some 16 else none) = some n ↔ _
  split
  · rename_i h
    simp only [Option.some.injEq, h, and_self, and_true, eq_comm]
  · rename_i h
    simp only [h, and_false, reduceCtorEq]

/-- The tails of the content in which a status header can begin. -/
theorem live_iff {x : UInt8} {t : List UInt8} :
    Live headByte (x :: t) ↔ x = 0x02 ∧ (t = [] ∨ t[0]? = some 0x10) := by
  rw [headByte, live_cons]
  cases t with
  | nil => simp [live_nil]
  | cons y t => simp [live_cons, nil_live]

/-- The tails of the content that begin with a whole status header. -/
theorem header_iff {x : UInt8} {t : List UInt8} :
    headByte <+: x :: t ↔ x = 0x02 ∧ t[0]? = some 0x10 := by
  rw [headByte, List.cons_prefix_cons]
  cases t with
  | nil => simp
  | cons y t => simp [List.cons_prefix_cons, eq_comm]

/-- On every tail of the content the search reports its first live tail. -/
theorem findHeadLoop_eq {b : BuffData} (hf : b.Fits) {t : List UInt8} (ht : t <:+ b.content) :
    findHeadLoop b t.length (b.len - t.length) none = some (locatedFrom headByte b.len t) := by
  induction t with
  | nil => rfl
  | cons x t ih =>
    have hle := tail_length hf ht
    have ih' := ih ((List.suffix_cons x t).trans ht)
    rw [List.length_cons, findHeadLoop, read_tail hf ht, nextIs_tail hf ht, next_tail hf ht]
    simp only [Option.bind_eq_bind, Option.bind_some, decide_eq_true_eq]
    by_cases hx : x = 0x02
    · rw [if_pos hx]
      by_cases hy : t[0]? = some 0x10
      · rw [if_pos hy, locatedFrom_header (header_iff.mpr ⟨hx, hy⟩)]
        rfl
      · rw [if_neg hy]
        cases t with
        | nil =>
          rw [locatedFrom_candidate (live_iff.mpr ⟨hx, Or.inl rfl⟩) fun h => hy (header_iff.mp h).2,
            if_pos (by simp only [List.length_nil])]
          rfl
        | cons y t =>
          have hd : ¬Live headByte (x :: y :: t) := by
            rw [live_iff]
            rintro ⟨-, h | h⟩
            · cases h
            · exact hy h
          rw [if_neg (by simp only [List.length_cons] at hle ⊢; omega), locatedFrom_dead hd, ih']
    · have hd : ¬Live headByte (x :: t) := fun h => hx (live_iff.mp h).1
      rw [if_neg hx, locatedFrom_dead hd, ih']

/-- The header search locates the status header. -/
theorem findHead_locates : Locates headByte findHead := by
  intro b hf
  have h := findHeadLoop_eq hf (List.suffix_refl b.content)
  rw [content_length hf, Nat.sub_self] at h
  rw [findHead, h, located_eq, content_length hf]

/-- `complete` recognises exactly the framing's packets. -/
theorem complete_eq {b : BuffData} (hs : b.slen = bufLen) (hf : b.Fits) :
    complete b = some (framing.frameLen b.content).isSome := by
  have hslen : b.slen = 32 := hs
  have hbl := b.buf_length
  have h0 := read_eq_some (show 0 < b.buf.length by omega)
  have h1 := read_eq_some (show 1 < b.buf.length by omega)
  have hbuf : b.buf = b.buf[0] :: b.buf[1] :: b.buf.drop 2 := by
    rw [← List.drop_eq_getElem_cons, ← List.drop_eq_getElem_cons, List.drop_zero]
  have hp : headByte <+: b.content ∧ 16 ≤ b.content.length ↔
      b.buf[0] = 0x02 ∧ b.buf[1] = 0x10 ∧ 16 ≤ b.len := by
    rw [content_length hf]
    constructor
    · rintro ⟨h, hle⟩
      have hb : headByte <+: b.buf := h.trans (List.take_prefix _ _)
      rw [hbuf, headByte, List.cons_prefix_cons, List.cons_prefix_cons] at hb
      exact ⟨hb.1.symm, hb.2.1.symm, hle⟩
    · rintro ⟨ha, hb, hle⟩
      refine ⟨?_, hle⟩
      rw [content, List.prefix_take_iff, hbuf, ha, hb]
      exact ⟨⟨_, rfl⟩, by simp only [headByte, List.length_cons, List.length_nil]; omega⟩
  rw [complete, h0, h1]
  simp only [Option.bind_eq_bind, Option.bind_some, framing, hp]
  by_cases ha : b.buf[0] = 0x02
  · by_cases hb : b.buf[1] = 0x10
    · by_cases hle : 16 ≤ b.len
      · simp [ha, hb, hle]
      · simp [ha, hb, hle]
    · simp [ha, hb]
  · simp [ha]

/-- On a completed packet `check` verifies its 16 bytes. -/
theorem check_eq {b : BuffData} (hs : b.slen = bufLen) (hf : b.Fits) {n : ℕ}
    (hn : framing.frameLen b.content = some n) :
    check b = some (verified (b.content.take n)) := by
  have hslen : b.slen = 32 := hs
  have hbl := b.buf_length
  obtain ⟨rfl, hh, hle⟩ := frameLen_iff.mp hn
  rw [content_length hf] at hle
  have h1 : b.read 1 = some 0x10 := by
    obtain ⟨t, ht⟩ := hh.trans (List.take_prefix b.len b.buf)
    change b.buf[1]? = _
    rw [← ht]
    rfl
  have hv := verified_first (b := b) (n := 16) (by omega) (by omega)
  rw [content, List.take_take, Nat.min_eq_left hle, ← hv, check, h1]
  rfl

end MCU2UI

end CdroidDemo.McuPackets
