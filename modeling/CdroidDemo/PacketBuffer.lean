import CdroidDemo.McuPackets
import CdroidDemo.TuyaPackets

/-!
# Packet operations by type

`SDHWPacketBuffer` hands the packet operations on to the classes of its type.
Types without packet classes leave them uninitialised, so their packet
operations fail.
-/

namespace CdroidDemo.PacketBuffer

open HeaderResync FramedReceiver PacketMemory BuffData McuPackets TuyaPackets

/-- Payload size `obtain` allocates for a type. -/
def bufLen : BufferType → ℕ
  | .mcu => MCU2UI.bufLen
  | .tuyaMcu => TUYA2UI.bufLen
  | _ => 8

/-- The zeroed buffer that `obtain` allocates for a type. -/
def allocate (mType : BufferType) : BuffData where
  type := mType
  slen := bufLen mType
  len := 0
  buf := List.replicate (bufLen mType) 0
  buf_length := List.length_replicate

/-- `SDHWPacketBuffer::add`. -/
def add (mType : BufferType) (buf : BuffData) (inBuf : List UInt8) : Option (BuffData × ℕ) :=
  match mType with
  | .mcu => MCU2UI.add buf inBuf
  | .tuyaMcu => TUYA2UI.add buf inBuf
  | _ => none

/-- `SDHWPacketBuffer::complete`. -/
def complete (mType : BufferType) (buf : BuffData) : Option Bool :=
  match mType with
  | .mcu => MCU2UI.complete buf
  | .tuyaMcu => TUYA2UI.complete buf
  | _ => none

/-- `SDHWPacketBuffer::check`. -/
def check (mType : BufferType) (buf : BuffData) : Option Bool :=
  match mType with
  | .mcu => MCU2UI.check buf
  | .tuyaMcu => TUYA2UI.check buf
  | _ => none

/-- `SDHWPacketBuffer::check_code`. -/
def checkCode (mType : BufferType) (buf : BuffData) : Option BuffData :=
  match mType with
  | .mcu => do UI2MCU.checkcode (← UI2MCU.parse buf)
  | .tuyaMcu => do UI2TUYA.checkcode (← UI2TUYA.parse buf)
  | _ => none

/-- The byte loop of `compare`: turns left and `i`. -/
def sameFrom (src dst : BuffData) : ℕ → ℕ → Option Bool
  | 0, _ => some true
  | k + 1, i => do
    if (← src.read i) ≠ (← dst.read i) then return false
    else sameFrom src dst k (i + 1)

/-- `src->buf[6] || src->buf[7] || src->buf[8] || src->buf[9]`. -/
def hasKey (src : BuffData) : Option Bool := do
  if (← src.read 6) ≠ 0 then return true
  else if (← src.read 7) ≠ 0 then return true
  else if (← src.read 8) ≠ 0 then return true
  else return decide ((← src.read 9) ≠ 0)

/-- `SDHWPacketBuffer::compare`: whether two packets repeat each other. -/
def compare (mType : BufferType) (src dst : BuffData) : Option Bool :=
  match mType with
  | .mcu =>
    if src.type ≠ dst.type then some false
    else if src.len ≠ dst.len then some false
    else do
      if ← sameFrom src dst src.len 0 then return !(← hasKey src)
      else return false
  | .tuyaMcu => some false
  | _ => some true

/-! ## What the packet operations compute -/

/-- The framing of a packet type. -/
def framing : BufferType → Option (Framing UInt8)
  | .mcu => some MCU2UI.framing
  | .tuyaMcu => some TUYA2UI.framing
  | _ => none

/-- Packets are received on connections of both types. -/
theorem framing_exists {t : BufferType} (ht : t = .mcu ∨ t = .tuyaMcu) :
    ∃ F, framing t = some F := by
  rcases ht with rfl | rfl
  · exact ⟨_, rfl⟩
  · exact ⟨_, rfl⟩

/-- A buffer allocated for a type, with its valid bytes inside the payload. -/
structure Sized (t : BufferType) (b : BuffData) : Prop where
  /-- The kind of the buffer. -/
  type : b.type = t
  /-- Its size is the one of its kind. -/
  slen : b.slen = bufLen t
  /-- Its length is inside its size. -/
  fits : b.Fits

/-- A fresh buffer has the size of its kind. -/
theorem allocate_sized (t : BufferType) : Sized t (allocate t) := ⟨rfl, rfl, Nat.zero_le _⟩

/-- The capacity of the framing is the size of the buffer. -/
theorem framing_cap {t : BufferType} {F : Framing UInt8} (h : framing t = some F) :
    F.cap = bufLen t := by
  cases t <;> cases h <;> rfl

/-- `add` is a fill of the framed receiver and keeps the buffer sized. -/
theorem add_eq {t : BufferType} {F : Framing UInt8} (hF : framing t = some F) {b : BuffData}
    (hb : Sized t b) (ha : Aligned F b.content) (bf : List UInt8) :
    ∃ b' rest, add t b bf = some (b', bf.length - rest.length) ∧ Sized t b' ∧ rest <:+ bf ∧
      Synced F (b.content ++ bf) b'.content rest := by
  have hs := hb.slen.trans (framing_cap hF).symm
  cases t with
  | null => cases hF
  | factory => cases hF
  | mcu =>
    cases hF
    obtain ⟨b', rest, h, ht, hsl, hf, hsuf, hsync⟩ :=
      PacketAssembly.add_synced MCU2UI.findHead_locates bf hs hb.fits ha
    exact ⟨b', rest, h, ⟨ht.trans hb.type, hsl.trans hb.slen, hf⟩, hsuf, hsync⟩
  | tuyaMcu =>
    cases hF
    obtain ⟨b', rest, h, ht, hsl, hf, hsuf, hsync⟩ :=
      PacketAssembly.add_synced TUYA2UI.findHead_locates bf hs hb.fits ha
    exact ⟨b', rest, h, ⟨ht.trans hb.type, hsl.trans hb.slen, hf⟩, hsuf, hsync⟩

/-- `complete` recognises exactly the packets of the framing. -/
theorem complete_eq {t : BufferType} {F : Framing UInt8} (hF : framing t = some F) {b : BuffData}
    (hb : Sized t b) : complete t b = some (F.frameLen b.content).isSome := by
  cases t with
  | null => cases hF
  | factory => cases hF
  | mcu => cases hF; exact MCU2UI.complete_eq hb.slen hb.fits
  | tuyaMcu => cases hF; exact TUYA2UI.complete_eq hb.slen hb.fits

/-- On a completed packet `check` verifies its bytes. -/
theorem check_eq {t : BufferType} {F : Framing UInt8} (hF : framing t = some F) {b : BuffData}
    (hb : Sized t b) {n : ℕ} (hn : F.frameLen b.content = some n) :
    check t b = some (verified (b.content.take n)) := by
  cases t with
  | null => cases hF
  | factory => cases hF
  | mcu => cases hF; exact MCU2UI.check_eq hb.slen hb.fits hn
  | tuyaMcu => cases hF; exact TUYA2UI.check_eq hb.slen hb.fits hn

/-- Bytes 6 to 9, the key bytes, are all zero. -/
def KeysZero (l : List UInt8) : Prop :=
  l[6]? = some 0 ∧ l[7]? = some 0 ∧ l[8]? = some 0 ∧ l[9]? = some 0

instance (l : List UInt8) : Decidable (KeysZero l) := inferInstanceAs (Decidable (_ ∧ _))

/-- Inside both buffers `sameFrom` compares the two stretches. -/
theorem sameFrom_eq {src dst : BuffData} {k i : ℕ} (hs : i + k ≤ src.slen) (hd : i + k ≤ dst.slen) :
    sameFrom src dst k i =
      some (decide ((src.buf.drop i).take k = (dst.buf.drop i).take k)) := by
  induction k generalizing i with
  | zero => simp [sameFrom]
  | succ k ih =>
    have hsi : i < src.buf.length := by rw [src.buf_length]; omega
    have hdi : i < dst.buf.length := by rw [dst.buf_length]; omega
    rw [sameFrom, read_eq_some hsi, read_eq_some hdi]
    rw [List.drop_eq_getElem_cons hsi, List.drop_eq_getElem_cons hdi]
    simp only [Option.bind_eq_bind, Option.bind_some, List.take_succ_cons, List.cons.injEq]
    by_cases he : src.buf[i] = dst.buf[i]
    · simp only [he, ne_eq, not_true_eq_false, if_false, true_and]
      exact ih (by omega) (by omega)
    · simp [he]

/-- In a buffer that holds the key bytes `hasKey` looks whether one is set. -/
theorem hasKey_eq {b : BuffData} (h : 10 ≤ b.slen) : hasKey b = some (!decide (KeysZero b.buf)) := by
  have hl := b.buf_length
  have h6 : 6 < b.buf.length := by omega
  have h7 : 7 < b.buf.length := by omega
  have h8 : 8 < b.buf.length := by omega
  have h9 : 9 < b.buf.length := by omega
  have hk : KeysZero b.buf ↔ b.buf[6] = 0 ∧ b.buf[7] = 0 ∧ b.buf[8] = 0 ∧ b.buf[9] = 0 := by
    rw [KeysZero, List.getElem?_eq_getElem h6, List.getElem?_eq_getElem h7,
      List.getElem?_eq_getElem h8, List.getElem?_eq_getElem h9]
    simp only [Option.some.injEq]
  rw [hasKey, read_eq_some h6, read_eq_some h7, read_eq_some h8, read_eq_some h9]
  simp only [Option.bind_eq_bind, Option.bind_some, hk]
  by_cases e6 : b.buf[6] = 0
  · by_cases e7 : b.buf[7] = 0
    · by_cases e8 : b.buf[8] = 0
      · simp [e6, e7, e8]
      · simp [e6, e7, e8]
    · simp [e6, e7]
  · simp [e6]

/-- Two MCU packets repeat each other when they agree in type, length and
every valid byte and no key byte is set. -/
theorem compare_mcu {src dst : BuffData} (hs : Sized .mcu src) (hd : Sized .mcu dst) :
    compare .mcu src dst =
      some (decide (src.len = dst.len ∧ src.content = dst.content ∧ KeysZero src.buf)) := by
  have hsl : src.slen = 32 := hs.slen
  have hdl : dst.slen = 32 := hd.slen
  have hsf : src.len ≤ src.slen := hs.fits
  have hdf : dst.len ≤ dst.slen := hd.fits
  have ht : ¬src.type ≠ dst.type := fun h => h (hs.type.trans hd.type.symm)
  simp only [compare, if_neg ht]
  by_cases hlen : src.len = dst.len
  · have hcmp := sameFrom_eq (show 0 + src.len ≤ src.slen by omega)
      (show 0 + src.len ≤ dst.slen by omega)
    rw [List.drop_zero, List.drop_zero] at hcmp
    rw [if_neg (fun h => h hlen), hcmp, hasKey_eq (by omega)]
    simp only [Option.bind_eq_bind, Option.bind_some, hlen, content, true_and]
    by_cases hc : src.buf.take dst.len = dst.buf.take dst.len
    · simp [hc]
    · simp [hc]
  · rw [if_pos hlen]
    simp [hlen]

/-! ## Completing a packet to be sent -/

/-- Buffers that `checkCode` can complete: a packet to the MCU is empty or has
room for its check code, one to the module declares a length it can hold. -/
def Codable : BufferType → BuffData → Prop
  | .mcu, b => b.len ≠ 1
  | .tuyaMcu, b => declaredLen b.buf + 7 ≤ UI2TUYA.bufLen
  | _, _ => False

instance : ∀ (t : BufferType) (b : BuffData), Decidable (Codable t b)
  | .mcu, b => inferInstanceAs (Decidable (b.len ≠ 1))
  | .tuyaMcu, b => inferInstanceAs (Decidable (declaredLen b.buf + 7 ≤ UI2TUYA.bufLen))
  | .null, _ => inferInstanceAs (Decidable False)
  | .factory, _ => inferInstanceAs (Decidable False)

/-- Preparing a board buffer keeps its size. -/
theorem UI2MCU_parse_sized {b : BuffData} (hb : Sized .mcu b) (hc : Codable .mcu b) :
    ∃ b', UI2MCU.parse b = some b' ∧ Sized .mcu b' ∧ 2 ≤ b'.len := by
  have hs : b.slen = 32 := hb.slen
  have hl : b.len ≠ 1 := hc
  unfold UI2MCU.parse
  split
  · obtain ⟨b', hw, ht, hsl, hn, -⟩ := write_spec (b := b.setLen UI2MCU.bufLen) (i := 0)
      (by rw [setLen_slen]; omega) UI2MCU.headByte
    have hlen : b'.len = 32 := hn
    refine ⟨b', hw, ⟨ht.trans hb.type, hsl.trans hb.slen, ?_⟩, by omega⟩
    unfold Fits
    rw [hlen, hsl, setLen_slen, hs]
  · exact ⟨b, rfl, hb, by omega⟩

/-- Closing a board frame keeps the size of its buffer. -/
theorem UI2MCU_checkcode_sized {b : BuffData} (hb : Sized .mcu b) (hl : 2 ≤ b.len) :
    ∃ b', UI2MCU.checkcode b = some b' ∧ Sized .mcu b' := by
  obtain ⟨b', h, ht, hs, hn, -⟩ := UI2MCU.checkcode_spec hl hb.fits
  refine ⟨b', h, ht.trans hb.type, hs.trans hb.slen, ?_⟩
  unfold Fits
  rw [hn, hs]
  exact hb.fits

/-- Preparing a module buffer keeps its size and the declared length. -/
theorem UI2TUYA_parse_sized {b : BuffData} (hb : Sized .tuyaMcu b) :
    ∃ b', UI2TUYA.parse b = some b' ∧ Sized .tuyaMcu b' ∧
      declaredLen b'.buf = declaredLen b.buf := by
  have hs : b.slen = 128 := hb.slen
  unfold UI2TUYA.parse
  split
  · obtain ⟨b₁, h₁, ht₁, hs₁, hn₁, hb₁⟩ := write_spec (b := b.setLen UI2TUYA.bufLen) (i := 0)
      (by rw [setLen_slen]; omega) 0x55
    rw [setLen_slen] at hs₁
    obtain ⟨b₂, h₂, ht₂, hs₂, hn₂, hb₂⟩ := write_spec (b := b₁) (i := 1) (by omega) 0xaa
    obtain ⟨b₃, h₃, ht₃, hs₃, hn₃, hb₃⟩ := write_spec (b := b₂) (i := 2) (by omega) 0x03
    have hlen : b₁.len = 128 := hn₁
    refine ⟨b₃, ?_, ⟨ht₃.trans (ht₂.trans (ht₁.trans hb.type)), by rw [hs₃, hs₂, hs₁]; exact hs,
      ?_⟩, ?_⟩
    · simp only [h₁, h₂, h₃, Option.bind_eq_bind, Option.bind_some]
    · unfold Fits
      omega
    · rw [hb₃, hb₂, hb₁, setLen_buf]
      simp [declaredLen]
  · exact ⟨b, rfl, hb, rfl⟩

/-- Closing a module frame keeps the size of its buffer. -/
theorem UI2TUYA_checkcode_sized {b : BuffData} (hb : Sized .tuyaMcu b)
    (hc : declaredLen b.buf + 7 ≤ UI2TUYA.bufLen) :
    ∃ b', UI2TUYA.checkcode b = some b' ∧ Sized .tuyaMcu b' := by
  have hs : b.slen = 128 := hb.slen
  have hle : declaredLen b.buf + 7 ≤ 128 := hc
  have hread : readLen b = some (declaredLen b.buf) := by
    have h4 : 4 < b.buf.length := by rw [b.buf_length]; omega
    have h5 : 5 < b.buf.length := by rw [b.buf_length]; omega
    rw [readLen, read_eq_some h4, read_eq_some h5, declaredLen, List.getD_eq_getElem _ _ h4,
      List.getD_eq_getElem _ _ h5]
    rfl
  have hsum := sum_eq (b := b) (n := (declaredLen b.buf + 7 - 1) % 256) (by omega)
  unfold UI2TUYA.checkcode
  rw [hread]
  simp only [Option.bind_eq_bind, Option.bind_some, hsum]
  obtain ⟨b₁, h₁, ht₁, hs₁, hn₁, -⟩ := write_spec
    (show declaredLen b.buf + 7 - 1 < b.slen by omega)
    (byteSum (b.buf.take ((declaredLen b.buf + 7 - 1) % 256)))
  rw [h₁, Option.bind_some]
  refine ⟨_, rfl, ht₁.trans hb.type, hs₁.trans hb.slen, ?_⟩
  unfold Fits
  rw [setLen_len, setLen_slen]
  omega

/-- Completing a codable packet stays inside its payload. -/
theorem checkCode_sized {t : BufferType} {b : BuffData} (hb : Sized t b) (hc : Codable t b) :
    ∃ b', checkCode t b = some b' ∧ Sized t b' := by
  cases t with
  | null => cases hc
  | factory => cases hc
  | mcu =>
    obtain ⟨b₁, h₁, hb₁, hl⟩ := UI2MCU_parse_sized hb hc
    obtain ⟨b₂, h₂, hb₂⟩ := UI2MCU_checkcode_sized hb₁ hl
    exact ⟨b₂, by rw [checkCode, h₁, Option.bind_eq_bind, Option.bind_some, h₂], hb₂⟩
  | tuyaMcu =>
    obtain ⟨b₁, h₁, hb₁, hd⟩ := UI2TUYA_parse_sized hb
    have hle : declaredLen b₁.buf + 7 ≤ UI2TUYA.bufLen := by
      rw [hd]
      exact hc
    obtain ⟨b₂, h₂, hb₂⟩ := UI2TUYA_checkcode_sized hb₁ hle
    exact ⟨b₂, by rw [checkCode, h₁, Option.bind_eq_bind, Option.bind_some, h₂], hb₂⟩

end CdroidDemo.PacketBuffer
