import CdroidDemo.PacketBuffer
import CdroidDemo.ShiftRegister

/-!
# What the check codes detect

The bit loops are shift registers that take in the text byte by byte, least
significant bit first. A frame with its check code leaves an empty register,
a burst of up to 16 bits changes the code, and the nibble table computes the
same register as the loop.
-/

namespace CdroidDemo.CheckCodes

open CrcChecksum ShiftRegister PacketMemory BuffData McuPackets PacketBuffer

/-- The bits of a byte in transmission order. -/
def byteBits (b : UInt8) : List Bool := (List.range 8).map b.toBitVec.getLsbD

/-- The bits of a byte string in transmission order. -/
def bitStream (p : List UInt8) : List Bool := p.flatMap byteBits

/-! ## The loops as registers -/

/-- One bit of the code is a shift of the register, -/
theorem crcBit_toBitVec (poly crc : UInt16) :
    (crcBit poly crc).toBitVec = shift poly.toBitVec crc.toBitVec := by
  have hc : 0 < crc &&& 0x0001 ↔ crc.toBitVec.getLsbD 0 = true := by
    rw [UInt16.lt_iff_toNat_lt, UInt16.toNat_and]
    change 0 < crc.toNat &&& 1 ↔ crc.toNat.testBit 0 = true
    rw [Nat.and_one_is_mod, Nat.testBit_zero, decide_eq_true_eq]
    omega
  unfold crcBit shift
  by_cases h : crc.toBitVec.getLsbD 0 = true
  · rw [if_pos (hc.mpr h), if_pos h]
    rfl
  · rw [if_neg (fun h' => h (hc.mp h')), if_neg h]
    rfl

/-- and so are several bits. -/
theorem iterate_crcBit_toBitVec (poly : UInt16) (n : ℕ) (crc : UInt16) :
    ((crcBit poly)^[n] crc).toBitVec = (shift poly.toBitVec)^[n] crc.toBitVec :=
  Function.Semiconj.iterate_right (crcBit_toBitVec poly) n crc

/-- A byte has eight bits. -/
theorem byteBits_length (b : UInt8) : (byteBits b).length = 8 := by
  rw [byteBits, List.length_map, List.length_range]

/-- They are its value, the lowest first. -/
theorem word_byteBits (b : UInt8) : word 16 (byteBits b) = b.toBitVec.setWidth 16 := by
  refine BitVec.eq_of_getLsbD_eq fun i hi => ?_
  rw [getLsbD_word, BitVec.getLsbD_setWidth, byteBits, List.getD_eq_getElem?_getD]
  by_cases h : i < 8
  · simp [h]
  · simp [h, BitVec.getLsbD_of_ge b.toBitVec i (by omega)]

/-- A turn of the outer loop feeds the bits of its byte. -/
theorem crcByte_toBitVec (poly crc : UInt16) (b : UInt8) :
    (crcByte poly crc b).toBitVec = feed poly.toBitVec crc.toBitVec (byteBits b) := by
  rw [feed_word _ (by rw [byteBits_length]; omega), byteBits_length, word_byteBits, crcByte,
    iterate_crcBit_toBitVec]
  rfl

/-- The outer loop feeds the bits of the text. -/
theorem foldl_crcByte_toBitVec (poly crc : UInt16) (p : List UInt8) :
    (p.foldl (crcByte poly) crc).toBitVec = feed poly.toBitVec crc.toBitVec (bitStream p) := by
  induction p generalizing crc with
  | nil => rfl
  | cons b p ih =>
    rw [List.foldl_cons, ih, crcByte_toBitVec, ← feed_append]
    rfl

/-- The check code of a text is the register that is fed its bits. -/
theorem crc16Modbus_toBitVec (p : List UInt8) :
    (crc16Modbus p).toBitVec = feed 0xA001#16 0xffff#16 (bitStream p) :=
  foldl_crcByte_toBitVec _ _ p

/-! ## Trailers -/

/-- The check code behind the text, low byte first, is its register's own
bits. -/
theorem word_trailer (r : UInt16) : word 16 (bitStream [lowByte r, highByte r]) = r.toBitVec := by
  have hs : bitStream [lowByte r, highByte r] = byteBits (lowByte r) ++ byteBits (highByte r) := by
    rw [bitStream, List.flatMap_cons, List.flatMap_singleton]
  have hlow : (lowByte r).toBitVec = r.toBitVec.setWidth 8 := by
    refine BitVec.eq_of_toNat_eq ?_
    change (r.toNat &&& (2 ^ 8 - 1)) % 2 ^ 8 = (r.toBitVec.setWidth 8).toNat
    rw [Nat.and_two_pow_sub_one_eq_mod, Nat.mod_mod, BitVec.toNat_setWidth]
    rfl
  have hhigh : (highByte r).toBitVec = (r.toBitVec >>> 8).setWidth 8 := rfl
  rw [hs, word_append, byteBits_length, word_byteBits, word_byteBits, hlow, hhigh]
  refine BitVec.eq_of_getLsbD_eq fun i hi => ?_
  rw [BitVec.getLsbD_xor, BitVec.getLsbD_shiftLeft, BitVec.getLsbD_setWidth,
    BitVec.getLsbD_setWidth, BitVec.getLsbD_setWidth, BitVec.getLsbD_setWidth,
    BitVec.getLsbD_ushiftRight]
  by_cases h : i < 8
  · simp [h, hi]
  · have h₁ : i - 8 < 8 := by omega
    have h₂ : 8 + (i - 8) = i := by omega
    have h₃ : i - 8 < 16 := by omega
    simp [h, hi, h₁, h₂, h₃]

/-- A text followed by its check code leaves an empty register. -/
theorem crc16Modbus_trailer (p : List UInt8) :
    crc16Modbus (p ++ [lowByte (crc16Modbus p), highByte (crc16Modbus p)]) = 0 := by
  refine UInt16.toBitVec_inj.mp ?_
  have hlen : (bitStream [lowByte (crc16Modbus p), highByte (crc16Modbus p)]).length ≤ 16 :=
    Nat.le_refl 16
  rw [crc16Modbus_toBitVec, bitStream, List.flatMap_append, feed_append, ← bitStream,
    ← crc16Modbus_toBitVec, ← word_trailer (crc16Modbus p)]
  exact feed_own _ hlen

/-- Two writes at the end of a prefix replace its last two entries. -/
theorem take_set_set {l : List UInt8} {n : ℕ} (hn : 2 ≤ n) (hl : n ≤ l.length) (x y : UInt8) :
    ((l.set (n - 2) x).set (n - 1) y).take n = l.take (n - 2) ++ [x, y] := by
  obtain ⟨m, rfl⟩ := Nat.exists_eq_add_of_le' hn
  have hm : (l.take m).length = m := List.length_take_of_le (by omega)
  rw [List.take_set, List.take_set, List.take_succ_eq_append_getElem (by omega),
    List.take_succ_eq_append_getElem (by omega), List.append_assoc, Nat.add_sub_cancel,
    List.set_append_right _ _ (by omega), List.set_append_right _ _ (by omega), hm, Nat.sub_self,
    show m + 2 - 1 - m = 1 by omega]
  rfl

/-- Coding a frame appends a check code that its receiver can verify by an
empty register, and coding it again changes nothing. -/
theorem checkcode_residue {b : BuffData} (hl : 2 ≤ b.len) (hs : b.len ≤ b.slen) :
    ∃ b', UI2MCU.checkcode b = some b' ∧ b'.len = b.len ∧
      b'.buf.take (b.len - 2) = b.buf.take (b.len - 2) ∧ b'.buf.drop b.len = b.buf.drop b.len ∧
      crc16Modbus (b'.buf.take b.len) = 0 ∧ checkCode .mcu b' = some b' := by
  obtain ⟨b', h, ht, hs', hl', hb⟩ := UI2MCU.checkcode_spec hl hs
  have hbl := b.buf_length
  have htake := take_set_set hl (hbl ▸ hs) (lowByte (crc16Modbus (b.buf.take (b.len - 2))))
    (highByte (crc16Modbus (b.buf.take (b.len - 2))))
  rw [← hb] at htake
  have hpre : b'.buf.take (b.len - 2) = b.buf.take (b.len - 2) := by
    rw [hb, List.take_set_of_le (by omega), List.take_set_of_le (Nat.le_refl _)]
  refine ⟨b', h, hl', hpre, ?_, by rw [htake, crc16Modbus_trailer], ?_⟩
  · rw [hb, List.drop_set_of_lt (by omega), List.drop_set_of_lt (by omega)]
  · obtain ⟨b'', h'', ht'', hs'', hl'', hb''⟩ :=
      UI2MCU.checkcode_spec (b := b') (by omega) (by omega)
    have hsame : b'' = b' := by
      refine BuffData.ext (ht''.trans rfl) hs'' hl'' ?_
      rw [hb'', hl', hpre, hb, List.set_comm _ _ (by omega), List.set_set,
        List.set_comm _ _ (by omega), List.set_set]
    rw [checkCode, UI2MCU.parse, if_neg (by omega), Option.bind_eq_bind, Option.bind_some, h'',
      hsame]

/-- Four valid bytes with stale ones behind them. -/
theorem checkcode_residue_header :
    ∃ b', UI2MCU.checkcode ⟨.mcu, 6, 4, [0x02, 0x10, 7, 7, 8, 9], rfl⟩ = some b' ∧ b'.len = 4 ∧
      b'.buf.take 2 = [0x02, 0x10] ∧ b'.buf.drop 4 = [8, 9] ∧ crc16Modbus (b'.buf.take 4) = 0 ∧
      checkCode .mcu b' = some b' :=
  checkcode_residue (b := ⟨.mcu, 6, 4, [0x02, 0x10, 7, 7, 8, 9], rfl⟩) (by decide) (by decide)

/-! ## Bursts -/

/-- A byte can be told from its bits, -/
theorem byteBits_injective : Function.Injective byteBits := by
  intro b c h
  have hw := congrArg (word 16) h
  rw [word_byteBits, word_byteBits] at hw
  refine UInt8.toBitVec_inj.mp (BitVec.eq_of_getLsbD_eq fun i hi => ?_)
  have hb := congrArg (BitVec.getLsbD · i) hw
  simpa [show i < 16 by omega] using hb

/-- a text has eight bits a byte, -/
theorem bitStream_length (p : List UInt8) : (bitStream p).length = 8 * p.length := by
  induction p with
  | nil => rfl
  | cons b p ih =>
    rw [bitStream, List.flatMap_cons, List.length_append, byteBits_length, ← bitStream, ih,
      List.length_cons]
    omega

/-- and it can be told from its bits. -/
theorem bitStream_injective : Function.Injective bitStream := by
  intro p q h
  have hl : p.length = q.length := by
    have := congrArg List.length h
    rw [bitStream_length, bitStream_length] at this
    omega
  induction p generalizing q with
  | nil => exact (List.length_eq_zero_iff.mp hl.symm).symm
  | cons b p ih =>
    cases q with
    | nil => cases hl
    | cons c q =>
      rw [bitStream, bitStream, List.flatMap_cons, List.flatMap_cons] at h
      obtain ⟨hb, hp⟩ := List.append_inj h (by rw [byteBits_length, byteBits_length])
      rw [byteBits_injective hb, ih hp (Nat.succ.inj hl)]

/-- Strings that agree outside a window share what is before and behind it. -/
theorem window_split {α : Type} {s t : List α} {i n : ℕ}
    (h : ∀ k, s[k]? ≠ t[k]? → i ≤ k ∧ k < i + n) :
    s.take i = t.take i ∧ s.drop (i + n) = t.drop (i + n) := by
  constructor
  · refine List.ext_getElem? fun k => ?_
    rw [List.getElem?_take, List.getElem?_take]
    split
    · by_contra hne
      have := (h k hne).1
      omega
    · rfl
  · refine List.ext_getElem? fun k => ?_
    rw [List.getElem?_drop, List.getElem?_drop]
    by_contra hne
    have := (h _ hne).2
    omega

/-- A text is what is before, in and behind a window. -/
theorem window_parts {α : Type} (s : List α) (i n : ℕ) :
    s = s.take i ++ (s.drop i).take n ++ s.drop (i + n) := by
  rw [List.append_assoc, ← List.drop_drop, List.take_append_drop, List.take_append_drop]

/-- The check code of two different texts of one length differs when their
bits differ only inside a window of 16. -/
theorem burst_detected {p q : List UInt8} (hl : p.length = q.length) (hne : p ≠ q) {i : ℕ}
    (hw : ∀ k, (bitStream p)[k]? ≠ (bitStream q)[k]? → i ≤ k ∧ k < i + 16) :
    crc16Modbus p ≠ crc16Modbus q := by
  intro h
  obtain ⟨ha, hb⟩ := window_split hw
  have hf : feed 0xA001#16 0xffff#16 (bitStream p) = feed 0xA001#16 0xffff#16 (bitStream q) := by
    rw [← crc16Modbus_toBitVec, h, crc16Modbus_toBitVec]
  have hp := window_parts (bitStream p) i 16
  have hq := window_parts (bitStream q) i 16
  rw [← ha, ← hb] at hq
  rw [hp, hq] at hf
  have hu : ((bitStream p).drop i).take 16 = ((bitStream q).drop i).take 16 := by
    refine feed_burst _ (by decide) _ ?_ (List.length_take_le 16 _) hf
    simp only [List.length_take, List.length_drop, bitStream_length, hl]
  rw [hu, ← hq] at hp
  exact hne (bitStream_injective hp)

/-- Sixteen bits of three bytes are changed in the middle of a text. -/
theorem burst_detected_bytes :
    crc16Modbus [0x02, 0x81, 0x7e, 0x05] ≠ crc16Modbus [0xe2, 0x7e, 0x61, 0x05] := by
  refine burst_detected (i := 5) rfl (by decide) fun k h => ?_
  have hp : (bitStream [0x02, 0x81, 0x7e, 0x05]).length = 32 := rfl
  have hq : (bitStream [0xe2, 0x7e, 0x61, 0x05]).length = 32 := rfl
  have hall : ∀ k < 32, (bitStream [0x02, 0x81, 0x7e, 0x05])[k]? ≠
      (bitStream [0xe2, 0x7e, 0x61, 0x05])[k]? → 5 ≤ k ∧ k < 5 + 16 := by
    decide
  refine hall k ?_ h
  by_contra hk
  exact h (by rw [List.getElem?_eq_none (by omega), List.getElem?_eq_none (by omega)])

/-! ## The nibble table -/

/-- The table holds four shifts of every nibble. -/
theorem tCRCData_eq : ∀ n : Fin 16,
    tCRCData[n.val]? = some ((crcBit 0x8408)^[4] (UInt16.ofNat n.val)) := by decide

/-- The lowest four bits of a word. -/
theorem low_nibble (r : BitVec 16) : r ^^^ (r >>> 4) <<< 4 = r &&& 0x0f := by
  refine BitVec.eq_of_getLsbD_eq fun i hi => ?_
  have h15 : (0x0f : BitVec 16).getLsbD i = decide (i < 4) := by
    change (BitVec.ofNat 16 15).getLsbD i = _
    rw [BitVec.getLsbD_ofNat, decide_eq_true hi, Bool.true_and]
    exact Nat.testBit_two_pow_sub_one 4 i
  rw [BitVec.getLsbD_xor, BitVec.getLsbD_shiftLeft, BitVec.getLsbD_ushiftRight,
    BitVec.getLsbD_and, h15]
  by_cases h : i < 4
  · simp [h]
  · have h₁ : 4 + (i - 4) = i := by omega
    simp [h, hi, h₁]

/-- A lookup takes in a nibble and shifts four times. -/
theorem lookup_eq (vCRC nibble : UInt16) (h : nibble.toNat < 16) :
    lookup vCRC nibble = some ((crcBit 0x8408)^[4] (vCRC ^^^ nibble)) := by
  have hi : ((vCRC &&& 0x0f) ^^^ nibble).toNat < 16 := by
    rw [UInt16.toNat_xor, UInt16.toNat_and]
    exact Nat.xor_lt_two_pow (n := 4) (Nat.and_lt_two_pow _ (by decide)) h
  have hn : nibble.toBitVec >>> 4 = 0 := by
    refine BitVec.eq_of_toNat_eq ?_
    rw [BitVec.toNat_ushiftRight]
    exact (Nat.shiftRight_eq_div_pow _ _).trans (Nat.div_eq_of_lt h)
  have ht := tCRCData_eq ⟨_, hi⟩
  rw [UInt16.ofNat_toNat] at ht
  rw [lookup, ht, Option.bind_eq_bind, Option.bind_some]
  refine congrArg some (UInt16.toBitVec_inj.mp ?_)
  have hstep := iterate_shift_table (UInt16.toBitVec 0x8408) hn vCRC.toBitVec
  rw [low_nibble] at hstep
  rw [UInt16.toBitVec_xor, iterate_crcBit_toBitVec, iterate_crcBit_toBitVec]
  exact hstep.symm

/-- Two lookups, the low nibble first, are a turn of the outer loop. -/
theorem lookup_lookup (vCRC : UInt16) (b : UInt8) :
    ∃ r, lookup vCRC (b.toUInt16 &&& 0x0f) = some r ∧
      lookup r (b.toUInt16 >>> 4) = some (crcByte 0x8408 vCRC b) := by
  have hlow : (b.toUInt16 &&& 0x0f).toNat < 16 := by
    rw [UInt16.toNat_and]
    exact Nat.and_lt_two_pow (n := 4) _ (by decide)
  have hhigh : (b.toUInt16 >>> 4).toNat < 16 := by
    have := b.toNat_lt
    change b.toNat >>> 4 < 16
    rw [Nat.shiftRight_eq_div_pow]
    omega
  refine ⟨_, lookup_eq _ _ hlow, ?_⟩
  rw [lookup_eq _ _ hhigh, crcByte]
  refine congrArg some (UInt16.toBitVec_inj.mp ?_)
  have hb := low_nibble b.toUInt16.toBitVec
  have hf := fits_ushiftRight 4 b.toUInt16.toBitVec
  rw [iterate_crcBit_toBitVec, iterate_crcBit_toBitVec, UInt16.toBitVec_xor,
    iterate_crcBit_toBitVec]
  change (shift _)^[4] ((shift _)^[4] _ ^^^ b.toUInt16.toBitVec >>> 4) = _
  have hsum : (b.toUInt16 &&& 0x0f).toBitVec ^^^ (b.toUInt16.toBitVec >>> 4) <<< 4 =
      b.toUInt16.toBitVec := by
    change (b.toUInt16.toBitVec &&& 0x0f) ^^^ _ = _
    rw [← hb, BitVec.xor_assoc, BitVec.xor_self, BitVec.xor_zero]
  rw [iterate_shift_absorb _ hf, ← Function.iterate_add_apply, UInt16.toBitVec_xor,
    BitVec.xor_assoc, hsum]
  rfl

/-- The loop over the table computes the code byte by byte. -/
theorem fucGetCrcLoop_eq (vCRC : UInt16) (p : List UInt8) :
    fucGetCrcLoop p.length vCRC p = some (p.foldl (crcByte 0x8408) vCRC) := by
  induction p generalizing vCRC with
  | nil => rfl
  | cons b p ih =>
    obtain ⟨r, h₁, h₂⟩ := lookup_lookup vCRC b
    rw [List.length_cons, fucGetCrcLoop, h₁, Option.bind_eq_bind, Option.bind_some, h₂,
      Option.bind_some, ih, List.foldl_cons]

/-- `Fuc_GetCRC` complements the register of the bit loop of `CRC16_CCITT`. -/
theorem fucGetCrc_eq_loop (v : UInt16) {p : List UInt8} (h : p.length ≤ 255) :
    fucGetCrc v p (UInt8.ofNat p.length) = some (~~~p.foldl (crcByte 0x8408) v) ∧
      fucGetCrc 0 p (UInt8.ofNat p.length) = some (~~~crc16Ccitt p) := by
  have hlen : (UInt8.ofNat p.length).toNat = p.length :=
    UInt8.toNat_ofNat_of_lt' (Nat.lt_succ_of_le h)
  constructor
  · rw [fucGetCrc, hlen, fucGetCrcLoop_eq]
    rfl
  · rw [fucGetCrc, hlen, fucGetCrcLoop_eq]
    rfl

/-- The code of two digits, from both initial values. -/
theorem fucGetCrc_eq_loop_digits :
    fucGetCrc 0xffff [0x31, 0x32] 2 = some (~~~[0x31, 0x32].foldl (crcByte 0x8408) 0xffff) ∧
      fucGetCrc 0 [0x31, 0x32] 2 = some (~~~crc16Ccitt [0x31, 0x32]) :=
  fucGetCrc_eq_loop 0xffff (p := [0x31, 0x32]) (by decide)

/-! ## The sum of the module frames -/

open TuyaPackets

/-- A sum can be told from any one of its terms. -/
theorem foldl_add_injective (q : List UInt8) :
    Function.Injective fun a : UInt8 => q.foldl (· + ·) a := by
  induction q with
  | nil => exact fun _ _ h => h
  | cons x q ih =>
    intro a b h
    change q.foldl (· + ·) (a + x) = q.foldl (· + ·) (b + x) at h
    exact UInt8.add_left_inj x |>.mp (ih h)

/-- Another value for one byte changes the sum. -/
theorem byteSum_set_ne {l : List UInt8} {i : ℕ} {v : UInt8} (hi : i < l.length)
    (hv : l[i]? ≠ some v) : byteSum (l.set i v) ≠ byteSum l := by
  intro h
  have hl : l = l.take i ++ l[i] :: l.drop (i + 1) := by
    rw [← List.drop_eq_getElem_cons, List.take_append_drop]
  rw [List.set_eq_take_append_cons_drop, if_pos hi] at h
  conv at h => rhs; rw [hl]
  rw [byteSum, byteSum, List.foldl_append, List.foldl_append, List.foldl_cons,
    List.foldl_cons] at h
  have he := UInt8.add_right_inj _ |>.mp (foldl_add_injective _ h)
  exact hv (by rw [List.getElem?_eq_getElem hi, he])

/-- The declared length lies in bytes 4 and 5. -/
theorem declaredLen_set {l : List UInt8} {i : ℕ} (h4 : i ≠ 4) (h5 : i ≠ 5) (v : UInt8) :
    declaredLen (l.set i v) = declaredLen l := by
  rw [declaredLen, declaredLen, List.getD_eq_getElem?_getD, List.getD_eq_getElem?_getD,
    List.getElem?_set_ne h4, List.getElem?_set_ne h5, ← List.getD_eq_getElem?_getD,
    ← List.getD_eq_getElem?_getD]

section ModuleFrames

variable {b : BuffData}

/-- The byte that codes a frame is the sum of those before it. -/
theorem UI2TUYA_checkcode_spec (hs : b.slen = UI2TUYA.bufLen) (hl : declaredLen b.buf ≤ 121) :
    ∃ b', UI2TUYA.checkcode b = some b' ∧ b'.type = b.type ∧ b'.slen = b.slen ∧
      b'.len = declaredLen b.buf + 7 ∧ b'.buf = b.buf.set (declaredLen b.buf + 6)
        (byteSum (b.buf.take (declaredLen b.buf + 6))) := by
  have hslen : b.slen = 128 := hs
  have hmod : (declaredLen b.buf + 7 - 1) % 256 = declaredLen b.buf + 6 := by omega
  obtain ⟨b', h, ht, hs', -, hb⟩ :=
    write_spec (show declaredLen b.buf + 7 - 1 < b.slen by omega)
      (byteSum (b.buf.take (declaredLen b.buf + 6)))
  refine ⟨b'.setLen (declaredLen b.buf + 7), ?_, ht, hs', rfl, hb⟩
  rw [UI2TUYA.checkcode, TUYA2UI.readLen_eq hs, Option.bind_eq_bind, Option.bind_some]
  dsimp only
  rw [hmod, sum_eq (by omega), Option.bind_eq_bind, Option.bind_some, h]
  rfl

/-- `TUYA2UI::check` compares the last byte of the declared frame. -/
theorem TUYA2UI_check_iff (hs : b.slen = TUYA2UI.bufLen) (hl : declaredLen b.buf ≤ 121) :
    TUYA2UI.check b = some (decide (b.buf[declaredLen b.buf + 6]? =
      some (byteSum (b.buf.take (declaredLen b.buf + 6))))) := by
  have hslen : b.slen = 128 := hs
  have hbl := b.buf_length
  have hmod : (declaredLen b.buf + 7 - 1) % 256 = declaredLen b.buf + 6 := by omega
  have hread := read_eq_some (show declaredLen b.buf + 7 - 1 < b.buf.length by omega)
  rw [TUYA2UI.check, TUYA2UI.readLen_eq hs, Option.bind_eq_bind, Option.bind_some]
  dsimp only
  rw [hmod, sum_eq (by omega), hread, List.getElem?_eq_getElem (by omega)]
  simp only [Option.bind_eq_bind, Option.bind_some, Option.some.injEq]
  rfl

/-- Another value for a byte of a correct frame, its length field apart, is
detected. -/
theorem TUYA2UI_check_write (hs : b.slen = TUYA2UI.bufLen) (hl : declaredLen b.buf ≤ 121)
    (hc : TUYA2UI.check b = some true) {i : ℕ} {v : UInt8} (hi : i < declaredLen b.buf + 7)
    (h4 : i ≠ 4) (h5 : i ≠ 5) (hv : b.read i ≠ some v) :
    ∃ c, b.write i v = some c ∧ TUYA2UI.check c = some false := by
  have hslen : b.slen = 128 := hs
  have hbl := b.buf_length
  obtain ⟨c, h, -, hs', -, hb⟩ := write_spec (show i < b.slen by omega) v
  have hd : declaredLen c.buf = declaredLen b.buf := by rw [hb, declaredLen_set h4 h5]
  rw [TUYA2UI_check_iff hs hl, Option.some.injEq, decide_eq_true_eq] at hc
  refine ⟨c, h, ?_⟩
  rw [TUYA2UI_check_iff (hs'.trans hs) (hd.le.trans hl), hd, hb, Option.some.injEq,
    decide_eq_false_iff_not]
  by_cases hlast : i = declaredLen b.buf + 6
  · rw [hlast, List.take_set_of_le (Nat.le_refl _), List.getElem?_set_self (by omega), ← hc]
    rw [hlast] at hv
    exact fun h => hv h.symm
  · rw [List.getElem?_set_ne hlast, hc, List.take_set]
    refine fun h => byteSum_set_ne ?_ ?_ (Option.some.inj h).symm
    · rw [List.length_take]
      omega
    · rw [List.getElem?_take, if_pos (by omega)]
      exact hv

/-- A coded frame is accepted, coding it again changes nothing, and another
value for one of its bytes behind a kept length field is detected. -/
theorem module_frames_agree (hs : b.slen = UI2TUYA.bufLen) (hl : declaredLen b.buf ≤ 121) :
    ∃ b', UI2TUYA.checkcode b = some b' ∧ b'.len = declaredLen b.buf + 7 ∧
      b'.type = b.type ∧ b'.slen = b.slen ∧
      (∀ i, i ≠ b'.len - 1 → b'.read i = b.read i) ∧
      UI2TUYA.checkcode b' = some b' ∧ TUYA2UI.check b' = some true ∧
      ∀ i v, i < b'.len → i ≠ 4 → i ≠ 5 → b'.read i ≠ some v →
        ∃ c, b'.write i v = some c ∧ TUYA2UI.check c = some false := by
  have hslen : b.slen = 128 := hs
  have hbl := b.buf_length
  obtain ⟨b', h, ht, hs', hn, hb⟩ := UI2TUYA_checkcode_spec hs hl
  have hd : declaredLen b'.buf = declaredLen b.buf := by
    rw [hb, declaredLen_set (by omega) (by omega)]
  have htake : b'.buf.take (declaredLen b.buf + 6) = b.buf.take (declaredLen b.buf + 6) := by
    rw [hb, List.take_set_of_le (Nat.le_refl _)]
  have hcheck : TUYA2UI.check b' = some true := by
    rw [TUYA2UI_check_iff (hs'.trans hs) (hd.le.trans hl), hd, htake, hb,
      List.getElem?_set_self (by omega), decide_eq_true rfl]
  obtain ⟨b'', h'', ht'', hs'', hn'', hb''⟩ :=
    UI2TUYA_checkcode_spec (hs'.trans hs) (hd.le.trans hl)
  have hsame : b'' = b' := by
    refine BuffData.ext ht'' hs'' (by rw [hn'', hn, hd]) ?_
    rw [hb'', hd, htake, hb, List.set_set]
  refine ⟨b', h, hn, ht, hs', fun i hi => ?_, hsame ▸ h'', hcheck, fun i v hi h4 h5 hv => ?_⟩
  · change b'.buf[i]? = b.buf[i]?
    rw [hb, List.getElem?_set_ne (by omega)]
  · exact TUYA2UI_check_write (hs'.trans hs) (hd.le.trans hl) hcheck (by omega) h4 h5 hv

end ModuleFrames

/-- A frame of three bytes of data, not coded yet. -/
def reportFrame : BuffData :=
  ⟨.tuyaMcu, 128, 0, [0x55, 0xaa, 0, 7, 0, 3, 1, 2, 3] ++ List.replicate 119 0, by
    rw [List.length_append, List.length_replicate, List.length_cons]
    rfl⟩

/-- It is accepted when it is coded, and not with another byte of data. -/
theorem module_frames_agree_report :
    ∃ b', UI2TUYA.checkcode reportFrame = some b' ∧ b'.len = 10 ∧ b'.read 7 = some 2 ∧
      TUYA2UI.check b' = some true ∧
      ∃ c, b'.write 7 9 = some c ∧ TUYA2UI.check c = some false := by
  have hd : declaredLen reportFrame.buf = 3 := by decide
  obtain ⟨b', h, hn, -, -, hread, -, hc, hall⟩ :=
    module_frames_agree (b := reportFrame) rfl (by rw [hd]; omega)
  rw [hd] at hn
  have h7 : b'.read 7 = some 2 := (hread 7 (by omega)).trans rfl
  refine ⟨b', h, hn, h7, hc, hall 7 9 (by omega) (by omega) (by omega) ?_⟩
  rw [h7]
  decide

end CdroidDemo.CheckCodes
