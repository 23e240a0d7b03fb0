import Mathlib.Logic.Function.Basic
import CdroidDemo.SerialClient

/-!
# The connection manager

`CConnMgr` keeps the command to the MCU in `mSndData`. Setters change bytes of
it and count themselves, `send2MCU` builds a frame from it in a buffer of the
pool and hands the frame to the serial client. The buffer is only written at
the command bytes; all others are what the pool has left in it.
-/

namespace CdroidDemo.ConnMgr

open PacketMemory BuffData CrcChecksum McuPackets PacketBuffer BufferPool SerialClient
open UartReceiver

/-- `WaterAction`. -/
inductive WaterAction
  /-- No water. -/
  | null
  /-- Hot water. -/
  | hotWater
  /-- Ice water. -/
  | collWater
  deriving DecidableEq, Repr

/-- The enumeration value. -/
def WaterAction.toUchar : WaterAction → UInt8
  | .null => 0
  | .hotWater => 1
  | .collWater => 2

/-- `CoolStatus`. -/
inductive CoolStatus
  /-- Neither. -/
  | null
  /-- Cooling. -/
  | cool
  /-- Ice. -/
  | ice
  /-- Both. -/
  | coolIce
  deriving DecidableEq, Repr

/-- The enumeration value. -/
def CoolStatus.toUchar : CoolStatus → UInt8
  | .null => 0
  | .cool => 1
  | .ice => 2
  | .coolIce => 3

/-- The conversion of an `int` to a `uchar`. -/
def toUchar (value : Int32) : UInt8 := UInt8.ofInt value.toInt

/-- `flag ? 1 : 0`. -/
def flagByte (flag : Bool) : UInt8 := if flag then 1 else 0

/-- The type of `mSndData`, an array of `UI2MCU::BUF_LEN` bytes. -/
abbrev SndData := Fin 32 → UInt8

/-- Positions of the command are written as numerals. -/
instance neZero_mSndData : @NeZero ℕ Zero.ofOfNat0 32 := Nat.instNeZeroSucc

/-- `CConnMgr` after `init`, as far as sending commands is concerned. -/
structure CConnMgr where
  /-- `mPacket`: the packet buffer of the MCU connection. -/
  mPacket : SDHWPacketBuffer
  /-- `mUartMCU`: the serial client. -/
  mUartMCU : UartClient
  /-- `mSndData`: the command bytes, at their position in the frame. -/
  mSndData : SndData
  /-- `mSetData`: setter calls since the last command. -/
  mSetData : ℕ
  /-- `mLastSendTime`: when a command was built last. -/
  mLastSendTime : ℤ

namespace CConnMgr

/-! ## Setters -/

/-- Every setter changes the command and counts itself. -/
def set (m : CConnMgr) (f : SndData → SndData) : CConnMgr :=
  {m with mSndData := f m.mSndData, mSetData := m.mSetData + 1}

/-- `setWaterAction`. -/
def setWaterAction (m : CConnMgr) (t : WaterAction) : CConnMgr :=
  m.set fun d => Function.update d 3 t.toUchar

/-- `setWaterTem`. -/
def setWaterTem (m : CConnMgr) (value : Int32) : CConnMgr :=
  m.set fun d => Function.update d 4 (toUchar value)

/-- `setWaterYield`. -/
def setWaterYield (m : CConnMgr) (value : Int32) : CConnMgr :=
  m.set fun d => Function.update (Function.update d 5 (toUchar (value >>> 8))) 6
    (toUchar (value &&& 0xff))

/-- `setCooling`. -/
def setCooling (m : CConnMgr) (setValue : CoolStatus) : CConnMgr :=
  m.set fun d => Function.update d 7 setValue.toUchar

/-- `setIceAction`. -/
def setIceAction (m : CConnMgr) (flag : Bool) : CConnMgr :=
  m.set fun d => Function.update d 8 (flagByte flag)

/-- `setHPCCReset`. -/
def setHPCCReset (m : CConnMgr) (flag : Bool) : CConnMgr :=
  m.set fun d => Function.update d 9 (flagByte flag)

/-- `setROReset`. -/
def setROReset (m : CConnMgr) (flag : Bool) : CConnMgr :=
  m.set fun d => Function.update d 10 (flagByte flag)

/-- `setResetStatus`: stops all loads. -/
def setResetStatus (m : CConnMgr) (flag : Bool) : CConnMgr :=
  m.set fun d =>
    if flag then
      Function.update (Function.update (Function.update d 3 WaterAction.null.toUchar) 7
        CoolStatus.null.toUchar) 8 0x00
    else d

/-- `setBeep`: the beep bit is only ever added. -/
def setBeep (m : CConnMgr) (flag : Bool) : CConnMgr :=
  m.set fun d => Function.update d 12 (d 12 ||| flagByte flag)

/-- `closeVolumn`. -/
def closeVolumn (m : CConnMgr) (_flag : Bool) : CConnMgr := m.set id

/-- `setStoveLight`. -/
def setStoveLight (m : CConnMgr) (_flag : Bool) : CConnMgr := m.set id

/-- `setSleep`. -/
def setSleep (m : CConnMgr) (_flag : Bool) : CConnMgr := m.set id

end CConnMgr

/-- A setter call with its arguments. -/
inductive Setter
  /-- Byte 3. -/
  | setWaterAction (t : WaterAction)
  /-- Byte 4. -/
  | setWaterTem (value : Int32)
  /-- Bytes 5 and 6. -/
  | setWaterYield (value : Int32)
  /-- Byte 7. -/
  | setCooling (setValue : CoolStatus)
  /-- Byte 8. -/
  | setIceAction (flag : Bool)
  /-- Byte 9. -/
  | setHPCCReset (flag : Bool)
  /-- Byte 10. -/
  | setROReset (flag : Bool)
  /-- Bytes 9 and 10. -/
  | setResetStatus (flag : Bool)
  /-- A bit of byte 12. -/
  | setBeep (flag : Bool)
  /-- A bit of byte 12. -/
  | closeVolumn (flag : Bool)
  /-- A bit of byte 12. -/
  | setStoveLight (flag : Bool)
  /-- A bit of byte 12. -/
  | setSleep (flag : Bool)

/-- Make a setter call. -/
def Setter.apply (m : CConnMgr) : Setter → CConnMgr
  | setWaterAction t => m.setWaterAction t
  | setWaterTem value => m.setWaterTem value
  | setWaterYield value => m.setWaterYield value
  | setCooling setValue => m.setCooling setValue
  | setIceAction flag => m.setIceAction flag
  | setHPCCReset flag => m.setHPCCReset flag
  | setROReset flag => m.setROReset flag
  | setResetStatus flag => m.setResetStatus flag
  | setBeep flag => m.setBeep flag
  | closeVolumn flag => m.closeVolumn flag
  | setStoveLight flag => m.setStoveLight flag
  | setSleep flag => m.setSleep flag

/-! ## Sending a command -/

/-- The loop of `send2MCU` over the command bytes: turns left and `i`. -/
def setDataLoop (mSndData : SndData) : ℕ → ℕ → BuffData → Option BuffData
  | 0, _, snd => some snd
  | k + 1, i, snd =>
    if h : i < 32 then do
      setDataLoop mSndData k (i + 1) (← UI2MCU.setData snd i (mSndData ⟨i, h⟩))
    else none

/-- The frame that `send2MCU` builds in the obtained buffer. -/
def buildFrame (mSndData : SndData) (bd : BuffData) : Option BuffData := do
  let snd ← UI2MCU.parse bd
  let snd ← setDataLoop mSndData 12 3 snd
  let snd ← UI2MCU.setData snd 13 100
  let snd ← UI2MCU.setData snd 14 100
  let statusByte := mSndData 12
  let snd ← UI2MCU.setData snd 12 statusByte
  UI2MCU.checkcode snd

/-- The part of `send2MCU` that works on the packet buffer and the client,
with the buffer, its frame and the result of `send`. -/
def sendCommand (p : SDHWPacketBuffer) (c : UartClient) (mSndData : SndData) :
    Option (SDHWPacketBuffer × UartClient × ℕ × BuffData × ℤ) := do
  let (p, bd) ← p.obtain
  let snd ← buildFrame mSndData (← p.load bd)
  let p ← p.store bd snd
  let (p, c, r) ← UartClient.send p c bd
  return (p, c, bd, snd, r)

namespace CConnMgr

/-- `CConnMgr::send2MCU` at the clock reading `now`, with the buffer, its frame
and the result of `send`. -/
def send2MCU (m : CConnMgr) (now : ℤ) : Option (CConnMgr × ℕ × BuffData × ℤ) := do
  let (p, c, bd, snd, r) ← sendCommand m.mPacket m.mUartMCU m.mSndData
  return ({m with mPacket := p, mUartMCU := c, mSndData := Function.update m.mSndData 12 0,
                  mSetData := 0, mLastSendTime := now}, bd, snd, r)

end CConnMgr

/-! ## The frame -/

/-- All bytes of the frame of a command in front of its check code. -/
def body (d : SndData) : List UInt8 :=
  [0x02, 0, 0, d 3, d 4, d 5, d 6, d 7, d 8, d 9, d 10, d 11, d 12, 100, 100,
    0, 0, 0, 0, 0, 0, 0, 0, 0, 0, 0, 0, 0, 0, 0]

/-- The frame of a command. -/
def frame (d : SndData) : List UInt8 :=
  body d ++ [lowByte (crc16Modbus (body d)), highByte (crc16Modbus (body d))]

/-- The buffer that holds the frame of a command. -/
def framed (d : SndData) : BuffData where
  type := .mcu
  slen := UI2MCU.bufLen
  len := UI2MCU.bufLen
  buf := frame d
  buf_length := rfl

/-- A command is as long as its packet, -/
theorem framed_sized (d : SndData) : Sized .mcu (framed d) :=
  ⟨rfl, rfl, Nat.le_refl _⟩

/-- its check code can be computed, -/
theorem framed_codable (d : SndData) : Codable .mcu (framed d) := by
  change UI2MCU.bufLen ≠ 1
  decide

/-- The loop writes the bytes of the command one after the other. -/
theorem setDataLoop_spec {d : SndData} {k i : ℕ} {b : BuffData} (h : i + k ≤ 32)
    (hs : b.slen = 32) :
    ∃ b', setDataLoop d k i b = some b' ∧ b'.type = b.type ∧ b'.slen = b.slen ∧ b'.len = b.len ∧
      b'.buf = (List.range' i k).foldl (fun l j => l.set j (d (Fin.ofNat 32 j))) b.buf := by
  induction k generalizing i b with
  | zero => exact ⟨b, rfl, rfl, rfl, rfl, rfl⟩
  | succ k ih =>
    have hi : i < 32 := by omega
    obtain ⟨b₁, h₁, ht₁, hs₁, hl₁, hb₁⟩ := write_spec (b := b) (i := i) (by omega)
      (d ⟨i, hi⟩)
    obtain ⟨b₂, h₂, ht₂, hs₂, hl₂, hb₂⟩ := ih (i := i + 1) (b := b₁) (by omega) (by omega)
    have hfin : Fin.ofNat 32 i = ⟨i, hi⟩ := Fin.ext (Nat.mod_eq_of_lt hi)
    refine ⟨b₂, ?_, ht₂.trans ht₁, hs₂.trans hs₁, hl₂.trans hl₁, ?_⟩
    · rw [setDataLoop, dif_pos hi, UI2MCU.setData, h₁]
      exact h₂
    · rw [hb₂, hb₁, List.range'_succ, List.foldl_cons, hfin]

/-- The check code of a whole frame. -/
theorem checkcode_spec {b : BuffData} (hl : b.len = 32) (hs : b.slen = 32) :
    ∃ b', UI2MCU.checkcode b = some b' ∧ b'.type = b.type ∧ b'.slen = b.slen ∧ b'.len = b.len ∧
      b'.buf = (b.buf.set 30 (lowByte (crc16Modbus (b.buf.take 30)))).set 31
        (highByte (crc16Modbus (b.buf.take 30))) := by
  have h := UI2MCU.checkcode_spec (b := b) (by omega) (by omega)
  rwa [hl] at h ⊢

/-- and this takes the last two bytes. -/
theorem set_body (d : SndData) (x y low high : UInt8) :
    ((body d ++ [x, y]).set 30 low).set 31 high = body d ++ [low, high] := rfl

/-- The writes of `send2MCU` on an empty payload leave the frame without its
check code. -/
theorem writes_body (d : SndData) :
    ((((List.range' 3 12).foldl (fun l j => l.set j (d (Fin.ofNat 32 j)))
      ((List.replicate 32 0).set 0 UI2MCU.headByte)).set 13 100).set 14 100).set 12 (d 12) =
      body d ++ [0, 0] := by
  simp only [List.range', List.foldl_cons, List.foldl_nil, List.replicate, List.set_cons_zero,
    List.set_cons_succ]
  rfl

/-- A buffer fresh from the pool becomes the frame of the command. -/
theorem buildFrame_eq (d : SndData) : buildFrame d (allocate .mcu) = some (framed d) := by
  obtain ⟨b₀, h₀, ht₀, hs₀, hl₀, hb₀⟩ := write_spec (b := (allocate .mcu).setLen UI2MCU.bufLen)
    (i := 0) (by decide) UI2MCU.headByte
  have hz : b₀.slen = 32 := hs₀
  obtain ⟨b₁, h₁, ht₁, hs₁, hl₁, hb₁⟩ := setDataLoop_spec (d := d) (k := 12) (i := 3)
    (by decide) hz
  obtain ⟨b₂, h₂, ht₂, hs₂, hl₂, hb₂⟩ := write_spec (b := b₁) (i := 13) (by omega) 100
  obtain ⟨b₃, h₃, ht₃, hs₃, hl₃, hb₃⟩ := write_spec (b := b₂) (i := 14) (by omega) 100
  obtain ⟨b₄, h₄, ht₄, hs₄, hl₄, hb₄⟩ := write_spec (b := b₃) (i := 12) (by omega) (d 12)
  have hn : b₀.len = 32 := hl₀
  obtain ⟨b₅, h₅, ht₅, hs₅, hl₅, hb₅⟩ := checkcode_spec (b := b₄) (by omega) (by omega)
  have hbuf : b₄.buf = body d ++ [0, 0] := by
    rw [hb₄, hb₃, hb₂, hb₁, hb₀]
    exact writes_body d
  have hbody : b₄.buf.take 30 = body d := by
    rw [hbuf]
    rfl
  have hsame : b₅ = framed d := by
    ext1
    · rw [ht₅, ht₄, ht₃, ht₂, ht₁, ht₀]
      rfl
    · rw [hs₅, hs₄, hs₃, hs₂, hs₁, hz]
      rfl
    · rw [hl₅, hl₄, hl₃, hl₂, hl₁, hn]
      rfl
    · rw [hb₅, hbody, hbuf, set_body]
      rfl
  unfold buildFrame UI2MCU.parse
  have hempty : (allocate .mcu).len = 0 := rfl
  rw [if_pos hempty, h₀]
  simp only [Option.bind_eq_bind, Option.bind_some, UI2MCU.setData, h₁, h₂, h₃, h₄, h₅, hsame]

/-- Computing the check code of a built frame again changes nothing. -/
theorem checkCode_framed (d : SndData) : checkCode .mcu (framed d) = some (framed d) := by
  obtain ⟨b, h, ht, hs, hl, hb⟩ := checkcode_spec (b := framed d) rfl rfl
  have hbody : (framed d).buf.take 30 = body d := rfl
  have hsame : b = framed d := by
    ext1
    · exact ht
    · exact hs
    · exact hl
    · rw [hb, hbody]
      exact set_body d _ _ _ _
  have hfull : (framed d).len ≠ 0 := Nat.succ_ne_zero 31
  unfold checkCode UI2MCU.parse
  simp only [if_neg hfull]
  rw [Option.bind_eq_bind, Option.bind_some, h, hsame]

end CdroidDemo.ConnMgr
