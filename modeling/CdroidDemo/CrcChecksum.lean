import Mathlib.Logic.Function.Iterate
import Mathlib.Data.Nat.Notation

/-!
# Reflected 16-bit CRC registers

The bit loops of the check codes. A register is shifted right once for each
bit of the text, least significant bit first, and the reflected polynomial
is added whenever a one leaves it. `Fuc_GetCRC` replaces four turns of the
loop by one lookup in a table.
-/

namespace CdroidDemo.CrcChecksum

/-- One turn of the inner loop: shift, and add the polynomial when the bit
shifted out is set. -/
def crcBit (poly crc : UInt16) : UInt16 :=
  if 0 < crc &&& 0x0001 then (crc >>> 1) ^^^ poly else crc >>> 1

/-- One turn of the outer loop: take in a byte and shift eight times. -/
def crcByte (poly crc : UInt16) (b : UInt8) : UInt16 :=
  (crcBit poly)^[8] (crc ^^^ b.toUInt16)

/-- `CRC16_Modbus` of the bytes `pdata[0]`, ..., `pdata[len - 1]`. -/
def crc16Modbus (pdata : List UInt8) : UInt16 := pdata.foldl (crcByte 0xA001) 0xffff

/-- `CRC16_CCITT` of the bytes `pdata[0]`, ..., `pdata[len - 1]`. -/
def crc16Ccitt (pdata : List UInt8) : UInt16 := pdata.foldl (crcByte 0x8408) 0x0000

/-- `tCRCData`: four shifts of each nibble. -/
def tCRCData : List UInt16 :=
  [0x0000, 0x1081, 0x2102, 0x3183, 0x4204, 0x5285, 0x6306, 0x7387,
    0x8408, 0x9489, 0xa50a, 0xb58b, 0xc60c, 0xd68d, 0xe70e, 0xf78f]

/-- One table lookup of `Fuc_GetCRC`, which fails outside the table. -/
def lookup (vCRC nibble : UInt16) : Option UInt16 := do
  let t ← tCRCData[((vCRC &&& 0x0f) ^^^ nibble).toNat]?
  return (vCRC >>> 4) ^^^ t

/-- The loop of `Fuc_GetCRC`: the turns `len` left, `vCRC` and the bytes from
`ptr` on. Reading behind them fails. -/
def fucGetCrcLoop : ℕ → UInt16 → List UInt8 → Option UInt16
  | 0, vCRC, _ => some vCRC
  | _ + 1, _, [] => none
  | len + 1, vCRC, b :: ptr => do
    let vCRC ← lookup vCRC (b.toUInt16 &&& 0x0f)
    let vCRC ← lookup vCRC (b.toUInt16 >>> 4)
    fucGetCrcLoop len vCRC ptr

/-- `Fuc_GetCRC`; the length is a byte. -/
def fucGetCrc (vInit : UInt16) (ptr : List UInt8) (len : UInt8) : Option UInt16 :=
  (fucGetCrcLoop len.toNat vInit ptr).map (~~~·)

/-- The low byte of a register, `crc & 0xFF`. -/
def lowByte (crc : UInt16) : UInt8 := (crc &&& 0xff).toUInt8

/-- The high byte of a register, `crc >> 8`. -/
def highByte (crc : UInt16) : UInt8 := (crc >>> 8).toUInt8

example : crc16Modbus [0x31, 0x32, 0x33, 0x34, 0x35, 0x36, 0x37, 0x38, 0x39] = 0x4B37 := by
  decide +kernel

end CdroidDemo.CrcChecksum
