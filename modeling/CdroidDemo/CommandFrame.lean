import CdroidDemo.History
import CdroidDemo.ManagerRuns

/-!
# The frame of a command

The abstract command is determined by the calls made so far: for each
quantity the latest call that sets it, for the beep whether it was asked for
since the last command. The bytes of `mSndData` refine it under any order of
calls, and the frame that `send2MCU` builds is the frame of the abstract
command.
-/

namespace CdroidDemo.CommandFrame

open CrcChecksum PacketMemory PacketBuffer ConnMgr ManagerRuns History

/-! ## The abstract command -/

/-- The water action a call sets; a reset stops the water. -/
def waterAction : Act → Option UInt8
  | .setter (.setWaterAction t) => some t.toUchar
  | .setter (.setResetStatus true) => some 0
  | _ => none

/-- The temperature a call sets. -/
def waterTem : Act → Option ℤ
  | .setter (.setWaterTem value) => some value.toInt
  | _ => none

/-- The yield a call sets. -/
def waterYield : Act → Option ℤ
  | .setter (.setWaterYield value) => some value.toInt
  | _ => none

/-- The cooling state a call sets; a reset stops cooling. -/
def cooling : Act → Option UInt8
  | .setter (.setCooling setValue) => some setValue.toUchar
  | .setter (.setResetStatus true) => some 0
  | _ => none

/-- The ice flag a call sets; a reset clears it. -/
def iceAction : Act → Option UInt8
  | .setter (.setIceAction flag) => some (flagByte flag)
  | .setter (.setResetStatus true) => some 0
  | _ => none

/-- The HPCC reset flag a call sets. -/
def hpccReset : Act → Option UInt8
  | .setter (.setHPCCReset flag) => some (flagByte flag)
  | _ => none

/-- The RO reset flag a call sets. -/
def roReset : Act → Option UInt8
  | .setter (.setROReset flag) => some (flagByte flag)
  | _ => none

/-- The call sends a command. -/
def sends : Act → Bool
  | .send2MCU _ => true
  | _ => false

/-- The call asks for a beep. -/
def beeps : Act → Bool
  | .setter (.setBeep flag) => flag
  | _ => false

/-- An integer modulo 256. -/
def byteOf (n : ℤ) : UInt8 := UInt8.ofNat (n % 256).toNat

/-- The frame bytes in front of the check code after a history of calls. -/
def commandBody (h : List Act) : List UInt8 :=
  let yield := (latest waterYield h).getD 0 % 65536
  [0x02, 0, 0, (latest waterAction h).getD 0, byteOf ((latest waterTem h).getD 0),
    byteOf (yield / 256), byteOf yield, (latest cooling h).getD 0, (latest iceAction h).getD 0,
    (latest hpccReset h).getD 0, (latest roReset h).getD 0, 0, flagByte (since sends beeps h),
    100, 100] ++ List.replicate 15 0

/-- The frame after a history of calls: the body and its check code in
little-endian order. -/
def commandFrame (h : List Act) : List UInt8 :=
  commandBody h ++ [lowByte (crc16Modbus (commandBody h)), highByte (crc16Modbus (commandBody h))]

/-! ## The command bytes refine it -/

/-- The shifted and the masked yield are the bytes of the yield modulo 65536. -/
theorem yield_high (value : Int32) :
    toUchar (value >>> 8) = byteOf (value.toInt % 65536 / 256) := by
  have h8 : (8 : Int32).toBitVec.smod 32 = 8#32 := by decide
  have hshift : (value >>> 8).toInt = value.toInt / 256 := by
    rw [← Int32.toInt_toBitVec, ← Int32.toInt_toBitVec, Int32.toBitVec_shiftRight, h8]
    change (value.toBitVec.sshiftRight 8).toInt = _
    rw [BitVec.toInt_sshiftRight, Int.shiftRight_eq_div_pow]
    rfl
  rw [toUchar, hshift, UInt8.ofInt, byteOf]
  congr 2
  omega

/-- The low byte of a value. -/
theorem yield_low (value : Int32) :
    toUchar (value &&& 0xff) = byteOf (value.toInt % 65536) := by
  have hand : (value.toBitVec &&& (0xff : Int32).toBitVec).toNat = value.toBitVec.toNat % 256 := by
    rw [BitVec.toNat_and]
    exact Nat.and_two_pow_sub_one_eq_mod _ 8
  have hmask : (value &&& 0xff).toInt = value.toInt % 256 := by
    have hlt := value.toBitVec.isLt
    rw [← Int32.toInt_toBitVec, ← Int32.toInt_toBitVec, Int32.toBitVec_and,
      BitVec.toInt_eq_toNat_cond, hand, BitVec.toInt_eq_toNat_cond]
    split <;> split <;> omega
  rw [toUchar, hmask, UInt8.ofInt, byteOf]
  congr 2
  omega

/-- Flags are set one by one. -/
theorem flagByte_or (a b : Bool) : flagByte a ||| flagByte b = flagByte (b || a) := by
  cases a <;> cases b <;> rfl

/-- The command bytes are those the history determines. -/
structure Refines (h : List Act) (d : SndData) : Prop where
  /-- Byte 3 holds the last water action. -/
  action : d 3 = (latest waterAction h).getD 0
  /-- Byte 4 holds the last temperature. -/
  tem : d 4 = byteOf ((latest waterTem h).getD 0)
  /-- Byte 5 holds the high byte of the last yield. -/
  yieldHigh : d 5 = byteOf ((latest waterYield h).getD 0 % 65536 / 256)
  /-- Byte 6 holds its low byte. -/
  yieldLow : d 6 = byteOf ((latest waterYield h).getD 0 % 65536)
  /-- Byte 7 holds the last cooling. -/
  cool : d 7 = (latest cooling h).getD 0
  /-- Byte 8 holds the last ice action. -/
  ice : d 8 = (latest iceAction h).getD 0
  /-- Byte 9 holds the last reset of the first filter. -/
  hpcc : d 9 = (latest hpccReset h).getD 0
  /-- Byte 10 holds the last reset of the second filter. -/
  ro : d 10 = (latest roReset h).getD 0
  /-- Byte 11 is not used. -/
  unused : d 11 = 0
  /-- Byte 12 holds the beeps since the last send. -/
  beep : d 12 = flagByte (since sends beeps h)

/-- Nothing is set at the beginning. -/
theorem refines_nil {d : SndData} (hz : ∀ i, d i = 0) : Refines [] d := by
  constructor <;> exact hz _

/-- The frame of command bytes that refine a history is the abstract frame. -/
theorem Refines.frame {h : List Act} {d : SndData} (hr : Refines h d) :
    ConnMgr.frame d = commandFrame h := by
  have hbody : body d = commandBody h := by
    unfold body commandBody
    rw [hr.action, hr.tem, hr.yieldHigh, hr.yieldLow, hr.cool, hr.ice, hr.hpcc, hr.ro, hr.unused,
      hr.beep]
    rfl
  rw [ConnMgr.frame, hbody, commandFrame]

/-- What one call does to the command bytes: each is overwritten by the value
the call sets, if it sets one, and kept otherwise. -/
structure Effect (a : Act) (d d' : SndData) : Prop where
  /-- Byte 3 is set by a water action. -/
  action : d' 3 = (waterAction a).getD (d 3)
  /-- Byte 4 is set by a temperature. -/
  tem : d' 4 = ((waterTem a).map byteOf).getD (d 4)
  /-- Byte 5 is set by a yield. -/
  yieldHigh : d' 5 = ((waterYield a).map fun y => byteOf (y % 65536 / 256)).getD (d 5)
  /-- Byte 6 is set by a yield. -/
  yieldLow : d' 6 = ((waterYield a).map fun y => byteOf (y % 65536)).getD (d 6)
  /-- Byte 7 is set by a cooling. -/
  cool : d' 7 = (cooling a).getD (d 7)
  /-- Byte 8 is set by an ice action. -/
  ice : d' 8 = (iceAction a).getD (d 8)
  /-- Byte 9 is set by a reset of the first filter. -/
  hpcc : d' 9 = (hpccReset a).getD (d 9)
  /-- Byte 10 is set by a reset of the second filter. -/
  ro : d' 10 = (roReset a).getD (d 10)
  /-- Byte 11 stays. -/
  unused : d' 11 = d 11
  /-- Byte 12 collects the beeps and is cleared by a send. -/
  beep : d' 12 = if sends a then 0 else d 12 ||| flagByte (beeps a)

/-- An overwritten or kept byte is the one of the longer history. -/
theorem getD_latest {f : Act → Option UInt8} {h : List Act} {a : Act} {x x' : UInt8}
    (hx : x = (latest f h).getD 0) (hx' : x' = (f a).getD x) :
    x' = (latest f (h ++ [a])).getD 0 := by
  rw [hx', latest_concat, hx]
  cases f a with
  | none => rfl
  | some v => rfl

/-- A byte stands for the value that was set last. -/
theorem map_getD_latest {f : Act → Option ℤ} {g : ℤ → UInt8} {h : List Act} {a : Act}
    {x x' : UInt8} (hx : x = g ((latest f h).getD 0)) (hx' : x' = ((f a).map g).getD x) :
    x' = g ((latest f (h ++ [a])).getD 0) := by
  rw [hx', latest_concat, hx]
  cases f a with
  | none => rfl
  | some v => rfl

/-- One more call keeps the refinement. -/
theorem Refines.step {h : List Act} {a : Act} {d d' : SndData} (hr : Refines h d)
    (he : Effect a d d') : Refines (h ++ [a]) d' where
  action := getD_latest hr.action he.action
  tem := map_getD_latest hr.tem he.tem
  yieldHigh := map_getD_latest (g := fun y => byteOf (y % 65536 / 256)) hr.yieldHigh he.yieldHigh
  yieldLow := map_getD_latest (g := fun y => byteOf (y % 65536)) hr.yieldLow he.yieldLow
  cool := getD_latest hr.cool he.cool
  ice := getD_latest hr.ice he.ice
  hpcc := getD_latest hr.hpcc he.hpcc
  ro := getD_latest hr.ro he.ro
  unused := he.unused.trans hr.unused
  beep := by
    rw [he.beep, since_concat, hr.beep]
    cases sends a with
    | true => rfl
    | false => exact flagByte_or _ _

/-- A call that neither sets a byte nor sends keeps them all. -/
theorem Effect.keep {a : Act} (d : SndData)
    (h : waterAction a = none ∧ waterTem a = none ∧ waterYield a = none ∧ cooling a = none ∧
      iceAction a = none ∧ hpccReset a = none ∧ roReset a = none)
    (hs : sends a = false) (hb : beeps a = false) : Effect a d d := by
  obtain ⟨h₁, h₂, h₃, h₄, h₅, h₆, h₇⟩ := h
  constructor
  case action => rw [h₁, Option.getD_none]
  case tem => rw [h₂, Option.map_none, Option.getD_none]
  case yieldHigh => rw [h₃, Option.map_none, Option.getD_none]
  case yieldLow => rw [h₃, Option.map_none, Option.getD_none]
  case cool => rw [h₄, Option.getD_none]
  case ice => rw [h₅, Option.getD_none]
  case hpcc => rw [h₆, Option.getD_none]
  case ro => rw [h₇, Option.getD_none]
  case unused => rfl
  case beep =>
    rw [hs, hb, if_neg Bool.false_ne_true]
    exact (UInt8.or_zero).symm

/-- Every setter writes exactly the bytes of its abstract effect. -/
theorem setter_effect (m : CConnMgr) (x : Setter) :
    Effect (.setter x) m.mSndData (x.apply m).mSndData := by
  have hz : ∀ y : UInt8, y = y ||| flagByte false := fun y => (UInt8.or_zero).symm
  cases x with
  | setWaterAction t => exact ⟨rfl, rfl, rfl, rfl, rfl, rfl, rfl, rfl, rfl, hz _⟩
  | setWaterTem value => exact ⟨rfl, rfl, rfl, rfl, rfl, rfl, rfl, rfl, rfl, hz _⟩
  | setWaterYield value =>
    exact ⟨rfl, rfl, yield_high value, yield_low value, rfl, rfl, rfl, rfl, rfl, hz _⟩
  | setCooling setValue => exact ⟨rfl, rfl, rfl, rfl, rfl, rfl, rfl, rfl, rfl, hz _⟩
  | setIceAction flag => exact ⟨rfl, rfl, rfl, rfl, rfl, rfl, rfl, rfl, rfl, hz _⟩
  | setHPCCReset flag => exact ⟨rfl, rfl, rfl, rfl, rfl, rfl, rfl, rfl, rfl, hz _⟩
  | setROReset flag => exact ⟨rfl, rfl, rfl, rfl, rfl, rfl, rfl, rfl, rfl, hz _⟩
  | setResetStatus flag =>
    cases flag with
    | true => exact ⟨rfl, rfl, rfl, rfl, rfl, rfl, rfl, rfl, rfl, hz _⟩
    | false => exact ⟨rfl, rfl, rfl, rfl, rfl, rfl, rfl, rfl, rfl, hz _⟩
  | setBeep flag => exact ⟨rfl, rfl, rfl, rfl, rfl, rfl, rfl, rfl, rfl, rfl⟩
  | closeVolumn flag => exact Effect.keep _ ⟨rfl, rfl, rfl, rfl, rfl, rfl, rfl⟩ rfl rfl
  | setStoveLight flag => exact Effect.keep _ ⟨rfl, rfl, rfl, rfl, rfl, rfl, rfl⟩ rfl rfl
  | setSleep flag => exact Effect.keep _ ⟨rfl, rfl, rfl, rfl, rfl, rfl, rfl⟩ rfl rfl

/-- Every call has its abstract effect on the command bytes. -/
theorem act_effect (m : CConnMgr) (a : Act) : Effect a m.mSndData (commandAfter m a) := by
  cases a with
  | setter x => exact setter_effect m x
  | send2MCU now => exact ⟨rfl, rfl, rfl, rfl, rfl, rfl, rfl, rfl, rfl, rfl⟩
  | onTick nowTick => exact Effect.keep _ ⟨rfl, rfl, rfl, rfl, rfl, rfl, rfl⟩ rfl rfl
  | onUartData clock buf => exact Effect.keep _ ⟨rfl, rfl, rfl, rfl, rfl, rfl, rfl⟩ rfl rfl
  | status isConn => exact Effect.keep _ ⟨rfl, rfl, rfl, rfl, rfl, rfl, rfl⟩ rfl rfl

/-- Every sequence of calls succeeds and ends in the command it determines. -/
theorem run_refines {h : List Act} {m : CConnMgr} (hm : Ready m) (hr : Refines h m.mSndData)
    (acts : List Act) :
    ∃ m' es, run m acts = some (m', es) ∧ Ready m' ∧ Refines (h ++ acts) m'.mSndData := by
  induction acts generalizing h m with
  | nil => exact ⟨m, [], rfl, hm, by rwa [List.append_nil]⟩
  | cons a acts ih =>
    obtain ⟨m₁, es, hact, hm₁, hd⟩ := act_ready hm a
    have hr₁ : Refines (h ++ [a]) m₁.mSndData := by
      rw [hd]
      exact hr.step (act_effect m a)
    obtain ⟨m₂, gs, hrun, hm₂, hr₂⟩ := ih hm₁ hr₁
    refine ⟨m₂, es ++ gs, ?_, hm₂, by rwa [List.append_cons]⟩
    rw [run, hact]
    simp only [Option.bind_eq_bind, Option.bind_some, hrun, Option.pure_def]

/-- After any sequence of setter calls, commands, ticks and reads, starting
from zero command bytes, `send2MCU` builds the 32-byte frame of the abstract
command that the sequence determines. -/
theorem send2MCU_builds_commandFrame {m₀ : CConnMgr} (h₀ : Ready m₀)
    (hz : ∀ i, m₀.mSndData i = 0) (acts : List Act) :
    ∃ m es, run m₀ acts = some (m, es) ∧ ∀ now, ∃ m' bd b r,
      m.send2MCU now = some (m', bd, b, r) ∧ b.len = 32 ∧ b.content = commandFrame acts := by
  obtain ⟨m, es, hrun, hm, hr⟩ := run_refines h₀ (refines_nil hz) acts
  refine ⟨m, es, hrun, fun now => ?_⟩
  obtain ⟨p, bd, p', c', r, -, hsend, -, -⟩ := send2MCU_sent hm now
  exact ⟨_, bd, _, r, hsend, rfl, hr.frame⟩

/-- The frame after two setter calls, a reset and a beep. -/
theorem send2MCU_builds_commandFrame_reset :
    ∃ m es, run initial [.setter (.setWaterAction .hotWater), .setter (.setWaterYield 300),
        .setter (.setResetStatus true), .setter (.setBeep true)] = some (m, es) ∧
      ∀ now, ∃ m' bd b r, m.send2MCU now = some (m', bd, b, r) ∧ b.len = 32 ∧
        b.content = commandFrame [.setter (.setWaterAction .hotWater),
          .setter (.setWaterYield 300), .setter (.setResetStatus true),
          .setter (.setBeep true)] :=
  send2MCU_builds_commandFrame initial_ready (fun _ => rfl) _

example : commandBody [.setter (.setWaterAction .hotWater), .setter (.setWaterYield 300),
    .setter (.setResetStatus true), .setter (.setBeep true)] =
    [2, 0, 0, 0, 0, 1, 44, 0, 0, 0, 0, 0, 1, 100, 100] ++ List.replicate 15 0 := by decide

end CdroidDemo.CommandFrame
