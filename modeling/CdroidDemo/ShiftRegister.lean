import Mathlib.Data.BitVec
import Mathlib.Data.List.GetD
import Mathlib.Logic.Function.Iterate

/-!
# Reflected feedback shift registers

A register is shifted towards its lowest bit, and a polynomial is added when
a one leaves it. Shifting is linear, and one to one when the highest bit of
the polynomial is set. Feeding bits one by one is adding them as a word and
shifting afterwards, so a register tells words of its own width apart.
-/

namespace CdroidDemo.ShiftRegister

variable {w : ℕ} (p : BitVec w)

/-- One shift. -/
def shift (r : BitVec w) : BitVec w := if r.getLsbD 0 then (r >>> 1) ^^^ p else r >>> 1

/-- The lowest bit of a word. -/
def unit (w : ℕ) (b : Bool) : BitVec w := (BitVec.ofBool b).setWidth w

/-- Take in bits one by one, each followed by a shift. -/
def feed (r : BitVec w) (bits : List Bool) : BitVec w :=
  bits.foldl (fun r b => shift p (r ^^^ unit w b)) r

/-- The word of some bits, lowest first. -/
def word (w : ℕ) : List Bool → BitVec w
  | [] => 0
  | b :: bits => unit w b ^^^ (word w bits) <<< 1

/-- The highest `k` bits are clear. -/
def Fits (k : ℕ) (y : BitVec w) : Prop := ∀ i, y.getLsbD i = true → i + k < w

/-! ## Shifts -/

/-- A shift is linear. -/
theorem shift_xor (a b : BitVec w) : shift p (a ^^^ b) = shift p a ^^^ shift p b := by
  have hc : ∀ x y z : BitVec w, x ^^^ z ^^^ (y ^^^ z) = x ^^^ y := by
    intro x y z
    rw [BitVec.xor_assoc, ← BitVec.xor_assoc z, BitVec.xor_comm z y, BitVec.xor_assoc y,
      BitVec.xor_self, BitVec.xor_zero]
  unfold shift
  rw [BitVec.getLsbD_xor, BitVec.ushiftRight_xor_distrib]
  cases a.getLsbD 0 with
  | false =>
    cases b.getLsbD 0 with
    | false => rfl
    | true => exact BitVec.xor_assoc _ _ _
  | true =>
    cases b.getLsbD 0 with
    | false =>
      simp only [Bool.xor_false, if_true, Bool.false_eq_true, if_false]
      rw [BitVec.xor_assoc, BitVec.xor_assoc, BitVec.xor_comm p]
    | true => exact (hc _ _ _).symm

/-- A one that leaves the register shows in its highest bit. -/
theorem shift_eq_zero {r : BitVec w} (hp : p.msb = true) (h : shift p r = 0) : r = 0 := by
  unfold shift at h
  split at h
  · have hm := congrArg BitVec.msb h
    rw [BitVec.msb_xor, hp, BitVec.msb_ushiftRight] at hm
    simp at hm
  · rename_i h₀
    refine BitVec.eq_of_getLsbD_eq fun i hi => ?_
    cases i with
    | zero => simpa using h₀
    | succ i =>
      have hb := congrArg (BitVec.getLsbD · i) h
      simpa [BitVec.getLsbD_ushiftRight, Nat.add_comm] using hb

/-- With the top bit in the polynomial no two registers shift to the same. -/
theorem shift_injective (hp : p.msb = true) : Function.Injective (shift p) := by
  intro a b h
  have h₀ : shift p (a ^^^ b) = 0 := by rw [shift_xor, h, BitVec.xor_self]; rfl
  exact BitVec.xor_eq_zero_iff.mp (shift_eq_zero p hp h₀)

/-- Shifting is linear. -/
theorem iterate_shift_xor (n : ℕ) (a b : BitVec w) :
    (shift p)^[n] (a ^^^ b) = (shift p)^[n] a ^^^ (shift p)^[n] b := by
  induction n generalizing a b with
  | zero => rfl
  | succ n ih => rw [Function.iterate_succ_apply, shift_xor, ih]; rfl

/-- A word that fits moves down without feedback. -/
theorem shift_shiftLeft {y : BitVec w} (h : Fits 1 y) : shift p (y <<< 1) = y := by
  have h₀ : (y <<< 1).getLsbD 0 = false := by simp
  unfold shift
  rw [h₀, if_neg Bool.false_ne_true]
  refine BitVec.eq_of_getLsbD_eq fun i hi => ?_
  rw [BitVec.getLsbD_ushiftRight, BitVec.getLsbD_shiftLeft]
  cases hy : y.getLsbD i with
  | false => simp [hy]
  | true =>
    have hlt := h i hy
    simp [hy]
    omega

/-- Fewer of the highest bits are clear as well. -/
theorem Fits.mono {j k : ℕ} {y : BitVec w} (h : Fits k y) (hjk : j ≤ k) : Fits j y := by
  intro i hi
  have := h i hi
  omega

/-- A shift to the left uses up clear highest bits. -/
theorem Fits.shiftLeft {j k : ℕ} {y : BitVec w} (h : Fits (j + k) y) : Fits j (y <<< k) := by
  intro i hi
  rw [BitVec.getLsbD_shiftLeft] at hi
  simp only [Bool.and_eq_true, decide_eq_true_eq, Bool.not_eq_true', decide_eq_false_iff_not] at hi
  have := h (i - k) hi.2
  omega

/-- A shift to the right clears the highest bits. -/
theorem fits_ushiftRight (k : ℕ) (r : BitVec w) : Fits k (r >>> k) := by
  intro i hi
  rw [BitVec.getLsbD_ushiftRight] at hi
  have := BitVec.lt_of_getLsbD hi
  omega

/-- Shifting a register back gives the register. -/
theorem iterate_shift_shiftLeft {k : ℕ} {y : BitVec w} (h : Fits k y) :
    (shift p)^[k] (y <<< k) = y := by
  induction k with
  | zero => exact BitVec.shiftLeft_zero y
  | succ k ih =>
    have h₁ : Fits 1 (y <<< k) := Fits.shiftLeft (by rwa [Nat.add_comm])
    rw [Function.iterate_succ_apply, BitVec.shiftLeft_add, shift_shiftLeft p h₁,
      ih (h.mono (Nat.le_succ k))]

/-- A word added after some shifts could have been added before them. -/
theorem iterate_shift_absorb {k : ℕ} {y : BitVec w} (h : Fits k y) (r : BitVec w) :
    (shift p)^[k] r ^^^ y = (shift p)^[k] (r ^^^ y <<< k) := by
  rw [iterate_shift_xor, iterate_shift_shiftLeft p h]

/-- The bits that do not leave the register move down, the others feed back. -/
theorem iterate_shift_split (k : ℕ) (r : BitVec w) :
    (shift p)^[k] r = (r >>> k) ^^^ (shift p)^[k] (r ^^^ (r >>> k) <<< k) := by
  rw [BitVec.xor_comm, iterate_shift_absorb p (fits_ushiftRight k r), BitVec.xor_assoc,
    BitVec.xor_self, BitVec.xor_zero]

/-- Short words can be taken in by a table of the shifts of their low part. -/
theorem iterate_shift_table {k : ℕ} {n : BitVec w} (hn : n >>> k = 0) (r : BitVec w) :
    (shift p)^[k] (r ^^^ n) = (r >>> k) ^^^ (shift p)^[k] (r ^^^ (r >>> k) <<< k ^^^ n) := by
  have hr : (r ^^^ n) >>> k = r >>> k := by
    rw [BitVec.ushiftRight_xor_distrib, hn]
    exact BitVec.xor_zero
  rw [iterate_shift_split, hr, BitVec.xor_assoc, BitVec.xor_comm n, ← BitVec.xor_assoc]

/-! ## Words -/

/-- The bits of a register that holds one bit. -/
theorem getLsbD_unit (b : Bool) (i : ℕ) :
    (unit w b).getLsbD i = (decide (i < w) && (decide (i = 0) && b)) := by
  rw [unit, BitVec.getLsbD_setWidth, BitVec.getLsbD_ofBool]

/-- The bits of a register that holds a list of bits. -/
theorem getLsbD_word (bits : List Bool) (i : ℕ) :
    (word w bits).getLsbD i = (decide (i < w) && bits.getD i false) := by
  induction bits generalizing i with
  | nil => simp [word]
  | cons b bits ih =>
    rw [word, BitVec.getLsbD_xor, getLsbD_unit, BitVec.getLsbD_shiftLeft, ih]
    cases i with
    | zero => simp
    | succ i =>
      by_cases hi : i + 1 < w
      · have : i < w := by omega
        simp [hi, this]
      · simp [hi]

/-- A short list of bits leaves the highest clear. -/
theorem word_fits {k : ℕ} {bits : List Bool} (h : bits.length + k ≤ w) : Fits k (word w bits) := by
  intro i hi
  rw [getLsbD_word, Bool.and_eq_true, decide_eq_true_eq] at hi
  have hlt : i < bits.length := by
    by_contra hge
    rw [List.getD_eq_default _ _ (Nat.le_of_not_lt hge)] at hi
    exact Bool.false_ne_true hi.2
  omega

/-- A list of bits is its first part and the shifted rest. -/
theorem word_append (u v : List Bool) : word w (u ++ v) = word w u ^^^ word w v <<< u.length := by
  induction u with
  | nil => simp [word]
  | cons b u ih =>
    rw [List.cons_append, word, ih, word, BitVec.shiftLeft_xor_distrib, BitVec.xor_assoc,
      List.length_cons, BitVec.shiftLeft_add]

/-- Different bit strings of a length up to the width are different words. -/
theorem word_injective {u v : List Bool} (hl : u.length = v.length) (hw : u.length ≤ w)
    (h : word w u = word w v) : u = v := by
  refine List.ext_getElem hl fun i hu hv => ?_
  have hb := congrArg (BitVec.getLsbD · i) h
  simp only [getLsbD_word, List.getD_eq_getElem _ _ hu, List.getD_eq_getElem _ _ hv,
    Nat.lt_of_lt_of_le hu hw, decide_true, Bool.true_and] at hb
  exact hb

/-! ## Feeding bits -/

/-- Two lists of bits are fed one after the other. -/
theorem feed_append (r : BitVec w) (u v : List Bool) :
    feed p r (u ++ v) = feed p (feed p r u) v := List.foldl_append

/-- The same bits keep different registers different. -/
theorem feed_injective (hp : p.msb = true) (bits : List Bool) :
    Function.Injective (feed p · bits) := by
  induction bits with
  | nil => exact Function.injective_id
  | cons b bits ih =>
    intro r s h
    have h₁ := shift_injective p hp (ih h)
    exact (BitVec.xor_left_inj _).mp h₁

/-- Up to the width of the register, feeding bits is adding their word and
shifting once for each of them. -/
theorem feed_word {bits : List Bool} (h : bits.length ≤ w) (r : BitVec w) :
    feed p r bits = (shift p)^[bits.length] (r ^^^ word w bits) := by
  induction bits generalizing r with
  | nil => simp [feed, word]
  | cons b bits ih =>
    rw [List.length_cons] at h
    have hf : Fits 1 (word w bits) := word_fits h
    have hstep : feed p r (b :: bits) = feed p (shift p (r ^^^ unit w b)) bits := rfl
    have habs := iterate_shift_absorb p hf (r ^^^ unit w b)
    rw [Function.iterate_one] at habs
    rw [hstep, ih (by omega), habs, List.length_cons, Function.iterate_succ_apply, word,
      BitVec.xor_assoc]

/-- A register that takes in its own bits is empty. -/
theorem feed_own {bits : List Bool} (h : bits.length ≤ w) : feed p (word w bits) bits = 0 := by
  rw [feed_word p h, BitVec.xor_self]
  exact Function.iterate_fixed (by simp [shift]) _

/-- A burst of errors no longer than the register is never lost. -/
theorem feed_burst (hp : p.msb = true) (r : BitVec w) {a u v b : List Bool}
    (hl : u.length = v.length) (hw : u.length ≤ w)
    (h : feed p r (a ++ u ++ b) = feed p r (a ++ v ++ b)) : u = v := by
  simp only [feed_append] at h
  have hm : feed p (feed p r a) u = feed p (feed p r a) v := feed_injective p hp b h
  rw [feed_word p hw, feed_word p (hl ▸ hw : v.length ≤ w), ← hl] at hm
  have hx := (shift_injective p hp).iterate u.length hm
  exact word_injective hl hw ((BitVec.xor_right_inj _).mp hx)

end CdroidDemo.ShiftRegister
