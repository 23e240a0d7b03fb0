import Mathlib.Data.Nat.Notation

/-!
# Fields of a word

A field of a word is given by a mask. Bits are set and cleared by masks as
well, and what this does to a field is clear when the mask covers the field or
has no bit in common with it.
-/

namespace CdroidDemo.WordFields

variable {n : ℕ} {x y m m' f : BitVec n}

/-- The field `f` of a word. -/
def read (f x : BitVec n) : BitVec n := x &&& f

/-- `m` covers `f`. -/
def Inside (f m : BitVec n) : Prop := f &&& ~~~m = 0#n

/-- No bit is in both. -/
def Apart (f m : BitVec n) : Prop := f &&& m = 0#n

instance : Decidable (Inside f m) := inferInstanceAs (Decidable (f &&& ~~~m = 0#n))

instance : Decidable (Apart f m) := inferInstanceAs (Decidable (f &&& m = 0#n))

/-- A bit of an inner field is a bit of the outer. -/
theorem Inside.bit (h : Inside f m) {i : ℕ} (hf : f.getLsbD i = true) : m.getLsbD i = true := by
  have hb : (f &&& ~~~m).getLsbD i = false := by
    rw [h]
    exact BitVec.getLsbD_zero
  rw [BitVec.getLsbD_and, hf, Bool.true_and, BitVec.getLsbD_not,
    decide_eq_true (BitVec.lt_of_getLsbD hf), Bool.true_and] at hb
  simpa only [Bool.not_eq_false'] using hb

/-- A bit of a field is none of a field apart from it. -/
theorem Apart.bit (h : Apart f m) {i : ℕ} (hf : f.getLsbD i = true) : m.getLsbD i = false := by
  have hb : (f &&& m).getLsbD i = false := by
    rw [h]
    exact BitVec.getLsbD_zero
  rwa [BitVec.getLsbD_and, hf, Bool.true_and] at hb

/-- Two words agree on a field when they agree on its bits. -/
theorem read_congr (h : ∀ i, f.getLsbD i = true → x.getLsbD i = y.getLsbD i) :
    read f x = read f y := by
  refine BitVec.eq_of_getLsbD_eq fun i _ => ?_
  unfold read
  rw [BitVec.getLsbD_and, BitVec.getLsbD_and]
  cases hf : f.getLsbD i with
  | false => rw [Bool.and_false, Bool.and_false]
  | true => rw [h i hf]

/-- What has no bit in a mask has none in a part of it. -/
theorem Apart.mono (h : Apart f m) (hm : Inside m' m) : Apart f m' := by
  refine BitVec.eq_of_getLsbD_eq fun i _ => ?_
  rw [BitVec.getLsbD_and, BitVec.getLsbD_zero]
  cases hf : f.getLsbD i with
  | false => rfl
  | true =>
    cases hb : m'.getLsbD i with
    | false => rfl
    | true => exact absurd (hm.bit hb) (by rw [h.bit hf]; exact Bool.false_ne_true)

/-- A field is apart from two when it is apart from each. -/
theorem apart_or : Apart f (m ||| m') ↔ Apart f m ∧ Apart f m' := by
  unfold Apart
  rw [BitVec.and_or_distrib_left, BitVec.or_eq_zero_iff]

/-- Every field of the zero word is zero. -/
@[simp] theorem read_zero : read f 0#n = 0#n := BitVec.zero_and

/-- A field that is set is read back. -/
@[simp] theorem read_self : read f f = f := BitVec.and_self

/-- A field of two joined words. -/
theorem read_or : read f (x ||| y) = read f x ||| read f y := BitVec.and_or_distrib_right

/-! ## Setting and clearing -/

/-- Setting a field sets every field inside it. -/
theorem read_set (h : Inside f m) : read f (x ||| m) = f := by
  have hr : read f (x ||| m) = read f f := by
    refine read_congr fun i hf => ?_
    rw [BitVec.getLsbD_or, h.bit hf, Bool.or_true, hf]
  rw [hr, read_self]

/-- Setting a field changes none apart from it. -/
theorem read_set_of_apart (h : Apart f m) : read f (x ||| m) = read f x := by
  refine read_congr fun i hf => ?_
  rw [BitVec.getLsbD_or, h.bit hf, Bool.or_false]

/-- Clearing a field clears every field inside it. -/
theorem read_clear (h : Inside f m) : read f (x &&& ~~~m) = 0#n := by
  have hr : read f (x &&& ~~~m) = read f 0#n := by
    refine read_congr fun i hf => ?_
    rw [BitVec.getLsbD_and, BitVec.getLsbD_not, h.bit hf, Bool.not_true, Bool.and_false,
      Bool.and_false, BitVec.getLsbD_zero]
  rw [hr, read_zero]

/-- Clearing a field changes none apart from it. -/
theorem read_clear_of_apart (h : Apart f m) : read f (x &&& ~~~m) = read f x := by
  refine read_congr fun i hf => ?_
  rw [BitVec.getLsbD_and, BitVec.getLsbD_not, h.bit hf, Bool.not_false,
    decide_eq_true (BitVec.lt_of_getLsbD hf), Bool.and_true, Bool.and_true]

/-- A field that is cleared and then set reads as set. -/
theorem read_put {b : BitVec n} (hb : Inside b f) : read f ((x &&& ~~~f) ||| b) = b := by
  have hf : Inside f f := BitVec.and_not_self f
  have hr : read f b = b := by
    refine BitVec.eq_of_getLsbD_eq fun i _ => ?_
    unfold read
    rw [BitVec.getLsbD_and]
    cases hi : b.getLsbD i with
    | false => rfl
    | true => rw [hb.bit hi, Bool.true_and]
  rw [read_or, read_clear hf, BitVec.zero_or, hr]

/-- Putting a value changes no field apart. -/
theorem read_put_of_apart {b g : BitVec n} (hb : Inside b f) (hg : Apart g f) :
    read g ((x &&& ~~~f) ||| b) = read g x := by
  rw [read_set_of_apart (hg.mono hb), read_clear_of_apart hg]

end CdroidDemo.WordFields
