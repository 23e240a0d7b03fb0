import CdroidDemo.CommFunc
import CdroidDemo.JsonFunc
import CdroidDemo.TextHelpers
import Mathlib.Algebra.Order.Ring.Nat

/-!
# Text functions on strings of bounded length

The functions of `comm_func` that split, pad and replace, with the limits of
their types: an `int` wraps around, it is compared as a `size_t` of 64 bits,
and a string that would grow beyond `max_size` throws. Memory has no other
limit. A loop is given a number of turns; `none` is a loop that has used them
up.
-/

namespace CdroidDemo.BoundedText

open CommFunc JsonFunc TextHelpers

/-- `std::string::max_size`. -/
def MAX_SIZE : ℕ := 2 ^ 63 - 1

/-- `std::string`. -/
abbrev StdString := {s : List UInt8 // s.length ≤ MAX_SIZE}

/-- `std::length_error`. -/
inductive LengthError where
  /-- The text would be longer than `max_size`. -/
  | length_error
deriving DecidableEq

/-- A string of these bytes, if it is not too long. -/
def ofBytes (s : List UInt8) : Except LengthError StdString :=
  if h : s.length ≤ MAX_SIZE then .ok ⟨s, h⟩ else .error .length_error

/-- Bytes that are not too many are a string. -/
theorem ofBytes_ok {s : List UInt8} (h : s.length ≤ MAX_SIZE) : ofBytes s = .ok ⟨s, h⟩ := dif_pos h

/-- Too many bytes are none. -/
theorem ofBytes_error {s : List UInt8} (h : MAX_SIZE < s.length) :
    ofBytes s = .error .length_error := dif_neg (not_le.mpr h)

/-- The bytes of a string are the string. -/
theorem ofBytes_val (s : StdString) : ofBytes s.1 = .ok s := ofBytes_ok s.2

/-- Bytes are a string exactly when they are not too many. -/
theorem ofBytes_eq_ok_iff {s : List UInt8} : (∃ t, ofBytes s = .ok t) ↔ s.length ≤ MAX_SIZE := by
  constructor
  · rintro ⟨t, ht⟩
    by_contra hlt
    rw [ofBytes_error (not_le.mp hlt)] at ht
    cases ht
  · exact fun h => ⟨_, ofBytes_ok h⟩

/-- `std::string::append`. -/
def append (s t : StdString) : Except LengthError StdString := ofBytes (s.1 ++ t.1)

/-- Appending to what was too long already throws as well. -/
theorem ofBytes_bind_append (s : List UInt8) (t : StdString) :
    ((ofBytes s).bind fun s => append s t) = ofBytes (s ++ t.1) := by
  rcases Nat.lt_or_ge MAX_SIZE s.length with hlt | hle
  · rw [ofBytes_error hlt, ofBytes_error (by rw [List.length_append]; omega)]
    rfl
  · rw [ofBytes_ok hle]
    rfl

/-- `std::string::replace`. -/
def replace (s : StdString) (pos length : ℕ) (t : StdString) : Except LengthError StdString :=
  ofBytes (CommFunc.replace s.1 pos length t.1)

/-- `std::string::find` of one character, with `none` for `npos`. -/
def findChar (str : List UInt8) (ch : UInt8) (pos : ℕ) : Option ℕ :=
  ((str.drop pos).idxOf? ch).map (pos + ·)

/-- `std::string::substr`, as it is used: from within the string on. -/
def substr (str : List UInt8) (pos n : ℕ) : List UInt8 := (str.drop pos).take n

/-! ## Splitting -/

/-- The loop of `stringSplit`, with the offset behind the last separator. -/
def stringSplitLoop (str : List UInt8) (ch : UInt8) :
    ℕ → Int32 → List (List UInt8) → Option (Int32 × List (List UInt8))
  | 0, _, _ => none
  | n + 1, offset, out =>
    match findChar str ch (sizeT offset) with
    | none => some (offset, out)
    | some pos =>
      stringSplitLoop str ch n (Int32.ofNat (pos + 1))
        (if sizeT offset < pos then out ++ [substr str (sizeT offset) (pos - sizeT offset)]
        else out)

/-- What `stringSplit` adds for the rest behind the last separator. -/
def splitRest (str : List UInt8) : Int32 × List (List UInt8) → List (List UInt8)
  | (offset, out) =>
    if sizeT offset < str.length then out ++ [str.drop (sizeT offset)] else out

/-- `stringSplit`: the size it returns, and `out`. -/
def stringSplit (n : ℕ) (str : StdString) (out : List (List UInt8)) (ch : UInt8) :
    Option (Int32 × List (List UInt8)) :=
  (stringSplitLoop str.1 ch n 0 out).map fun r =>
    (Int32.ofNat (splitRest str.1 r).length, splitRest str.1 r)

/-! ## Padding -/

/-- An `int` has at most ten digits and a sign. -/
theorem length_stdToString_le (x : Int32) : (stdToString x).length ≤ 11 := by
  have hlt := x.toInt_lt
  have hle := x.le_toInt
  have hd : (Nat.toDigits 10 x.toInt.natAbs).length ≤ 10 :=
    (Nat.length_toDigits_le_iff (by decide) (by decide)).mpr (by omega)
  unfold stdToString
  split
  · rw [List.length_cons]
    omega
  · omega

/-- `std::to_string`, as bytes: its characters are ASCII. -/
def numString (num : Int32) : StdString :=
  ⟨(stdToString num).map fun c => c.toNat.toUInt8, by
    rw [List.length_map]
    exact (length_stdToString_le num).trans (by decide)⟩

/-- The loop of `fillLength`. -/
def fillLengthLoop (numLength : ℕ) (len : Int32) (pre : StdString) :
    ℕ → StdString → Option (Except LengthError StdString)
  | 0, _ => none
  | n + 1, retString =>
    if numLength + retString.1.length < sizeT len then
      match append retString pre with
      | .ok retString => fillLengthLoop numLength len pre n retString
      | .error e => some (.error e)
    else some (.ok retString)

/-- `fillLength`. -/
def fillLength (n : ℕ) (num len : Int32) (pre : StdString) :
    Option (Except LengthError StdString) :=
  (fillLengthLoop (numString num).1.length len pre n ⟨[], Nat.zero_le _⟩).map fun r =>
    r.bind fun retString => append retString (numString num)

/-! ## Replacing -/

/-- The loop of `replace_all`. -/
def replaceLoop (old_value new_value : StdString) :
    ℕ → StdString → ℕ → Option (Except LengthError StdString)
  | 0, _, _ => none
  | n + 1, src, pos =>
    match find src.1 old_value.1 pos with
    | none => some (.ok src)
    | some pos =>
      match replace src pos old_value.1.length new_value with
      | .ok src => replaceLoop old_value new_value n src (pos + new_value.1.length)
      | .error e => some (.error e)

/-- `replace_all`. -/
def replaceAll (n : ℕ) (src old_value new_value : StdString) :
    Option (Except LengthError StdString) := replaceLoop old_value new_value n src 0

end CdroidDemo.BoundedText
