import CdroidDemo.SelfDelimiting
import Mathlib.Algebra.Group.Int.Defs
import Mathlib.Algebra.Group.Nat.Defs
import Mathlib.Data.Nat.Notation
import Mathlib.Data.Int.Notation

/-!
# Helpers for UTF-8 texts

The helpers that count, cut and shorten texts by characters. A pointer into a
text is the memory from there on, up to and including the terminating NUL;
reading behind it is `none`. The wide characters that are put together only
reach the log, so only their number is kept. An `int` that counts bytes or
characters wraps at `2 ^ 31`, as the machine's does.
-/

namespace CdroidDemo.TextHelpers

open SelfDelimiting

/-- `numBytes`: the bytes that follow the first one of a character. -/
def numBytes (c : UInt8) : ℕ :=
  if c &&& 0xE0 = 0xC0 then 1
  else if c &&& 0xF0 = 0xE0 then 2
  else if c &&& 0xF8 = 0xF0 then 3
  else 0

/-- The loop of `wordLen`, with `wstr.size()`. -/
def wordLenLoop (pos : List UInt8) (size : ℕ) : Option ℕ :=
  match pos with
  | [] => none
  | c :: pos =>
    if c = 0 then some size
    else if c &&& 0x80 ≠ 0 then
      if numBytes c ≤ pos.length then wordLenLoop (pos.drop (numBytes c)) (size + 1) else none
    else wordLenLoop pos (size + 1)
termination_by pos.length
decreasing_by all_goals simp only [List.length_drop, List.length_cons]; omega

/-- `wordLen`: the `size_t` is returned as an `int`. -/
def wordLen (buffer : List UInt8) : Option Int32 := (wordLenLoop buffer 0).map Int32.ofNat

/-- The loop of `getChineseWordLen`. -/
def getChineseWordLenLoop (pos : List UInt8) (chineseWord : Int32) : Option Int32 :=
  match pos with
  | [] => none
  | c :: pos =>
    if c = 0 then some chineseWord
    else if c &&& 0x80 ≠ 0 then
      if numBytes c ≤ pos.length then
        getChineseWordLenLoop (pos.drop (numBytes c)) (chineseWord + 1)
      else none
    else getChineseWordLenLoop pos chineseWord
termination_by pos.length
decreasing_by all_goals simp only [List.length_drop, List.length_cons]; omega

/-- `getChineseWordLen`. -/
def getChineseWordLen (buffer : List UInt8) : Option Int32 := getChineseWordLenLoop buffer 0

/-- An `int` that is compared with a `size_t`, or passed as one. -/
def sizeT (count : Int32) : ℕ := (count.toInt % 2 ^ 64).toNat

/-- A number below `2 ^ 31` is itself as an `int`. -/
theorem toInt_ofNat_eq_iff {m : ℕ} : (Int32.ofNat m).toInt = m ↔ m < 2 ^ 31 := by
  rw [Int32.toInt_ofNat', Int32.size, Int.bmod_def]
  omega

/-- Wrapping never makes a number larger. -/
theorem toInt_ofNat_le (m : ℕ) : (Int32.ofNat m).toInt ≤ m := by
  rw [Int32.toInt_ofNat', Int32.size, Int.bmod_def]
  omega

/-- The lower half of the `int`s is passed on modulo `2 ^ 32`. -/
theorem sizeT_ofNat_of_lt {m : ℕ} (h : m % 2 ^ 32 < 2 ^ 31) :
    sizeT (Int32.ofNat m) = m % 2 ^ 32 := by
  rw [sizeT, Int32.toInt_ofNat', Int32.size, Int.bmod_def]
  omega

/-- The upper half of them is negative and becomes a huge `size_t`. -/
theorem sizeT_ofNat_of_ge {m : ℕ} (h : 2 ^ 31 ≤ m % 2 ^ 32) :
    sizeT (Int32.ofNat m) = 2 ^ 64 - 2 ^ 32 + m % 2 ^ 32 := by
  rw [sizeT, Int32.toInt_ofNat', Int32.size, Int.bmod_def]
  omega

/-- The loop of `getWordChineseDouble`, with `wstr.size()`; a character is read
before the width is compared. What was taken is no wider than `count`, which
keeps `chineseWord` an `int`; a negative `count` is a `size_t` that no text in
memory reaches. The bytes in front of `wordPos` may be more than an `int`. -/
def getWordChineseDoubleLoop (count : Int32) (pos : List UInt8) (size chineseWord : ℕ)
    (wordPos : Int32) : Option Int32 :=
  match pos with
  | [] => none
  | c :: pos =>
    if c = 0 then some wordPos
    else if c &&& 0x80 ≠ 0 then
      if numBytes c ≤ pos.length then
        if sizeT count < size + chineseWord + 2 then some wordPos
        else getWordChineseDoubleLoop count (pos.drop (numBytes c)) (size + 1) (chineseWord + 1)
          (wordPos + Int32.ofNat (numBytes c + 1))
      else none
    else if sizeT count < size + chineseWord + 1 then some wordPos
    else getWordChineseDoubleLoop count pos (size + 1) chineseWord (wordPos + 1)
termination_by pos.length
decreasing_by all_goals simp only [List.length_drop, List.length_cons]; omega

/-- `getWordChineseDouble`: `substr(0, wordPos)` of the text. -/
def getWordChineseDouble (buffer : List UInt8) (count : Int32) : Option (List UInt8) :=
  (getWordChineseDoubleLoop count buffer 0 0 0).map fun wordPos =>
    (buffer.takeWhile (· ≠ 0)).take (sizeT wordPos)

/-- The loop of `getWord`. -/
def getWordLoop (count : ℤ) (pos : List UInt8) (wordCount : ℕ) (words : List UInt8) :
    Option (List UInt8) :=
  match pos with
  | [] => none
  | c :: pos =>
    if c ≠ 0 ∧ wordCount < count then
      if c &&& 0x80 ≠ 0 then
        if numBytes c ≤ pos.length then
          getWordLoop count (pos.drop (numBytes c)) (wordCount + 1)
            (words ++ c :: pos.take (numBytes c))
        else none
      else getWordLoop count pos (wordCount + 1) (words ++ [c])
    else some words
termination_by pos.length
decreasing_by all_goals simp only [List.length_drop, List.length_cons]; omega

/-- `getWord`. -/
def getWord (buffer : List UInt8) (count : ℤ) : Option (List UInt8) := getWordLoop count buffer 0 []

/-- The loop of `decLastWord`, which looks at the byte behind a character
before it takes it. -/
def decLastWordLoop (pos words : List UInt8) : Option (List UInt8) :=
  match pos with
  | [] => none
  | c :: pos =>
    if c = 0 then some words
    else if c &&& 0x80 ≠ 0 then
      match pos[numBytes c]? with
      | none => none
      | some next =>
        if next = 0 then some words
        else decLastWordLoop (pos.drop (numBytes c)) (words ++ c :: pos.take (numBytes c))
    else
      match pos[0]? with
      | none => none
      | some next => if next = 0 then some words else decLastWordLoop pos (words ++ [c])
termination_by pos.length
decreasing_by all_goals simp only [List.length_drop, List.length_cons]; omega

/-- `decLastWord`. -/
def decLastWord (buffer : List UInt8) : Option (List UInt8) := decLastWordLoop buffer []

end CdroidDemo.TextHelpers
