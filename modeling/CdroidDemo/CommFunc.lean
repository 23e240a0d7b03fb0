import CdroidDemo.Occurrences
import CdroidDemo.WaterModePages

/-!
# Text functions

Searching and replacing in a text, and the functions of `comm_func` that
compare versions. A function that throws returns `none`.
-/

namespace CdroidDemo.CommFunc

open Occurrences WaterModePages

/-! ## Replacing -/

/-- `std::string::find`, with `none` for `npos`. -/
def find (src old_value : List UInt8) (pos : ℕ) : Option ℕ :=
  if pos ≤ src.length then (firstIndex old_value (src.drop pos)).map (pos + ·) else none

/-- `std::string::replace`. -/
def replace (src : List UInt8) (pos length : ℕ) (new_value : List UInt8) : List UInt8 :=
  src.take pos ++ new_value ++ src.drop (pos + length)

/-! ## Versions -/

/-- A stream over a text: what is left to be read, and `eofbit`. -/
structure IStringStream where
  /-- The characters that have not been read. -/
  rest : List Char
  /-- The `eofbit`. -/
  eof : Bool

/-- `std::getline`; a line is missing when nothing is left. The delimiter is
taken from the stream, and a line without one ends the stream. -/
def getline (iss : IStringStream) (delim : Char) : Option (List Char × IStringStream) :=
  if iss.eof = true ∨ iss.rest = [] then none
  else some (iss.rest.takeWhile (· ≠ delim),
    ⟨(iss.rest.dropWhile (· ≠ delim)).drop 1, decide (delim ∉ iss.rest)⟩)

/-- Every line shortens the stream. -/
theorem getline_rest_lt {iss iss' : IStringStream} {delim : Char} {part : List Char}
    (h : getline iss delim = some (part, iss')) : iss'.rest.length < iss.rest.length := by
  unfold getline at h
  split at h
  · cases h
  · rename_i hne
    have hpos := List.length_pos_iff.mpr (not_or.mp hne).2
    have hle := (List.dropWhile_sublist (l := iss.rest) (· ≠ delim)).length_le
    cases h
    rw [List.length_drop]
    omega

/-- The loop of `splitVersion`. -/
def splitVersionLoop (iss : IStringStream) (result : List Int32) : Option (List Int32) :=
  match _h : getline iss '.' with
  | none => some result
  | some (part, iss') => (stoi part).bind fun n => splitVersionLoop iss' (result ++ [n])
termination_by iss.rest.length
decreasing_by exact getline_rest_lt _h

/-- `splitVersion`. -/
def splitVersion (version : List Char) : Option (List Int32) := splitVersionLoop ⟨version, false⟩ []

/-- The loop of `checkVersion` over the parts that both versions have. -/
def checkVersionLoop : List Int32 → List Int32 → Option ℤ
  | m :: otaVersion, n :: localOtaVersion =>
    if m < n then some (-1)
    else if n < m then some 1
    else checkVersionLoop otaVersion localOtaVersion
  | _, _ => none

/-- What `checkVersion` does with the split versions. -/
def compareParts (otaVersion localOtaVersion : List Int32) : ℤ :=
  match checkVersionLoop otaVersion localOtaVersion with
  | some r => r
  | none =>
    if otaVersion.length < localOtaVersion.length then -1
    else if localOtaVersion.length < otaVersion.length then 1
    else 0

/-- `checkVersion`. -/
def checkVersion (version localVersion : List Char) : Option ℤ := do
  let otaVersion ← splitVersion version
  let localOtaVersion ← splitVersion localVersion
  return compareParts otaVersion localOtaVersion

end CdroidDemo.CommFunc
