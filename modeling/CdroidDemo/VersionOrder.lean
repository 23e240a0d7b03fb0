import CdroidDemo.CommFunc
import CdroidDemo.FormTexts
import Mathlib.Data.List.Lex

/-!
# The order of versions

A version is a list of numbers with dots between them. `checkVersion` orders
versions as these lists are ordered lexicographically.
-/

namespace CdroidDemo.VersionOrder

open JsonFunc WaterModePages FormTexts CommFunc

/-- A decimal number that an `int` can hold. -/
def Part (s : List Char) (n : Int32) : Prop :=
  ∃ sign digits, s = sign ++ digits ∧ (sign = [] ∨ sign = ['+'] ∨ sign = ['-']) ∧ digits ≠ [] ∧
    (∀ c ∈ digits, c.isDigit = true) ∧ n.toInt =
      if sign = ['-'] then -(Nat.ofDigitChars 10 digits 0 : ℤ) else Nat.ofDigitChars 10 digits 0

/-- Numbers with dots between them. -/
def Version (version : List Char) (ns : List Int32) : Prop :=
  ∃ parts, parts ≠ [] ∧ version = ['.'].intercalate parts ∧ List.Forall₂ Part parts ns

/-! ## Splitting -/

section Parts

variable {s : List Char} {n : Int32}

/-- A part is not empty. -/
theorem Part.ne_nil (h : Part s n) : s ≠ [] := by
  obtain ⟨sign, digits, rfl, -, hne, -⟩ := h
  exact List.append_ne_nil_of_right_ne_nil sign hne

/-- A part holds no dot. -/
theorem Part.dot_not_mem (h : Part s n) : '.' ∉ s := by
  obtain ⟨sign, digits, rfl, hs, -, hd, -⟩ := h
  rw [List.mem_append]
  rintro (hm | hm)
  · rcases hs with rfl | rfl | rfl
    · cases hm
    · exact absurd hm (by decide)
    · exact absurd hm (by decide)
  · exact absurd (hd _ hm) (by decide)

/-- `stoi` reads a part as a whole. -/
theorem Part.stoi_eq (h : Part s n) : stoi s = some n := by
  obtain ⟨sign, digits, rfl, hs, hne, hd, hn⟩ := h
  have hr : Reads (sign ++ digits) n.toInt := by
    refine ⟨[], sign, digits, [], ?_, nofun, hs, hne, hd, rfl, hn⟩
    rw [List.nil_append, List.append_nil]
  obtain ⟨hh, hv⟩ := (reads_iff _ _).mp hr
  unfold stoi
  dsimp only
  rw [← hv, if_pos ⟨hh, n.le_toInt, n.toInt_lt⟩, Int32.ofInt_toInt]

/-- A printed number is a part. -/
theorem part_stdToString (x : Int32) : Part (stdToString x) x := by
  unfold stdToString
  split
  · rename_i hneg
    refine ⟨['-'], Nat.toDigits 10 x.toInt.natAbs, rfl, Or.inr (Or.inr rfl), Nat.toDigits_ne_nil,
      toDigits_isDigit _, ?_⟩
    rw [if_pos rfl, Nat.ofDigitChars_ten_toDigits]
    omega
  · refine ⟨[], Nat.toDigits 10 x.toInt.natAbs, rfl, Or.inl rfl, Nat.toDigits_ne_nil,
      toDigits_isDigit _, ?_⟩
    rw [if_neg (List.cons_ne_nil _ _).symm, Nat.ofDigitChars_ten_toDigits]
    omega

end Parts

section Lines

variable {delim : Char} {part : List Char}

/-- A line is read as long as something is left. -/
theorem getline_left {rest : List Char} (hne : rest ≠ []) :
    getline ⟨rest, false⟩ delim = some (rest.takeWhile (· ≠ delim),
      ⟨(rest.dropWhile (· ≠ delim)).drop 1, decide (delim ∉ rest)⟩) :=
  if_neg (not_or.mpr ⟨Bool.false_ne_true, hne⟩)

/-- A part without the delimiter is taken whole. -/
theorem decide_ne_delim (h : delim ∉ part) : ∀ c ∈ part, decide (c ≠ delim) = true :=
  fun _ hc => decide_eq_true (ne_of_mem_of_not_mem hc h)

/-- A line up to its delimiter. -/
theorem getline_delim (h : delim ∉ part) (rest : List Char) :
    getline ⟨part ++ delim :: rest, false⟩ delim = some (part, ⟨rest, false⟩) := by
  have hp := decide_ne_delim h
  have hne : part ++ delim :: rest ≠ [] :=
    List.append_ne_nil_of_right_ne_nil part (List.cons_ne_nil _ _)
  rw [getline_left hne, List.takeWhile_append_of_pos hp, List.dropWhile_append_of_pos hp,
    List.takeWhile_cons_of_neg (by simp), List.dropWhile_cons_of_neg (by simp), List.append_nil,
    decide_eq_false fun hm => hm (List.mem_append_right part List.mem_cons_self)]
  rfl

/-- The last line. -/
theorem getline_last (h : delim ∉ part) (hne : part ≠ []) :
    getline ⟨part, false⟩ delim = some (part, ⟨[], true⟩) := by
  have hp := decide_ne_delim h
  rw [getline_left hne, List.takeWhile_eq_self_iff.mpr hp, List.dropWhile_eq_nil_iff.mpr hp,
    decide_eq_true h]
  rfl

end Lines

/-- Splitting joined parts gives their numbers. -/
theorem splitVersionLoop_parts {parts : List (List Char)} {ns : List Int32}
    (h : List.Forall₂ Part parts ns) (hne : parts ≠ []) (result : List Int32) :
    splitVersionLoop ⟨['.'].intercalate parts, false⟩ result = some (result ++ ns) := by
  induction h generalizing result with
  | nil => exact absurd rfl hne
  | @cons s n parts ns hs hps ih =>
    rw [splitVersionLoop]
    cases parts with
    | nil =>
      cases hps
      rw [List.intercalate_singleton, getline_last hs.dot_not_mem hs.ne_nil]
      dsimp only
      rw [hs.stoi_eq, Option.bind_some, splitVersionLoop]
      rfl
    | cons s' parts =>
      rw [List.intercalate_cons_cons, List.append_assoc, List.singleton_append,
        getline_delim hs.dot_not_mem]
      dsimp only
      rw [hs.stoi_eq, Option.bind_some, ih (List.cons_ne_nil _ _), List.append_assoc]
      rfl

/-- A version is split into its numbers. -/
theorem splitVersion_version {version : List Char} {ns : List Int32} (h : Version version ns) :
    splitVersion version = some ns := by
  obtain ⟨parts, hne, rfl, hp⟩ := h
  exact splitVersionLoop_parts hp hne []

/-- Numbers that are written with dots between them are a version. -/
theorem version_stdToString {ns : List Int32} (h : ns ≠ []) :
    Version (['.'].intercalate (ns.map stdToString)) ns := by
  refine ⟨ns.map stdToString, mt List.map_eq_nil_iff.mp h, rfl, ?_⟩
  rw [List.forall₂_map_left_iff, List.forall₂_same]
  exact fun n _ => part_stdToString n

/-! ## Comparing -/

section Signs

variable {β : Type*} [LinearOrder β]

/-- The sign of a comparison. -/
def orderSign (u v : β) : ℤ := if u < v then -1 else if v < u then 1 else 0

variable {u v : β}

/-- Below gives -1. -/
theorem orderSign_of_lt (h : u < v) : orderSign u v = -1 := if_pos h

/-- Above gives 1. -/
theorem orderSign_of_gt (h : v < u) : orderSign u v = 1 := by
  rw [orderSign, if_neg h.not_gt, if_pos h]

/-- Equal gives 0. -/
theorem orderSign_self (u : β) : orderSign u u = 0 := by
  rw [orderSign, if_neg (lt_irrefl u), if_neg (lt_irrefl u)]

/-- The signs stand for the three cases. -/
theorem orderSign_iff (u v : β) :
    (orderSign u v = -1 ↔ u < v) ∧ (orderSign u v = 0 ↔ u = v) ∧ (orderSign u v = 1 ↔ v < u) ∧
      (orderSign u v ≤ 0 ↔ u ≤ v) := by
  rcases lt_trichotomy u v with h | rfl | h
  · rw [orderSign_of_lt h]
    exact ⟨iff_of_true rfl h, iff_of_false (by decide) h.ne, iff_of_false (by decide) h.not_gt,
      iff_of_true (by decide) h.le⟩
  · rw [orderSign_self]
    exact ⟨iff_of_false (by decide) (lt_irrefl u), iff_of_true rfl rfl,
      iff_of_false (by decide) (lt_irrefl u), iff_of_true (by decide) (le_refl u)⟩
  · rw [orderSign_of_gt h]
    exact ⟨iff_of_false (by decide) h.not_gt, iff_of_false (by decide) h.ne', iff_of_true rfl h,
      iff_of_false (by decide) h.not_ge⟩

/-- The sign depends on the order only. -/
theorem orderSign_congr {γ : Type*} [LinearOrder γ] {u' v' : γ} (hlt : u < v ↔ u' < v')
    (hgt : v < u ↔ v' < u') : orderSign u v = orderSign u' v' :=
  if_congr hlt rfl (if_congr hgt rfl rfl)

/-- Exchanging the arguments changes the sign. -/
theorem orderSign_neg (u v : β) : orderSign v u = -orderSign u v := by
  rcases lt_trichotomy u v with h | rfl | h
  · rw [orderSign_of_lt h, orderSign_of_gt h]
    rfl
  · rw [orderSign_self]
    rfl
  · rw [orderSign_of_lt h, orderSign_of_gt h]

end Signs

/-- The numbers of a version. -/
def values (ns : List Int32) : List ℤ := ns.map Int32.toInt

/-- Versions with the same values are the same. -/
theorem values_injective : Function.Injective values :=
  List.map_injective_iff.mpr fun _ _ h => Int32.toInt_inj.mp h

/-- Versions are ordered by their heads, then by the rest. -/
theorem values_cons_lt {m n : Int32} {ms ns : List Int32} :
    values (m :: ms) < values (n :: ns) ↔ m < n ∨ m = n ∧ values ms < values ns := by
  rw [values, values, List.map_cons, List.map_cons, List.cons_lt_cons_iff, Int32.lt_iff_toInt_lt,
    Int32.toInt_inj]
  rfl

/-- Equal first parts leave the order to the other ones. -/
theorem compareParts_cons (m : Int32) (otaVersion localOtaVersion : List Int32) :
    compareParts (m :: otaVersion) (m :: localOtaVersion) =
      compareParts otaVersion localOtaVersion := by
  have hm : ¬m < m := Int32.lt_irrefl
  simp only [compareParts, checkVersionLoop, if_neg hm, List.length_cons, Nat.add_lt_add_iff_right]

/-- The loop and the lengths order versions lexicographically. -/
theorem compareParts_eq (otaVersion localOtaVersion : List Int32) :
    compareParts otaVersion localOtaVersion =
      orderSign (values otaVersion) (values localOtaVersion) := by
  induction otaVersion generalizing localOtaVersion with
  | nil =>
    cases localOtaVersion with
    | nil => exact (orderSign_self _).symm
    | cons n localOtaVersion => exact (orderSign_of_lt (List.nil_lt_cons _ _)).symm
  | cons m otaVersion ih =>
    cases localOtaVersion with
    | nil => exact (orderSign_of_gt (List.nil_lt_cons _ _)).symm
    | cons n localOtaVersion =>
      rcases Int.lt_trichotomy m.toInt n.toInt with h | h | h
      · have hlt := Int32.lt_iff_toInt_lt.mpr h
        rw [compareParts, checkVersionLoop, if_pos hlt,
          orderSign_of_lt (values_cons_lt.mpr (Or.inl hlt))]
      · obtain rfl := Int32.toInt_inj.mp h
        have hm : ¬m < m := Int32.lt_irrefl
        rw [compareParts_cons, ih]
        refine orderSign_congr ?_ ?_
        · simp only [values_cons_lt, hm, true_and, false_or]
        · simp only [values_cons_lt, hm, true_and, false_or]
      · have hgt := Int32.lt_iff_toInt_lt.mpr h
        rw [compareParts, checkVersionLoop, if_neg (Int32.lt_asymm hgt), if_pos hgt,
          orderSign_of_gt (values_cons_lt.mpr (Or.inl hgt))]

section Orders

variable {a b c : List Char} {as bs cs : List Int32}

/-- `checkVersion` is the sign of the order of the values. -/
theorem checkVersion_eq (ha : Version a as) (hb : Version b bs) :
    checkVersion a b = some (orderSign (values as) (values bs)) := by
  rw [checkVersion, splitVersion_version ha, splitVersion_version hb, ← compareParts_eq]
  rfl

/-- `checkVersion` orders versions as their lists of numbers are ordered
lexicographically, and the split of a version is its list. -/
theorem checkVersion_orders (ha : Version a as) (hb : Version b bs) (hc : Version c cs) :
    (∃ x y z, checkVersion a b = some x ∧ checkVersion b c = some y ∧ checkVersion a c = some z ∧
      checkVersion b a = some (-x) ∧ (x = 0 ↔ splitVersion a = splitVersion b) ∧
      (x = -1 ↔ values as < values bs) ∧ (x = 1 ↔ values bs < values as) ∧
      (x ≤ 0 → y ≤ 0 → z ≤ 0 ∧ (z = 0 → x = 0 ∧ y = 0))) ∧
      splitVersion a = some as ∧
      ∀ ns, ns ≠ [] → splitVersion (['.'].intercalate (ns.map stdToString)) = some ns := by
  refine ⟨⟨_, _, _, checkVersion_eq ha hb, checkVersion_eq hb hc, checkVersion_eq ha hc, ?_⟩,
    splitVersion_version ha, fun ns hne => splitVersion_version (version_stdToString hne)⟩
  obtain ⟨hlt, heq, hgt, hle⟩ := orderSign_iff (values as) (values bs)
  obtain ⟨-, heq', -, hle'⟩ := orderSign_iff (values bs) (values cs)
  obtain ⟨-, heq'', -, hle''⟩ := orderSign_iff (values as) (values cs)
  rw [checkVersion_eq hb ha, orderSign_neg, splitVersion_version ha, splitVersion_version hb]
  refine ⟨rfl, ?_, hlt, hgt, fun hx hy => ⟨?_, fun hz => ?_⟩⟩
  · exact (heq.trans values_injective.eq_iff).trans (Option.some_inj.symm)
  · exact hle''.mpr ((hle.mp hx).trans (hle'.mp hy))
  · have hac := heq''.mp hz
    have hab := le_antisymm (hle.mp hx) ((hle'.mp hy).trans hac.ge)
    exact ⟨heq.mpr hab, heq'.mpr (hab.symm.trans hac)⟩

/-- Version 1.9 is before 1.10, and that one before 1.10.0. -/
theorem checkVersion_orders_numeric : checkVersion "1.9".toList "1.10".toList = some (-1) ∧
    checkVersion "1.10".toList "1.10.0".toList = some (-1) := by
  have h9 : Version "1.9".toList [1, 9] := @version_stdToString [1, 9] (by decide)
  have h10 : Version "1.10".toList [1, 10] := @version_stdToString [1, 10] (by decide)
  have h100 : Version "1.10.0".toList [1, 10, 0] :=
    @version_stdToString [1, 10, 0] (by decide)
  obtain ⟨⟨x, y, -, hx, hy, -, -, -, hlt, -⟩, -⟩ := checkVersion_orders h9 h10 h100
  obtain ⟨⟨x', -, -, hx', -, -, -, -, hlt', -⟩, -⟩ := checkVersion_orders h10 h100 h9
  rw [hx, hx', hlt.mpr (by decide), hlt'.mpr (by decide)]
  exact ⟨rfl, rfl⟩

end Orders

end CdroidDemo.VersionOrder
