import CdroidDemo.TextReplacement
import CdroidDemo.TurnLimits
import Mathlib.Data.Nat.Find

/-!
# When padding and replacing end

`fillLength` and `replace_all` repeat a step that lengthens a string. Both end
when the step makes progress: by returning, or by throwing when the string
gets too long. An empty prefix and an empty text to replace make none.
-/

namespace CdroidDemo.TextTermination

open BoundedText CommFunc Occurrences TextReplacement TextHelpers TurnLimits

/-- Enough turns bring a result: a string or an exception. -/
def Ends (f : ℕ → Option (Except LengthError StdString)) : Prop := ∃ n r, f n = some r

/-- Enough turns bring a string. -/
def Returns (f : ℕ → Option (Except LengthError StdString)) : Prop := ∃ n s, f n = some (.ok s)

/-! ## Padding -/

variable {numLength : ℕ} {num len : Int32} {pre : StdString}

/-- More turns keep what the filling loop returned. -/
theorem fillLengthLoop_keeps (numLength : ℕ) (len : Int32) (pre ret : StdString) :
    Keeps fun n => fillLengthLoop numLength len pre n ret := by
  intro n r h
  induction n generalizing ret with
  | zero => cases h
  | succ n ih =>
    simp only [fillLengthLoop] at h ⊢
    split
    · rename_i hlt
      rw [if_pos hlt] at h
      cases ha : append ret pre with
      | error e =>
        rw [ha] at h
        exact h
      | ok ret =>
        rw [ha] at h
        exact ih ret h
    · rename_i hge
      rwa [if_neg hge] at h

/-- More turns keep what `fillLength` returned. -/
theorem fillLength_keeps (num len : Int32) (pre : StdString) :
    Keeps fun n => fillLength n num len pre :=
  (fillLengthLoop_keeps (numString num).1.length len pre _).map _

/-- The loop appends the prefix as often as the length needs it. -/
theorem fillLengthLoop_spec {d : ℕ} (ret : StdString)
    (hle : sizeT len ≤ numLength + ret.1.length + d * pre.1.length)
    (hlt : ∀ e < d, numLength + ret.1.length + e * pre.1.length < sizeT len) :
    ∃ n, fillLengthLoop numLength len pre n ret =
      some (ofBytes (ret.1 ++ (List.replicate d pre.1).flatten)) := by
  induction d generalizing ret with
  | zero =>
    refine ⟨1, ?_⟩
    rw [fillLengthLoop, if_neg (by omega), List.replicate_zero, List.flatten_nil, List.append_nil,
      ofBytes_val]
  | succ d ih =>
    have hguard : numLength + ret.1.length < sizeT len := by
      have := hlt 0 (by omega)
      omega
    have hsum : ret.1 ++ (List.replicate (d + 1) pre.1).flatten =
        (ret.1 ++ pre.1) ++ (List.replicate d pre.1).flatten := by
      rw [List.replicate_succ, List.flatten_cons, List.append_assoc]
    rw [hsum]
    rcases Nat.lt_or_ge MAX_SIZE (ret.1 ++ pre.1).length with hlong | hfits
    · refine ⟨1, ?_⟩
      rw [fillLengthLoop, if_pos hguard, append, ofBytes_error hlong,
        ofBytes_error (by rw [List.length_append]; omega)]
    · have hmul : ∀ e, (e + 1) * pre.1.length = pre.1.length + e * pre.1.length := fun e => by
        rw [Nat.add_mul, Nat.one_mul, Nat.add_comm]
      have hle' : sizeT len ≤
          numLength + (ret.1 ++ pre.1).length + d * pre.1.length := by
        rw [hmul] at hle
        rw [List.length_append]
        omega
      have hlt' : ∀ e < d, numLength + (ret.1 ++ pre.1).length + e * pre.1.length < sizeT len := by
        intro e he
        have := hlt (e + 1) (by omega)
        rw [hmul] at this
        rw [List.length_append]
        omega
      obtain ⟨n, hn⟩ := ih ⟨ret.1 ++ pre.1, hfits⟩ hle' hlt'
      refine ⟨n + 1, ?_⟩
      rw [fillLengthLoop, if_pos hguard, append, ofBytes_ok hfits]
      exact hn

/-- With the least number of prefixes that makes up the length, `fillLength`
gives these and the digits, or throws if they are too long. -/
theorem fillLength_spec {d : ℕ} (hle : sizeT len ≤ (numString num).1.length + d * pre.1.length)
    (hlt : ∀ e < d, (numString num).1.length + e * pre.1.length < sizeT len) :
    ∃ n, fillLength n num len pre =
      some (ofBytes ((List.replicate d pre.1).flatten ++ (numString num).1)) := by
  obtain ⟨n, hn⟩ := fillLengthLoop_spec ⟨[], Nat.zero_le _⟩ hle hlt
  refine ⟨n, ?_⟩
  rw [fillLength, hn, Option.map_some, ofBytes_bind_append, List.nil_append]

/-- An empty prefix brings nothing nearer to the length. -/
theorem fillLength_never (hlt : (numString num).1.length < sizeT len) (hpre : pre.1 = []) (n : ℕ) :
    fillLength n num len pre = none := by
  rw [fillLength, Option.map_eq_none_iff]
  induction n with
  | zero => rfl
  | succ n ih =>
    have hsame : append ⟨[], Nat.zero_le _⟩ pre = .ok ⟨[], Nat.zero_le _⟩ := by
      rw [append, hpre]
      exact ofBytes_ok (Nat.zero_le _)
    rw [fillLengthLoop, List.length_nil, Nat.add_zero, if_pos hlt, hsame]
    exact ih

/-- Some number of prefixes makes up the length. -/
theorem exists_prefixes_iff : (∃ d, sizeT len ≤ (numString num).1.length + d * pre.1.length) ↔
    sizeT len ≤ (numString num).1.length ∨ pre.1 ≠ [] := by
  constructor
  · rintro ⟨d, hd⟩
    by_cases hpre : pre.1 = []
    · rw [hpre, List.length_nil, Nat.mul_zero] at hd
      exact Or.inl hd
    · exact Or.inr hpre
  · rintro (hle | hpre)
    · exact ⟨0, by omega⟩
    · have hpos := List.length_pos_iff.mpr hpre
      exact ⟨sizeT len, (Nat.le_mul_of_pos_right _ hpos).trans (Nat.le_add_left _ _)⟩

/-- When `fillLength` ends, with the least number of prefixes. -/
theorem fillLength_least (h : ∃ d, sizeT len ≤ (numString num).1.length + d * pre.1.length) :
    ∃ n, fillLength n num len pre =
      some (ofBytes ((List.replicate (Nat.find h) pre.1).flatten ++ (numString num).1)) :=
  fillLength_spec (Nat.find_spec h) fun _ he => not_le.mp (Nat.find_min h he)

/-- The filling ends when nothing is missing or there is something to fill with.
-/
theorem fillLength_ends_iff : Ends (fillLength · num len pre) ↔
    sizeT len ≤ (numString num).1.length ∨ pre.1 ≠ [] := by
  constructor
  · rintro ⟨n, r, hr⟩
    by_contra hno
    rw [not_or, not_not, not_le] at hno
    cases (fillLength_never hno.1 hno.2 n).symm.trans hr
  · intro h
    obtain ⟨n, hn⟩ := fillLength_least (exists_prefixes_iff.mpr h)
    exact ⟨n, _, hn⟩

/-- The filling returns when some number of fillings is enough and fits. -/
theorem fillLength_returns_iff : Returns (fillLength · num len pre) ↔
    ∃ d, sizeT len ≤ (numString num).1.length + d * pre.1.length ∧
      (numString num).1.length + d * pre.1.length ≤ MAX_SIZE := by
  have hlength : ∀ d, ((List.replicate d pre.1).flatten ++ (numString num).1).length =
      (numString num).1.length + d * pre.1.length := fun d => by
    rw [List.length_append, List.length_flatten, List.map_replicate, List.sum_replicate_nat]
    omega
  constructor
  · rintro ⟨n, s, hs⟩
    have h := exists_prefixes_iff.mpr (fillLength_ends_iff.mp ⟨n, _, hs⟩)
    obtain ⟨m, hm⟩ := fillLength_least h
    have heq := (fillLength_keeps num len pre).unique hm hs
    have hfits := ofBytes_eq_ok_iff.mp ⟨s, heq⟩
    rw [hlength] at hfits
    exact ⟨Nat.find h, Nat.find_spec h, hfits⟩
  · rintro ⟨d, hle, hfits⟩
    have h : ∃ d, sizeT len ≤ (numString num).1.length + d * pre.1.length := ⟨d, hle⟩
    obtain ⟨n, hn⟩ := fillLength_least h
    have hleast := Nat.mul_le_mul_right pre.1.length (Nat.find_min' h hle)
    have hok : ((List.replicate (Nat.find h) pre.1).flatten ++ (numString num).1).length ≤
        MAX_SIZE := by
      rw [hlength]
      omega
    rw [ofBytes_ok hok] at hn
    exact ⟨n, _, hn⟩

/-! ## Replacing -/

variable {src old_value new_value : StdString} {pos : ℕ}

/-- More turns keep what the replacing loop returned. -/
theorem replaceLoop_keeps (old_value new_value src : StdString) (pos : ℕ) :
    Keeps fun n => replaceLoop old_value new_value n src pos := by
  intro n r h
  induction n generalizing src pos with
  | zero => cases h
  | succ n ih =>
    simp only [replaceLoop] at h ⊢
    cases hf : find src.1 old_value.1 pos with
    | none =>
      rw [hf] at h
      exact h
    | some p =>
      rw [hf] at h
      dsimp only at h ⊢
      cases hr : BoundedText.replace src p old_value.1.length new_value with
      | error e =>
        rw [hr] at h
        exact h
      | ok src =>
        rw [hr] at h
        exact ih src _ h

/-- What replacing makes of the length. -/
theorem length_replace (t : List UInt8) {s : List UInt8} {p length : ℕ}
    (h : p + length ≤ s.length) :
    (CommFunc.replace s p length t).length + length = s.length + t.length := by
  rw [CommFunc.replace, List.length_append, List.length_append, List.length_take, List.length_drop]
  omega

/-- The empty text is found at once. -/
theorem find_nil {s : List UInt8} (h : pos ≤ s.length) : find s [] pos = some pos := by
  have hfirst : firstIndex [] (s.drop pos) = some 0 := by
    cases s.drop pos with
    | nil => rfl
    | cons a s => exact if_pos (List.nil_prefix)
  rw [find, if_pos h, hfirst]
  rfl

/-- Replacing the empty text by itself does nothing, for ever. -/
theorem replaceLoop_never (ho : old_value.1 = []) (hnew : new_value.1 = [])
    (hpos : pos ≤ src.1.length) (n : ℕ) : replaceLoop old_value new_value n src pos = none := by
  induction n with
  | zero => rfl
  | succ n ih =>
    have hsame : BoundedText.replace src pos 0 new_value = .ok src := by
      rw [BoundedText.replace, CommFunc.replace, hnew, List.append_nil, Nat.add_zero,
        List.take_append_drop, ofBytes_val]
    rw [replaceLoop, ho, find_nil hpos]
    dsimp only
    rw [List.length_nil, hsame, hnew]
    exact ih

/-- Inserting a text lengthens the string until it is too long. -/
theorem replaceLoop_throws (ho : old_value.1 = []) (hnew : new_value.1 ≠ []) (src : StdString)
    {pos : ℕ} (hpos : pos ≤ src.1.length) :
    ∃ n, replaceLoop old_value new_value n src pos = some (.error .length_error) := by
  have hlen := length_replace new_value.1 (show pos + 0 ≤ src.1.length from hpos)
  have hgrow := List.length_pos_iff.mpr hnew
  rcases Nat.lt_or_ge MAX_SIZE (CommFunc.replace src.1 pos 0 new_value.1).length
    with hlong | hfits
  · refine ⟨1, ?_⟩
    rw [replaceLoop, ho, find_nil hpos]
    dsimp only
    rw [List.length_nil, BoundedText.replace, ofBytes_error hlong]
  · obtain ⟨n, hn⟩ := replaceLoop_throws ho hnew ⟨_, hfits⟩
      (show pos + new_value.1.length ≤ (CommFunc.replace src.1 pos 0 new_value.1).length by omega)
    refine ⟨n + 1, ?_⟩
    rw [replaceLoop, ho, find_nil hpos]
    dsimp only
    rw [List.length_nil, BoundedText.replace, ofBytes_ok hfits]
    exact hn
termination_by MAX_SIZE - src.1.length
decreasing_by
  have := src.2
  omega

/-- The replacing ends unless both the old and the new value are empty. -/
theorem replaceAll_ends_iff : Ends (replaceAll · src old_value new_value) ↔
    old_value.1 ≠ [] ∨ new_value.1 ≠ [] := by
  constructor
  · rintro ⟨n, r, hr⟩
    by_contra hno
    rw [not_or, not_not, not_not] at hno
    cases (replaceLoop_never hno.1 hno.2 (Nat.zero_le src.1.length) n).symm.trans hr
  · intro h
    by_cases ho : old_value.1 = []
    · obtain ⟨n, hn⟩ := replaceLoop_throws ho (h.resolve_left (not_not.mpr ho)) src
        (Nat.zero_le src.1.length)
      exact ⟨n, _, hn⟩
    · obtain ⟨r, -, hr⟩ := replaceAll_spec ho src new_value
      exact ⟨_, _, hr _ (Nat.lt_succ_self _)⟩

/-- The replacing returns when the old value is not empty and the result fits.
-/
theorem replaceAll_returns_iff : Returns (replaceAll · src old_value new_value) ↔
    old_value.1 ≠ [] ∧
      ∃ r, Replaced old_value.1 new_value.1 src.1 r ∧ r.length ≤ MAX_SIZE := by
  have hkeeps := replaceLoop_keeps old_value new_value src 0
  constructor
  · rintro ⟨n, s, hs⟩
    by_cases ho : old_value.1 = []
    · have hnew := (replaceAll_ends_iff.mp ⟨n, _, hs⟩).resolve_left (not_not.mpr ho)
      obtain ⟨m, hm⟩ := replaceLoop_throws ho hnew src (Nat.zero_le _)
      cases hkeeps.unique hm hs
    · obtain ⟨r, hrep, hall⟩ := replaceAll_spec ho src new_value
      have hm := hall _ (Nat.lt_succ_self _)
      exact ⟨ho, r, hrep, ofBytes_eq_ok_iff.mp ⟨s, hkeeps.unique hm hs⟩⟩
  · rintro ⟨ho, r, hrep, hfits⟩
    obtain ⟨r', hrep', hall⟩ := replaceAll_spec ho src new_value
    have hm := hall _ (Nat.lt_succ_self _)
    rw [hrep'.unique hrep, ofBytes_ok hfits] at hm
    exact ⟨_, _, hm⟩

/-! ## Together -/

/-- `fillLength` ends exactly when the digits make up the length or the prefix
is not empty, and it returns exactly when some number of prefixes makes up the
length within `max_size`. `replace_all` ends exactly when one of its texts is
not empty, and it returns exactly when the text to replace is not empty and
the replaced string is not too long. -/
theorem padding_replacing_end_iff (num len : Int32) (pre src old_value new_value : StdString) :
    ((Ends (fillLength · num len pre) ↔
        sizeT len ≤ (numString num).1.length ∨ pre.1 ≠ []) ∧
      (Returns (fillLength · num len pre) ↔
        ∃ d, sizeT len ≤ (numString num).1.length + d * pre.1.length ∧
          (numString num).1.length + d * pre.1.length ≤ MAX_SIZE)) ∧
    (Ends (replaceAll · src old_value new_value) ↔ old_value.1 ≠ [] ∨ new_value.1 ≠ []) ∧
    (Returns (replaceAll · src old_value new_value) ↔ old_value.1 ≠ [] ∧
      ∃ r, Replaced old_value.1 new_value.1 src.1 r ∧ r.length ≤ MAX_SIZE) :=
  ⟨⟨fillLength_ends_iff, fillLength_returns_iff⟩, replaceAll_ends_iff, replaceAll_returns_iff⟩

/-- The digit of 5 is not padded to length 10 with an empty prefix, and the
empty text is not replaced by itself. -/
theorem padding_replacing_never_end :
    ¬(∀ (num len : Int32) (pre : StdString), Ends (fillLength · num len pre)) ∧
      ¬ ∀ src old_value new_value : StdString, Ends (replaceAll · src old_value new_value) := by
  constructor
  · intro h
    obtain ⟨n, r, hr⟩ := h 5 10 ⟨[], Nat.zero_le _⟩
    cases (fillLength_never (by decide) rfl n).symm.trans hr
  · intro h
    obtain ⟨n, r, hr⟩ := h ⟨[0x61, 0x62, 0x63], by decide⟩ ⟨[], Nat.zero_le _⟩ ⟨[], Nat.zero_le _⟩
    cases (replaceLoop_never rfl rfl (Nat.zero_le _) n).symm.trans hr

end CdroidDemo.TextTermination
