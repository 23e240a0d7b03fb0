import CdroidDemo.PrefixBudget
import CdroidDemo.TextHelpers

/-!
# What the text helpers return

Every helper walks over the characters that the first bytes announce. On a
text of whole characters it stays inside the text. Behind a character whose
end is missing it leaves the text, unless its count stops it before.
-/

namespace CdroidDemo.TextWords

open SelfDelimiting PrefixBudget TextHelpers

/-! ## Characters -/

/-- No byte follows an ASCII byte. -/
theorem numBytes_ascii {c : UInt8} (h : c &&& 0x80 = 0) : numBytes c = 0 := by
  have hmask : ∀ m : UInt8, m &&& 0x80 = 0x80 → ∀ v : UInt8, v &&& 0x80 = 0x80 → c &&& m ≠ v := by
    intro m hm v hv he
    have hc : c &&& 0x80 = (c &&& m) &&& 0x80 := by rw [UInt8.and_assoc, hm]
    rw [he, hv, h] at hc
    exact absurd hc (by decide)
  unfold numBytes
  rw [if_neg (hmask _ rfl _ rfl), if_neg (hmask _ rfl _ rfl), if_neg (hmask _ rfl _ rfl)]

/-- The width that `getWordChineseDouble` counts for a character. -/
def unitWidth : List UInt8 → ℕ
  | [] => 0
  | c :: _ => if c &&& 0x80 ≠ 0 then 2 else 1

/-- Every unit is counted. -/
theorem unitWidth_pos (c : UInt8) (t : List UInt8) : 1 ≤ unitWidth (c :: t) := by
  rw [unitWidth]
  split
  · exact Nat.le_succ 1
  · exact Nat.le_refl 1

/-- Characters without a NUL inside. -/
def Words (us : List (List UInt8)) : Prop := ∀ u ∈ us, IsUnit numBytes u ∧ 0 ∉ u

/-- The first unit is a leading byte with the bytes that follow it. -/
theorem words_cons {u : List UInt8} {us : List (List UInt8)} (h : Words (u :: us)) :
    ∃ c t, u = c :: t ∧ t.length = numBytes c ∧ c ≠ 0 ∧ 0 ∉ t ∧ Words us := by
  obtain ⟨⟨c, t, rfl, ht⟩, h0⟩ := h u List.mem_cons_self
  have h0 := not_or.mp fun h => h0 (List.mem_cons.mpr h)
  exact ⟨c, t, rfl, ht, Ne.symm h0.1, h0.2, fun v hv => h v (List.mem_cons_of_mem _ hv)⟩

section Units

variable {c : UInt8} {t m : List UInt8}

/-- Behind a whole character the memory goes on. -/
theorem unit_append (ht : t.length = numBytes c) (m : List UInt8) :
    numBytes c ≤ (t ++ m).length ∧ (t ++ m).drop (numBytes c) = m ∧
      (t ++ m).take (numBytes c) = t := by
  rw [List.length_append]
  exact ⟨by omega, List.drop_left' ht, List.take_left' ht⟩

/-- A character of one byte. -/
theorem unit_ascii (ht : t.length = numBytes c) (ha : ¬c &&& 0x80 ≠ 0) : t = [] := by
  rw [numBytes_ascii (not_not.mp ha)] at ht
  exact List.length_eq_zero_iff.mp ht

/-- A unit is counted as one character. -/
theorem wordLenLoop_unit (ht : t.length = numBytes c) (hc : c ≠ 0) (size : ℕ) :
    wordLenLoop (c :: t ++ m) size = wordLenLoop m (size + 1) := by
  obtain ⟨hle, hdrop, -⟩ := unit_append ht m
  rw [List.cons_append, wordLenLoop, if_neg hc]
  split
  · rw [hdrop]
  · rename_i ha
    rw [unit_ascii ht ha, List.nil_append]

/-- A wide unit is counted once more. -/
theorem getChineseWordLenLoop_unit (ht : t.length = numBytes c) (hc : c ≠ 0)
    (chineseWord : Int32) : getChineseWordLenLoop (c :: t ++ m) chineseWord =
      getChineseWordLenLoop m (chineseWord + Int32.ofNat (unitWidth (c :: t) - 1)) := by
  obtain ⟨hle, hdrop, -⟩ := unit_append ht m
  rw [List.cons_append, getChineseWordLenLoop, if_neg hc, unitWidth]
  split
  · rw [hdrop]
    rfl
  · rename_i ha
    rw [unit_ascii ht ha, List.nil_append]
    exact congrArg _ (Int32.add_zero chineseWord).symm

/-- A unit below the count is copied. -/
theorem getWordLoop_unit (ht : t.length = numBytes c) (hc : c ≠ 0) {count : ℤ} {wordCount : ℕ}
    (hlt : wordCount < count) (words : List UInt8) :
    getWordLoop count (c :: t ++ m) wordCount words =
      getWordLoop count m (wordCount + 1) (words ++ c :: t) := by
  obtain ⟨hle, hdrop, htake⟩ := unit_append ht m
  rw [List.cons_append, getWordLoop, if_pos ⟨hc, hlt⟩]
  split
  · rw [hdrop, htake]
  · rename_i ha
    rw [unit_ascii ht ha, List.nil_append]

/-- A character is taken when something follows it. -/
theorem decLastWordLoop_unit (ht : t.length = numBytes c) (hc : c ≠ 0) (d : UInt8)
    (words : List UInt8) :
    decLastWordLoop (c :: t ++ d :: m) words =
      if d = 0 then some words else decLastWordLoop (d :: m) (words ++ c :: t) := by
  obtain ⟨-, hdrop, htake⟩ := unit_append ht (d :: m)
  have hnext : (t ++ d :: m)[numBytes c]? = some d := by
    rw [← ht, List.getElem?_append_right (Nat.le_refl _), Nat.sub_self]
    rfl
  rw [List.cons_append, decLastWordLoop, if_neg hc]
  split
  · rw [hnext, hdrop, htake]
  · rename_i ha
    rw [numBytes_ascii (not_not.mp ha)] at hnext
    rw [hnext, unit_ascii ht ha, List.nil_append]

/-- A unit is taken while the width allows it. -/
theorem getWordChineseDoubleLoop_unit (ht : t.length = numBytes c) (hc : c ≠ 0) (count : Int32)
    (size chineseWord : ℕ) (wordPos : Int32) :
    getWordChineseDoubleLoop count (c :: t ++ m) size chineseWord wordPos =
      if sizeT count < size + chineseWord + unitWidth (c :: t) then some wordPos
      else getWordChineseDoubleLoop count m (size + 1) (chineseWord + (unitWidth (c :: t) - 1))
        (wordPos + Int32.ofNat (c :: t).length) := by
  obtain ⟨hle, hdrop, -⟩ := unit_append ht m
  rw [List.cons_append, getWordChineseDoubleLoop, if_neg hc, unitWidth]
  split
  · rw [hdrop, List.length_cons, ht]
  · rename_i ha
    rw [unit_ascii ht ha]
    rfl

end Units

/-! ## Texts of whole characters -/

section Loops

variable {us : List (List UInt8)} {m : List UInt8}

/-- A list of units is counted by its length. -/
theorem wordLenLoop_words (hu : Words us) (m : List UInt8) (size : ℕ) :
    wordLenLoop (us.flatten ++ m) size = wordLenLoop m (size + us.length) := by
  induction us generalizing size with
  | nil => rfl
  | cons u us ih =>
    obtain ⟨c, t, rfl, ht, hc, -, hus⟩ := words_cons hu
    rw [List.flatten_cons, List.append_assoc, wordLenLoop_unit ht hc, ih hus, List.length_cons,
      Nat.add_assoc, Nat.add_comm 1]

/-- The number of characters of more than one byte. -/
theorem getChineseWordLenLoop_words (hu : Words us) (m : List UInt8) (chineseWord : Int32) :
    getChineseWordLenLoop (us.flatten ++ m) chineseWord =
      getChineseWordLenLoop m (chineseWord + Int32.ofNat (total (unitWidth · - 1) us)) := by
  induction us generalizing chineseWord with
  | nil => exact congrArg _ (Int32.add_zero chineseWord).symm
  | cons u us ih =>
    obtain ⟨c, t, rfl, ht, hc, -, hus⟩ := words_cons hu
    rw [List.flatten_cons, List.append_assoc, getChineseWordLenLoop_unit ht hc, ih hus, total_cons,
      Int32.ofNat_add, Int32.add_assoc]

/-- `getWord` takes characters up to its count. -/
theorem getWordLoop_words (hu : Words us) (m : List UInt8) {count : ℤ} {wordCount : ℕ}
    (words : List UInt8) :
    getWordLoop count (us.flatten ++ m) wordCount words =
      if us.length ≤ (count - wordCount).toNat then
        getWordLoop count m (wordCount + us.length) (words ++ us.flatten)
      else some (words ++ (us.take (count - wordCount).toNat).flatten) := by
  induction us generalizing wordCount words with
  | nil =>
    rw [List.length_nil, if_pos (Nat.zero_le _), List.flatten_nil, List.append_nil]
    rfl
  | cons u us ih =>
    obtain ⟨c, t, rfl, ht, hc, -, hus⟩ := words_cons hu
    rw [List.flatten_cons, List.append_assoc, List.length_cons]
    by_cases hlt : wordCount < count
    · have hn : (count - wordCount).toNat = (count - (wordCount + 1 : ℕ)).toNat + 1 := by omega
      rw [getWordLoop_unit ht hc hlt, ih hus, hn, List.take_succ_cons, List.flatten_cons,
        List.append_assoc, List.append_assoc, Nat.add_right_comm, Nat.add_assoc]
      simp only [Nat.add_le_add_iff_right]
    · have hn : (count - wordCount).toNat = 0 := by omega
      rw [List.cons_append, getWordLoop, if_neg fun h => hlt h.2, if_neg (by omega), hn,
        List.take_zero, List.flatten_nil, List.append_nil]

/-- `decLastWord` leaves the last character. -/
theorem decLastWordLoop_words (hu : Words us) (words : List UInt8) :
    decLastWordLoop (us.flatten ++ [0]) words = some (words ++ us.dropLast.flatten) := by
  induction us generalizing words with
  | nil =>
    rw [List.flatten_nil, List.nil_append, decLastWordLoop, if_pos rfl]
    exact congrArg some (List.append_nil words).symm
  | cons u us ih =>
    obtain ⟨c, t, rfl, ht, hc, -, hus⟩ := words_cons hu
    rw [List.flatten_cons, List.append_assoc]
    cases us with
    | nil =>
      rw [List.flatten_nil, List.nil_append, decLastWordLoop_unit ht hc, if_pos rfl]
      exact congrArg some (List.append_nil words).symm
    | cons v us =>
      obtain ⟨d, t', rfl, -, hd, -⟩ := words_cons hus
      have hf : ((d :: t') :: us).flatten ++ [0] = d :: (t' ++ us.flatten ++ [0]) := rfl
      rw [hf, decLastWordLoop_unit ht hc, if_neg hd, ← hf, ih hus, List.append_assoc]
      rfl

/-- `getWordChineseDouble` goes on as long as the width fits. -/
theorem getWordChineseDoubleLoop_words (hu : Words us) (m : List UInt8) {count : Int32}
    {size chineseWord : ℕ} (wordPos : Int32) (hle : size + chineseWord ≤ sizeT count) :
    getWordChineseDoubleLoop count (us.flatten ++ m) size chineseWord wordPos =
      if size + chineseWord + total unitWidth us ≤ sizeT count then
        getWordChineseDoubleLoop count m (size + us.length)
          (chineseWord + total (unitWidth · - 1) us) (wordPos + Int32.ofNat us.flatten.length)
      else some (wordPos + Int32.ofNat
        (fitting unitWidth (sizeT count - (size + chineseWord)) us).flatten.length) := by
  induction us generalizing size chineseWord wordPos with
  | nil =>
    rw [total_nil, Nat.add_zero, if_pos hle]
    exact congrArg _ (Int32.add_zero wordPos).symm
  | cons u us ih =>
    obtain ⟨c, t, rfl, ht, hc, -, hus⟩ := words_cons hu
    have hw := unitWidth_pos c t
    rw [List.flatten_cons, List.append_assoc, getWordChineseDoubleLoop_unit ht hc, fitting,
      total_cons]
    by_cases hfit : size + chineseWord + unitWidth (c :: t) ≤ sizeT count
    · have hstep : size + 1 + (chineseWord + (unitWidth (c :: t) - 1)) =
          size + chineseWord + unitWidth (c :: t) := by omega
      have hrest : sizeT count - (size + chineseWord) - unitWidth (c :: t) =
          sizeT count - (size + chineseWord + unitWidth (c :: t)) := by omega
      have hroom : unitWidth (c :: t) ≤ sizeT count - (size + chineseWord) := by omega
      rw [if_neg (by omega), ih hus _ (by omega), hstep, if_pos hroom, hrest, List.flatten_cons,
        List.length_append, List.length_append, total_cons, Int32.ofNat_add, Int32.ofNat_add,
        Int32.add_assoc, Int32.add_assoc]
      simp only [List.length_cons, Nat.add_assoc, Nat.add_comm 1]
    · rw [if_pos (by omega), if_neg (by omega), if_neg (by omega)]
      exact congrArg some (Int32.add_zero wordPos).symm

end Loops

/-! ## Where the text ends -/

section Ends

variable {r : List UInt8}

/-- Behind a character whose end is missing there is no byte to go on. -/
theorem stuck_cons {c : UInt8} {t : List UInt8} (hr : Stuck numBytes (c :: t)) (h0 : 0 ∉ c :: t) :
    c ≠ 0 ∧ c &&& 0x80 ≠ 0 ∧ t.length < numBytes c ∧
      (numBytes c ≤ (t ++ [0]).length ↔ t.length + 1 = numBytes c) := by
  have hlt := hr c t rfl
  refine ⟨(List.ne_of_not_mem_cons h0).symm, fun ha => ?_, hlt, ?_⟩
  · rw [numBytes_ascii ha] at hlt
    cases hlt
  · rw [List.length_append, List.length_singleton]
    omega

/-- One byte of the character is missing. -/
def lacksOne : List UInt8 → Bool
  | [] => false
  | c :: t => decide (t.length + 1 = numBytes c)

/-- A lead byte that lacks one byte swallows the terminator. -/
theorem drop_stuck {c : UInt8} {t : List UInt8} (h : t.length + 1 = numBytes c) :
    (t ++ [0]).drop (numBytes c) = [] := by
  refine List.drop_eq_nil_of_le ?_
  rw [List.length_append, List.length_singleton]
  exact Nat.le_of_eq h

/-- A broken rest makes the count run over the end. -/
theorem wordLenLoop_rest (hr : Stuck numBytes r) (h0 : 0 ∉ r) (size : ℕ) :
    wordLenLoop (r ++ [0]) size = if r = [] then some size else none := by
  cases r with
  | nil => rw [List.nil_append, wordLenLoop, if_pos rfl, if_pos rfl]
  | cons c t =>
    obtain ⟨hc, hm, -, hle⟩ := stuck_cons hr h0
    rw [List.cons_append, wordLenLoop, if_neg hc, if_pos hm, if_neg (List.cons_ne_nil c t)]
    split
    · rename_i h
      rw [drop_stuck (hle.mp h), wordLenLoop]
    · rfl

/-- A broken rest makes the width run over the end. -/
theorem getChineseWordLenLoop_rest (hr : Stuck numBytes r) (h0 : 0 ∉ r) (chineseWord : Int32) :
    getChineseWordLenLoop (r ++ [0]) chineseWord = if r = [] then some chineseWord else none := by
  cases r with
  | nil => rw [List.nil_append, getChineseWordLenLoop, if_pos rfl, if_pos rfl]
  | cons c t =>
    obtain ⟨hc, hm, -, hle⟩ := stuck_cons hr h0
    rw [List.cons_append, getChineseWordLenLoop, if_neg hc, if_pos hm,
      if_neg (List.cons_ne_nil c t)]
    split
    · rename_i h
      rw [drop_stuck (hle.mp h), getChineseWordLenLoop]
    · rfl

/-- `getWord` stays inside when its count keeps it from the last character. -/
theorem getWordLoop_rest (hr : Stuck numBytes r) (h0 : 0 ∉ r) (count : ℤ) (wordCount : ℕ)
    (words : List UInt8) :
    getWordLoop count (r ++ [0]) wordCount words =
      if r = [] ∨ count ≤ wordCount then some words else none := by
  cases r with
  | nil => rw [List.nil_append, getWordLoop, if_neg fun h => h.1 rfl, if_pos (Or.inl rfl)]
  | cons c t =>
    obtain ⟨hc, hm, -, hle⟩ := stuck_cons hr h0
    rw [List.cons_append, getWordLoop]
    by_cases hlt : wordCount < count
    · have hno : ¬(c :: t = [] ∨ count ≤ wordCount) := by
        rintro (h | h)
        · cases h
        · omega
      rw [if_pos ⟨hc, hlt⟩, if_pos hm, if_neg hno]
      split
      · rename_i h
        rw [drop_stuck (hle.mp h), getWordLoop]
      · rfl
    · rw [if_neg fun h => hlt h.2, if_pos (Or.inr (Int.not_lt.mp hlt))]

/-- A broken character makes the shortening run over the end. -/
theorem decLastWordLoop_stuck (hr : Stuck numBytes r) (hne : r ≠ []) (h0 : 0 ∉ r)
    (words : List UInt8) : decLastWordLoop (r ++ [0]) words = none := by
  cases r with
  | nil => exact absurd rfl hne
  | cons c t =>
    obtain ⟨hc, hm, hlt, -⟩ := stuck_cons hr h0
    have hnext : (t ++ [0])[numBytes c]? = none := by
      rw [List.getElem?_eq_none_iff, List.length_append, List.length_singleton]
      omega
    rw [List.cons_append, decLastWordLoop, if_neg hc, if_pos hm, hnext]

/-- `getWordChineseDouble` stays inside when the width keeps it from the last
character, and that one lacks no more than one byte. -/
theorem getWordChineseDoubleLoop_rest (hr : Stuck numBytes r) (h0 : 0 ∉ r) (count : Int32)
    (size chineseWord : ℕ) (wordPos : Int32) :
    getWordChineseDoubleLoop count (r ++ [0]) size chineseWord wordPos =
      if r = [] ∨ (lacksOne r ∧ sizeT count < size + chineseWord + 2) then some wordPos
      else none := by
  cases r with
  | nil => rw [List.nil_append, getWordChineseDoubleLoop, if_pos rfl, if_pos (Or.inl rfl)]
  | cons c t =>
    obtain ⟨hc, hm, -, hle⟩ := stuck_cons hr h0
    have hl : lacksOne (c :: t) = true ↔ t.length + 1 = numBytes c := decide_eq_true_iff
    rw [List.cons_append, getWordChineseDoubleLoop, if_neg hc, if_pos hm]
    simp only [List.cons_ne_nil, false_or, hl]
    split
    · rename_i h
      rw [drop_stuck (hle.mp h), getWordChineseDoubleLoop]
      simp only [hle.mp h, true_and]
    · rename_i h
      rw [if_neg fun hn => h (hle.mpr hn.1)]

end Ends

/-! ## Inside the text -/

/-- A character more than one byte long counts twice. -/
theorem length_add_total {us : List (List UInt8)} (hu : Words us) :
    us.length + total (unitWidth · - 1) us = total unitWidth us := by
  induction us with
  | nil => rfl
  | cons u us ih =>
    obtain ⟨c, t, rfl, -, -, -, hus⟩ := words_cons hu
    have hw := unitWidth_pos c t
    have ih' := ih hus
    rw [List.length_cons, total_cons, total_cons]
    omega

/-- A text is its whole characters and a rest. -/
theorem cut_words {s : List UInt8} (h0 : 0 ∉ s) : ∃ us r, cut numBytes s = (us, r) ∧ Words us ∧
    Stuck numBytes r ∧ 0 ∉ r ∧ s ++ [0] = us.flatten ++ (r ++ [0]) := by
  obtain ⟨hu, hr, hj⟩ := @cut_spec _ numBytes s
  rw [hj] at h0
  have h0 := not_or.mp fun h => h0 (List.mem_append.mpr h)
  refine ⟨_, _, rfl, fun u hm => ⟨hu u hm, fun h => ?_⟩, hr, h0.2, ?_⟩
  · exact h0.1 (List.mem_flatten.mpr ⟨u, hm, h⟩)
  · rw [← List.append_assoc, ← hj]

/-- A broken rest behind whole units makes the shortening run over the end. -/
theorem decLastWordLoop_rest {us : List (List UInt8)} {r : List UInt8} (hu : Words us)
    (hr : Stuck numBytes r) (hne : r ≠ []) (h0 : 0 ∉ r) (words : List UInt8) :
    decLastWordLoop (us.flatten ++ (r ++ [0])) words = none := by
  induction us generalizing words with
  | nil => exact decLastWordLoop_stuck hr hne h0 words
  | cons u us ih =>
    obtain ⟨c, t, rfl, ht, hc, -, hus⟩ := words_cons hu
    have hnext : ∃ d m, us.flatten ++ (r ++ [0]) = d :: m ∧ d ≠ 0 := by
      cases us with
      | nil =>
        cases r with
        | nil => exact absurd rfl hne
        | cons d t => exact ⟨d, t ++ [0], rfl, (List.ne_of_not_mem_cons h0).symm⟩
      | cons v us =>
        obtain ⟨d, t', rfl, -, hd, -⟩ := words_cons hus
        exact ⟨d, t' ++ us.flatten ++ (r ++ [0]), rfl, hd⟩
    obtain ⟨d, m, he, hd⟩ := hnext
    have ih' := ih hus (words ++ c :: t)
    rw [he] at ih'
    rw [List.flatten_cons, List.append_assoc, he, decLastWordLoop_unit ht hc, if_neg hd, ih']

/-- The helpers stay inside a text exactly when it ends with a whole
character, or the count stops them before one whose end is missing. -/
theorem inside_iff {s : List UInt8} (h0 : 0 ∉ s) :
    ((wordLen (s ++ [0])).isSome = true ↔ (cut numBytes s).2 = []) ∧
      ((getChineseWordLen (s ++ [0])).isSome = true ↔ (cut numBytes s).2 = []) ∧
      ((decLastWord (s ++ [0])).isSome = true ↔ (cut numBytes s).2 = []) ∧
      (∀ count, (getWord (s ++ [0]) count).isSome = true ↔
        (cut numBytes s).2 = [] ∨ count ≤ (cut numBytes s).1.length) ∧
      ∀ count, (getWordChineseDouble (s ++ [0]) count).isSome = true ↔
        (cut numBytes s).2 = [] ∨ sizeT count < total unitWidth (cut numBytes s).1 ∨
          (lacksOne (cut numBytes s).2 ∧ sizeT count < total unitWidth (cut numBytes s).1 + 2) := by
  obtain ⟨us, r, hcut, hu, hr, hr0, hs⟩ := cut_words h0
  rw [hcut, hs]
  dsimp only
  have hsome : ∀ {α : Type} {p : Prop} [Decidable p] (a : α),
      (if p then some a else none).isSome = true ↔ p := by
    intro α p _ a
    by_cases hp : p
    · rw [if_pos hp]
      exact iff_of_true rfl hp
    · rw [if_neg hp]
      exact iff_of_false Bool.false_ne_true hp
  refine ⟨?_, ?_, ?_, fun count => ?_, fun count => ?_⟩
  · rw [wordLen, Option.isSome_map, wordLenLoop_words hu, wordLenLoop_rest hr hr0, hsome]
  · rw [getChineseWordLen, getChineseWordLenLoop_words hu, getChineseWordLenLoop_rest hr hr0, hsome]
  · by_cases hne : r = []
    · rw [hne, List.nil_append, decLastWord, decLastWordLoop_words hu]
      exact iff_of_true rfl rfl
    · rw [decLastWord, decLastWordLoop_rest hu hr hne hr0]
      exact iff_of_false Bool.false_ne_true hne
  · rw [getWord, getWordLoop_words hu, getWordLoop_rest hr hr0]
    split
    · rename_i hle
      rw [hsome, Nat.zero_add]
    · rename_i hgt
      exact iff_of_true rfl (Or.inr (by omega))
  · rw [getWordChineseDouble, Option.isSome_map,
      getWordChineseDoubleLoop_words hu _ 0 (Nat.zero_le _), getWordChineseDoubleLoop_rest hr hr0]
    split
    · rename_i hle
      rw [hsome, Nat.zero_add, Nat.zero_add, length_add_total hu]
      exact or_congr_right (or_iff_right (by omega)).symm
    · rename_i hgt
      exact iff_of_true rfl (Or.inr (Or.inl (by omega)))

/-- A letter and a character of three bytes whose last one is missing. -/
theorem inside_iff_cut_off :
    wordLen ([0x41, 0xE4, 0xBD] ++ [0]) = none ∧
      (getWord ([0x41, 0xE4, 0xBD] ++ [0]) 1).isSome = true ∧
      (getWordChineseDouble ([0x41, 0xE4, 0xBD] ++ [0]) 2).isSome = true := by
  have hcut : cut numBytes [0x41, 0xE4, 0xBD] = ([[0x41]], [0xE4, 0xBD]) := by
    refine @cut_flatten _ numBytes [[0x41]] _ (fun u hu => ?_) fun a t h => ?_
    · exact ⟨0x41, [], List.mem_singleton.mp hu, rfl⟩
    · cases h
      decide
  have h := inside_iff (s := [0x41, 0xE4, 0xBD]) (by decide)
  rw [hcut] at h
  refine ⟨?_, (h.2.2.2.1 1).mpr (Or.inr (by decide)), (h.2.2.2.2 2).mpr (Or.inr (Or.inr ?_))⟩
  · exact Option.not_isSome_iff_eq_none.mp fun hs => List.cons_ne_nil _ _ (h.1.mp hs)
  · decide

/-- The first byte of a character of three bytes alone. -/
theorem lead_alone_leaves :
    wordLen [0xE4, 0] = none ∧ getChineseWordLen [0xE4, 0] = none ∧
      getWordChineseDouble [0xE4, 0] 10 = none ∧ getWord [0xE4, 0] 10 = none ∧
      decLastWord [0xE4, 0] = none := by
  refine ⟨?_, ?_, ?_, ?_, ?_⟩
  · rw [wordLen, wordLenLoop]
    rfl
  · rw [getChineseWordLen, getChineseWordLenLoop]
    rfl
  · rw [getWordChineseDouble, getWordChineseDoubleLoop]
    rfl
  · rw [getWord, getWordLoop]
    rfl
  · rw [decLastWord, decLastWordLoop]
    rfl

/-! ## UTF-8 -/

/-- The bytes of some characters. -/
def utf8 (cs : List Char) : List UInt8 := (cs.map String.utf8EncodeChar).flatten

/-- The first bytes announce the length of the encoding, and no byte behind
them is NUL. -/
theorem utf8_bytes (x : UInt8) :
    (x < 0x80 → x &&& 0x80 = 0) ∧ numBytes (x &&& 0x1f ||| 0xc0) = 1 ∧
      numBytes (x &&& 0x0f ||| 0xe0) = 2 ∧ numBytes (x &&& 0x07 ||| 0xf0) = 3 ∧
      (x &&& 0x3f ||| 0x80 ≠ 0) := by
  have h : ∀ b : BitVec 8, (UInt8.ofBitVec b < 0x80 → UInt8.ofBitVec b &&& 0x80 = 0) ∧
      numBytes (UInt8.ofBitVec b &&& 0x1f ||| 0xc0) = 1 ∧
      numBytes (UInt8.ofBitVec b &&& 0x0f ||| 0xe0) = 2 ∧
      numBytes (UInt8.ofBitVec b &&& 0x07 ||| 0xf0) = 3 ∧
      (UInt8.ofBitVec b &&& 0x3f ||| 0x80 ≠ 0) := by decide
  exact h x.toBitVec

/-- A lead byte of a longer encoding is no NUL and no ASCII byte. -/
theorem lead_ne {c : UInt8} (h : numBytes c ≠ 0) : c ≠ 0 ∧ c &&& 0x80 ≠ 0 := by
  refine ⟨fun hc => ?_, fun hc => h (numBytes_ascii hc)⟩
  rw [hc] at h
  exact h rfl

/-- A character of one byte is an ASCII byte. -/
theorem ascii_byte {c : Char} (h : c.utf8Size = 1) :
    c.val.toUInt8 &&& 0x80 = 0 ∧ (c ≠ '\x00' → c.val.toUInt8 ≠ 0) := by
  have hle : c.val.toNat ≤ 127 := UInt32.le_iff_toNat_le.mp (Char.utf8Size_eq_one_iff.mp h)
  have hn : c.val.toUInt8.toNat = c.val.toNat := by
    rw [UInt32.toNat_toUInt8]
    omega
  refine ⟨(utf8_bytes _).1 (UInt8.lt_iff_toNat_lt.mpr ?_), fun hc h0 => hc ?_⟩
  · rw [hn]
    exact Nat.lt_succ_of_le hle
  · rw [h0] at hn
    exact Char.ext (UInt32.toNat_inj.mp hn.symm)

/-- A lead byte with the bytes it announces. -/
theorem lead_unit {c : UInt8} (xs : List UInt8) (hn : numBytes c = xs.length) (hne : xs ≠ []) :
    IsUnit numBytes (c :: xs.map fun x => x &&& 0x3f ||| 0x80) ∧
      0 ∉ c :: xs.map fun x => x &&& 0x3f ||| 0x80 := by
  refine ⟨⟨c, _, rfl, by rw [List.length_map, hn]⟩, fun h => ?_⟩
  cases List.mem_cons.mp h with
  | inl hc =>
    refine (lead_ne fun h => hne ?_).1 hc.symm
    exact List.length_eq_zero_iff.mp (hn.symm.trans h)
  | inr hm =>
    obtain ⟨x, -, hx⟩ := List.mem_map.mp hm
    exact (utf8_bytes x).2.2.2.2 hx

/-- An encoded character is a character of the helpers. -/
theorem utf8EncodeChar_unit {c : Char} (h0 : c ≠ '\x00') :
    IsUnit numBytes (String.utf8EncodeChar c) ∧ 0 ∉ String.utf8EncodeChar c := by
  rcases Char.utf8Size_eq c with h | h | h | h
  · obtain ⟨ha, hne⟩ := ascii_byte h
    rw [String.utf8EncodeChar_eq_singleton h]
    exact ⟨⟨_, _, rfl, (numBytes_ascii ha).symm⟩, fun hm => hne h0 (List.mem_singleton.mp hm).symm⟩
  · rw [String.utf8EncodeChar_eq_cons_cons h]
    exact lead_unit [c.val.toUInt8] (utf8_bytes _).2.1 (List.cons_ne_nil _ _)
  · rw [String.utf8EncodeChar_eq_cons_cons_cons h]
    exact lead_unit [(c.val >>> 6).toUInt8, c.val.toUInt8] (utf8_bytes _).2.2.1
      (List.cons_ne_nil _ _)
  · rw [String.utf8EncodeChar_eq_cons_cons_cons_cons h]
    exact lead_unit [(c.val >>> 12).toUInt8, (c.val >>> 6).toUInt8, c.val.toUInt8]
      (utf8_bytes _).2.2.2.1 (List.cons_ne_nil _ _)

/-- The width of a character: one byte counts once, more count twice. -/
def charWidth (c : Char) : ℕ := if c.utf8Size = 1 then 1 else 2

/-- The encoding of a character has its width. -/
theorem unitWidth_utf8EncodeChar (c : Char) :
    unitWidth (String.utf8EncodeChar c) = charWidth c := by
  unfold charWidth
  rcases Char.utf8Size_eq c with h | h | h | h
  · rw [String.utf8EncodeChar_eq_singleton h, unitWidth, if_neg (not_not.mpr (ascii_byte h).1),
      if_pos h]
  · have hn := (utf8_bytes (c.val >>> 6).toUInt8).2.1
    rw [String.utf8EncodeChar_eq_cons_cons h, unitWidth, if_pos (lead_ne (by rw [hn]; decide)).2,
      if_neg (by omega)]
  · have hn := (utf8_bytes (c.val >>> 12).toUInt8).2.2.1
    rw [String.utf8EncodeChar_eq_cons_cons_cons h, unitWidth,
      if_pos (lead_ne (by rw [hn]; decide)).2, if_neg (by omega)]
  · have hn := (utf8_bytes (c.val >>> 18).toUInt8).2.2.2.1
    rw [String.utf8EncodeChar_eq_cons_cons_cons_cons h, unitWidth,
      if_pos (lead_ne (by rw [hn]; decide)).2, if_neg (by omega)]

section Utf8

variable {cs : List Char}

/-- The encodings of characters are units. -/
theorem utf8_words (h0 : '\x00' ∉ cs) : Words (cs.map String.utf8EncodeChar) := by
  intro u hu
  obtain ⟨c, hc, rfl⟩ := List.mem_map.mp hu
  exact utf8EncodeChar_unit fun h => h0 (h ▸ hc)

/-- The encodings of characters have the characters' total width. -/
theorem total_utf8 (cs : List Char) :
    total unitWidth (cs.map String.utf8EncodeChar) = total charWidth cs := by
  unfold total
  rw [List.map_map]
  exact congrArg List.sum (List.map_congr_left fun c _ => unitWidth_utf8EncodeChar c)

/-- The length of a UTF-8 text is its number of characters, as an `int`. -/
theorem wordLen_utf8 (h0 : '\x00' ∉ cs) :
    wordLen (utf8 cs ++ [0]) = some (Int32.ofNat cs.length) := by
  rw [wordLen, utf8, wordLenLoop_words (utf8_words h0), wordLenLoop, if_pos rfl, Nat.zero_add,
    List.length_map, Option.map_some]

/-- A count up to the number of characters gives so many of them. -/
theorem getWord_utf8 (h0 : '\x00' ∉ cs) (count : ℤ) :
    getWord (utf8 cs ++ [0]) count = some (utf8 (cs.take (min (max count 0) cs.length).toNat)) := by
  rw [getWord, utf8, getWordLoop_words (utf8_words h0), List.length_map]
  split
  · rename_i hle
    rw [getWordLoop, if_neg fun h => h.1 rfl, List.take_of_length_le (by omega)]
    rfl
  · rename_i hlt
    rw [show (min (max count 0) cs.length).toNat = (count - (0 : ℕ)).toNat by omega,
      ← List.map_take]
    rfl

/-- A UTF-8 text loses its last character. -/
theorem decLastWord_utf8 (h0 : '\x00' ∉ cs) :
    decLastWord (utf8 cs ++ [0]) = some (utf8 cs.dropLast) := by
  rw [decLastWord, utf8, decLastWordLoop_words (utf8_words h0), List.nil_append,
    ← List.map_dropLast]
  rfl

/-- The helpers agree on a text of valid UTF-8. -/
structure HelpersAgree (cs : List Char) : Prop where
  /-- `wordLen` is the number of characters. -/
  counts : ∃ n, wordLen (utf8 cs ++ [0]) = some n ∧ n.toInt = cs.length
  /-- `getWord` takes the first characters, and `wordLen` counts them. -/
  takes : ∀ k : Int32, ∃ w n, getWord (utf8 cs ++ [0]) k.toInt = some w ∧
    w = utf8 (cs.take (min (max k.toInt 0) cs.length).toNat) ∧
    wordLen (w ++ [0]) = some n ∧ n.toInt = min (max k.toInt 0) cs.length
  /-- All characters are the text. -/
  takesAll : getWord (utf8 cs ++ [0]) cs.length = some (utf8 cs)
  /-- `decLastWord` takes all but the last character. -/
  drops : decLastWord (utf8 cs ++ [0]) = getWord (utf8 cs ++ [0]) (cs.length - 1)
  /-- Of at most one character nothing is left. -/
  dropsOne : cs.length ≤ 1 → decLastWord (utf8 cs ++ [0]) = some []

/-- What `wordLen` returns is the number of characters below `2 ^ 31`. -/
theorem wordLen_counts_iff (h0 : '\x00' ∉ cs) :
    (∃ n, wordLen (utf8 cs ++ [0]) = some n ∧ n.toInt = cs.length) ↔ cs.length < 2 ^ 31 := by
  rw [wordLen_utf8 h0, ← toInt_ofNat_eq_iff]
  constructor
  · rintro ⟨n, hn, he⟩
    obtain rfl := Option.some.inj hn
    exact he
  · exact fun h => ⟨_, rfl, h⟩

/-- The helpers agree exactly on the texts of fewer than `2 ^ 31` characters:
`wordLen` returns the number of characters as an `int`. -/
theorem helpers_agree_iff (h0 : '\x00' ∉ cs) : HelpersAgree cs ↔ cs.length < 2 ^ 31 := by
  refine ⟨fun h => (wordLen_counts_iff h0).mp h.counts, fun hlt => ?_⟩
  refine ⟨(wordLen_counts_iff h0).mpr hlt, fun k => ?_, ?_, ?_, fun h1 => ?_⟩
  · have hle : (min (max k.toInt 0) cs.length).toNat ≤ cs.length := by omega
    have hw := wordLen_utf8 fun h =>
      h0 (List.mem_of_mem_take (i := (min (max k.toInt 0) cs.length).toNat) h)
    rw [List.length_take, Nat.min_eq_left hle] at hw
    refine ⟨_, _, getWord_utf8 h0 k.toInt, rfl, hw, ?_⟩
    rw [toInt_ofNat_eq_iff.mpr (by omega)]
    omega
  · rw [getWord_utf8 h0, List.take_of_length_le (by omega)]
  · rw [getWord_utf8 h0, decLastWord_utf8 h0, List.dropLast_eq_take]
    congr 3
    omega
  · rw [decLastWord_utf8 h0, List.dropLast_eq_take, Nat.sub_eq_zero_of_le h1]
    rfl

/-- An ASCII letter, an umlaut and a character of three bytes. -/
theorem helpers_agree_iff_mixed :
    getWord (utf8 ['a', 'ä', '水'] ++ [0]) 2 = some [0x61, 0xC3, 0xA4] ∧
      ∃ n, wordLen ([0x61, 0xC3, 0xA4] ++ [0]) = some n ∧ n.toInt = 2 := by
  have h := (@helpers_agree_iff ['a', 'ä', '水'] (by decide)).mpr (by decide)
  obtain ⟨w, n, hw, he, hn, hl⟩ := h.takes 2
  rw [he] at hw hn
  exact ⟨hw, n, hn, hl⟩

/-- Of `2 ^ 31` letters `wordLen` returns a negative number. -/
theorem helpers_disagree_long :
    ∃ cs : List Char, '\x00' ∉ cs ∧ ¬HelpersAgree cs ∧
      ∃ n, wordLen (utf8 cs ++ [0]) = some n ∧ n.toInt = -2 ^ 31 := by
  have h0 : '\x00' ∉ List.replicate (2 ^ 31) 'a' := fun h =>
    absurd (List.eq_of_mem_replicate h) (by decide)
  have hlen : (List.replicate (2 ^ 31) 'a').length = 2 ^ 31 := List.length_replicate
  refine ⟨_, h0, fun h => ?_, _, wordLen_utf8 h0, ?_⟩
  · have hlt := (wordLen_counts_iff h0).mp h.counts
    rw [hlen] at hlt
    exact absurd hlt (lt_irrefl _)
  · rw [hlen]
    decide

/-! ## Widths -/

/-- A count that is not negative is itself. -/
theorem sizeT_nonneg {count : Int32} (h : 0 ≤ count.toInt) : (sizeT count : ℤ) = count.toInt := by
  have hlt := count.toInt_lt
  unfold sizeT
  omega

/-- A text ends at its terminator. -/
theorem takeWhile_text {s : List UInt8} (h0 : 0 ∉ s) : (s ++ [0]).takeWhile (· ≠ 0) = s := by
  have hp : ∀ b ∈ s, decide (b ≠ 0) = true := by
    intro b hb
    exact decide_eq_true fun h => h0 (by rwa [h] at hb)
  rw [List.takeWhile_append_of_pos hp]
  exact List.append_nil s

/-- A text of whole characters is cut behind the bytes of those that fit, as
an `int` counts these. -/
theorem getWordChineseDouble_words {us : List (List UInt8)} (hu : Words us) (count : Int32) :
    getWordChineseDouble (us.flatten ++ [0]) count = some (us.flatten.take
      (sizeT (Int32.ofNat (fitting unitWidth (sizeT count) us).flatten.length))) := by
  have h0 : 0 ∉ us.flatten := by
    intro h
    obtain ⟨u, hm, h⟩ := List.mem_flatten.mp h
    exact (hu u hm).2 h
  rw [getWordChineseDouble, getWordChineseDoubleLoop_words hu _ 0 (Nat.zero_le _),
    takeWhile_text h0]
  split
  · rename_i hle
    rw [getWordChineseDoubleLoop, if_pos rfl, fitting_eq_self (by omega), Option.map_some,
      Int32.zero_add]
  · rw [Option.map_some, Nat.zero_add, Int32.zero_add]
    rfl

/-- The prefix that fits the width, cut at its length as an `int`. -/
theorem getWordChineseDouble_utf8 (h0 : '\x00' ∉ cs) (count : Int32) :
    getWordChineseDouble (utf8 cs ++ [0]) count = some ((utf8 cs).take
      (sizeT (Int32.ofNat (utf8 (fitting charWidth (sizeT count) cs)).length))) := by
  have hw : unitWidth ∘ String.utf8EncodeChar = charWidth := funext unitWidth_utf8EncodeChar
  rw [utf8, getWordChineseDouble_words (utf8_words h0), fitting_map, hw]
  rfl

/-- A character has at most two bytes for each unit of its width. -/
theorem utf8_length_le (cs : List Char) : (utf8 cs).length ≤ 2 * total charWidth cs := by
  induction cs with
  | nil => exact Nat.zero_le _
  | cons c cs ih =>
    have hc : (String.utf8EncodeChar c).length ≤ 2 * charWidth c := by
      rw [String.length_utf8EncodeChar, charWidth]
      rcases Char.utf8Size_eq c with h | h | h | h
      all_goals rw [h]; decide
    rw [utf8, List.map_cons, List.flatten_cons, List.length_append, total_cons]
    rw [utf8] at ih
    omega

/-- `getWordChineseDouble` gives the longest prefix whose width is within its
count. -/
def LongestWithin (cs : List Char) (count : Int32) : Prop :=
  ∃ p, p <+: cs ∧ getWordChineseDouble (utf8 cs ++ [0]) count = some (utf8 p) ∧
    total charWidth p ≤ count.toInt ∧
    ∀ q, q <+: cs → total charWidth q ≤ count.toInt → q <+: p

/-- The width of a text is the sum of its two lengths. -/
def WidthAdds (cs : List Char) : Prop :=
  ∃ n m, wordLen (utf8 cs ++ [0]) = some n ∧ getChineseWordLen (utf8 cs ++ [0]) = some m ∧
    total charWidth cs = n.toInt + m.toInt

/-- No character is wider than two. -/
theorem charWidth_le (c : Char) : charWidth c ≤ 2 := by
  unfold charWidth
  split <;> decide

/-- The lengths add up to the width when `wordLen` counts the characters. -/
theorem widthAdds_iff (h0 : '\x00' ∉ cs) : WidthAdds cs ↔ cs.length < 2 ^ 31 := by
  have hwidth := length_add_total (utf8_words h0)
  have htwice := total_le fun c (_ : c ∈ cs) => charWidth_le c
  have hchinese : getChineseWordLen (utf8 cs ++ [0]) =
      some (Int32.ofNat (total (unitWidth · - 1) (cs.map String.utf8EncodeChar))) := by
    rw [getChineseWordLen, utf8, getChineseWordLenLoop_words (utf8_words h0),
      getChineseWordLenLoop, if_pos rfl, Int32.zero_add]
  rw [total_utf8, List.length_map] at hwidth
  generalize total (unitWidth · - 1) (cs.map String.utf8EncodeChar) = m at hwidth hchinese
  rw [WidthAdds, wordLen_utf8 h0, hchinese, ← toInt_ofNat_eq_iff, ← hwidth]
  constructor
  · rintro ⟨n', m', hn, hm, he⟩
    obtain rfl := Option.some.inj hn
    obtain rfl := Option.some.inj hm
    have hn' := toInt_ofNat_le cs.length
    have hm' := toInt_ofNat_le m
    push_cast at he
    omega
  · intro hn
    have hlt := toInt_ofNat_eq_iff.mp hn
    refine ⟨_, _, rfl, rfl, ?_⟩
    rw [hn, toInt_ofNat_eq_iff.mpr (show m < 2 ^ 31 by omega)]
    rfl

/-- The encoding of two texts. -/
theorem utf8_append (p q : List Char) : utf8 (p ++ q) = utf8 p ++ utf8 q := by
  rw [utf8, List.map_append, List.flatten_append, utf8, utf8]

/-- Only the empty text has no bytes. -/
theorem utf8_eq_nil {p : List Char} (h : utf8 p = []) : p = [] := by
  cases p with
  | nil => rfl
  | cons c p =>
    have hlen := congrArg List.length h
    rw [utf8, List.map_cons, List.flatten_cons, List.length_append, List.length_nil,
      String.length_utf8EncodeChar] at hlen
    have hpos := c.utf8Size_pos
    omega

/-- The bytes in front of the cut are those that fit exactly when an `int`
counts them, or everything fits. -/
theorem take_fitting_iff (cs : List Char) {p : List Char} (hp : p <+: cs)
    (hlt : (utf8 p).length < 2 ^ 32) :
    (utf8 cs).take (sizeT (Int32.ofNat (utf8 p).length)) = utf8 p ↔
      p = cs ∨ (utf8 p).length < 2 ^ 31 := by
  obtain ⟨q, rfl⟩ := hp
  rw [utf8_append]
  rcases Nat.lt_or_ge (utf8 p).length (2 ^ 31) with hsmall | hlarge
  · rw [sizeT_ofNat_of_lt (by omega), Nat.mod_eq_of_lt hlt, List.take_left]
    exact iff_of_true rfl (Or.inr hsmall)
  · rw [sizeT_ofNat_of_ge (by omega), Nat.mod_eq_of_lt hlt, List.self_eq_append_right,
      or_iff_left (by omega)]
    constructor
    · intro h
      have hlen := congrArg List.length h
      rw [List.length_take, List.length_append] at hlen
      exact utf8_eq_nil (List.length_eq_zero_iff.mp (by omega))
    · rintro rfl
      rw [show utf8 [] = [] from rfl, List.append_nil]
      exact List.take_of_length_le (by omega)

/-- The prefix is the longest one exactly when the whole text is within the
count, or every prefix within it has fewer than `2 ^ 31` bytes: from there on
`wordPos` is negative, and `substr` takes the whole text. -/
theorem longestWithin_iff (h0 : '\x00' ∉ cs) {count : Int32} (hc : 0 ≤ count.toInt) :
    LongestWithin cs count ↔ total charWidth cs ≤ count.toInt ∨
      ∀ p, p <+: cs → total charWidth p ≤ count.toInt → (utf8 p).length < 2 ^ 31 := by
  have hs := sizeT_nonneg hc
  have hcount := count.toInt_lt
  have hfit : total charWidth (fitting charWidth (sizeT count) cs) ≤ sizeT count :=
    total_fitting_le _ cs
  have hmax : ∀ q, q <+: cs → total charWidth q ≤ count.toInt →
      q <+: fitting charWidth (sizeT count) cs := fun q hq hle =>
    List.prefix_of_prefix_length_le hq (fitting_isPrefix _ cs)
      (length_le_fitting hq (show total charWidth q ≤ sizeT count by omega))
  have hbytes := utf8_length_le (fitting charWidth (sizeT count) cs)
  have hprefix : fitting charWidth (sizeT count) cs <+: cs := fitting_isPrefix _ cs
  have hcut := take_fitting_iff cs hprefix (by omega)
  have hall : fitting charWidth (sizeT count) cs = cs ↔ total charWidth cs ≤ count.toInt := by
    refine ⟨fun h => ?_, fun h => fitting_eq_self (by omega)⟩
    rw [h] at hfit
    omega
  have hfew : (utf8 (fitting charWidth (sizeT count) cs)).length < 2 ^ 31 ↔
      ∀ p, p <+: cs → total charWidth p ≤ count.toInt → (utf8 p).length < 2 ^ 31 := by
    refine ⟨fun h p hp hle => ?_, fun h => h _ (fitting_isPrefix _ cs) (by omega)⟩
    obtain ⟨q, hq⟩ := hmax p hp hle
    rw [← hq, utf8_append, List.length_append] at h
    omega
  rw [← hall, ← hfew, ← hcut, LongestWithin, getWordChineseDouble_utf8 h0]
  constructor
  · rintro ⟨p, hp, he, hle, hlongest⟩
    have hpf := (hmax p hp hle).eq_of_length_le
      (hlongest _ (fitting_isPrefix _ cs) (by omega)).length_le
    rw [← hpf] at he ⊢
    exact Option.some.inj he
  · intro h
    exact ⟨_, fitting_isPrefix _ cs, congrArg some h, by omega, hmax⟩

/-- On valid UTF-8 `getWordChineseDouble` gives the longest prefix whose width
is within its count, and the width of a text is the sum of its two lengths,
exactly when the text has fewer than `2 ^ 31` characters, and all of it is
within the count or every prefix within it has fewer than `2 ^ 31` bytes. -/
theorem longest_within_iff (h0 : '\x00' ∉ cs) {count : Int32} (hc : 0 ≤ count.toInt) :
    LongestWithin cs count ∧ WidthAdds cs ↔ cs.length < 2 ^ 31 ∧
      (total charWidth cs ≤ count.toInt ∨
        ∀ p, p <+: cs → total charWidth p ≤ count.toInt → (utf8 p).length < 2 ^ 31) := by
  rw [longestWithin_iff h0 hc, widthAdds_iff h0, and_comm]

/-- A letter, an umlaut and a character of three bytes have width five, and
the first two of them are within three. -/
theorem longest_within_iff_mixed :
    (∃ p, p <+: ['a', 'ä', '水'] ∧
      getWordChineseDouble (utf8 ['a', 'ä', '水'] ++ [0]) 3 = some (utf8 p) ∧
      ['a', 'ä'] <+: p ∧ total charWidth p ≤ 3) ∧ WidthAdds ['a', 'ä', '水'] := by
  have hbytes : ∀ p, p <+: ['a', 'ä', '水'] → (utf8 p).length < 2 ^ 31 := by
    intro p hp
    have hwidth := utf8_length_le p
    have hlen := total_le fun c (_ : c ∈ p) => charWidth_le c
    have hle := hp.length_le
    rw [List.length_cons, List.length_cons, List.length_cons, List.length_nil] at hle
    omega
  have h := (@longest_within_iff ['a', 'ä', '水'] (by decide) 3 (by decide)).mpr
    ⟨by decide, Or.inr fun p hp _ => hbytes p hp⟩
  obtain ⟨p, hp, he, hle, hmax⟩ := h.1
  have hw : (total charWidth ['a', 'ä'] : ℤ) ≤ Int32.toInt 3 := by decide
  exact ⟨⟨p, hp, he, hmax _ (by decide) hw, Int.ofNat_le.mp hle⟩, h.2⟩

/-- The length of a repeated character's encoding. -/
theorem length_utf8_replicate (n : ℕ) (c : Char) :
    (utf8 (List.replicate n c)).length = n * c.utf8Size := by
  rw [utf8, List.map_replicate, List.length_flatten, List.map_replicate, List.sum_replicate,
    String.length_utf8EncodeChar, nsmul_eq_mul, Nat.cast_id]

/-- Of `2 ^ 29 + 1` characters of four bytes all but one are within the width
`2 ^ 30`, and they have `2 ^ 31` bytes. -/
theorem longest_within_missed :
    '\x00' ∉ List.replicate (2 ^ 29 + 1) '😀' ∧ 0 ≤ Int32.toInt 1073741824 ∧
      ¬LongestWithin (List.replicate (2 ^ 29 + 1) '😀') 1073741824 := by
  have h0 : '\x00' ∉ List.replicate (2 ^ 29 + 1) '😀' := fun h =>
    absurd (List.eq_of_mem_replicate h) (by decide)
  have hc : Int32.toInt 1073741824 = 2 ^ 30 := by decide
  have hwidth : charWidth '😀' = 2 := by decide
  refine ⟨h0, by decide, fun h => ?_⟩
  rcases (longestWithin_iff h0 (by decide)).mp h with hall | hfew
  · rw [total_replicate, hwidth, hc] at hall
    omega
  · have hprefix : List.replicate (2 ^ 29) '😀' <+: List.replicate (2 ^ 29 + 1) '😀' :=
      ⟨['😀'], by rw [List.replicate_succ']⟩
    have hlen := hfew _ hprefix (by rw [total_replicate, hwidth, hc]; decide)
    rw [length_utf8_replicate, show Char.utf8Size '😀' = 4 by decide] at hlen
    omega

end Utf8

end CdroidDemo.TextWords
