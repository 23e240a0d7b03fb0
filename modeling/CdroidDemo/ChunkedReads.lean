import Mathlib.Data.List.Basic

/-!
# Reading a text in chunks

A source is read so many symbols at a time until its end is met. A read that
breaks the source extracts nothing, and no later read meets the end.
-/

namespace CdroidDemo.ChunkedReads

variable {α : Type*}

/-- A source with its flags. -/
structure Source (α : Type*) where
  /-- What has not been read yet. -/
  rest : List α
  /-- The number of reads before the one that breaks the source, if one does. -/
  badRead : Option ℕ
  /-- The end was met. -/
  eof : Bool
  /-- A read failed. -/
  fail : Bool

/-- The source before the first read. -/
def Source.opened (text : List α) (badRead : Option ℕ) : Source α := ⟨text, badRead, false, false⟩

/-- One read and what it extracts. The end of the text sets both flags. -/
def Source.read (size : ℕ) (s : Source α) : List α × Source α :=
  if s.fail then ([], s)
  else if s.badRead = some 0 then ([], { s with fail := true })
  else
    (s.rest.take size,
      { rest := s.rest.drop size, badRead := s.badRead.map (· - 1),
        eof := decide (s.rest.length < size), fail := decide (s.rest.length < size) })

/-- So many rounds of the loop that appends what is read until the end is met. -/
def readLoop (size : ℕ) : ℕ → Source α → List α → Option (List α)
  | 0, _, _ => none
  | n + 1, s, text =>
    if (s.read size).2.eof then some (text ++ (s.read size).1)
    else readLoop size n (s.read size).2 (text ++ (s.read size).1)

/-- A text read to its end. A round for each whole chunk and one for the rest
are enough. -/
def readAll (size : ℕ) (badRead : Option ℕ) (text : List α) : Option (List α) :=
  readLoop size (text.length / size + 1) (.opened text badRead) []

/-- The read that breaks the source comes before the end is met. -/
def Breaks (size : ℕ) (badRead : Option ℕ) (text : List α) : Prop :=
  ∃ k, badRead = some k ∧ k ≤ text.length / size

variable {size n : ℕ} {badRead : Option ℕ} {text : List α}

/-- A broken source is read for ever. -/
theorem readLoop_fail {s : Source α} (hf : s.fail = true) (he : s.eof = false) (r : List α) :
    readLoop size n s r = none := by
  have hread : s.read size = ([], s) := if_pos hf
  induction n generalizing r with
  | zero => rfl
  | succ n ih =>
    rw [readLoop, hread, if_neg (by rw [he]; decide)]
    exact ih _

/-- The first read of a text. -/
theorem read_opened (size : ℕ) (badRead : Option ℕ) (text : List α) :
    (Source.opened text badRead).read size =
      if badRead = some 0 then ([], { Source.opened text badRead with fail := true })
      else
        (text.take size,
          { rest := text.drop size, badRead := badRead.map (· - 1),
            eof := decide (text.length < size), fail := decide (text.length < size) }) := rfl

/-- A read that meets neither a break nor the end. -/
theorem readLoop_step (hb : badRead ≠ some 0) (hl : size ≤ text.length) (r : List α) :
    readLoop size (n + 1) (.opened text badRead) r =
      readLoop size n (.opened (text.drop size) (badRead.map (· - 1))) (r ++ text.take size) := by
  have hread : (Source.opened text badRead).read size =
      (text.take size, .opened (text.drop size) (badRead.map (· - 1))) := by
    rw [read_opened, if_neg hb, decide_eq_false (Nat.not_lt.mpr hl), Source.opened]
  rw [readLoop, hread]
  rfl

/-- The last read of a text. -/
theorem readLoop_last (hb : badRead ≠ some 0) (hl : text.length < size) (r : List α) :
    readLoop size (n + 1) (.opened text badRead) r = some (r ++ text) := by
  have hread : (Source.opened text badRead).read size =
      (text, ⟨text.drop size, badRead.map (· - 1), true, true⟩) := by
    rw [read_opened, if_neg hb, decide_eq_true hl, List.take_of_length_le (Nat.le_of_lt hl)]
  rw [readLoop, hread]
  rfl

/-- One chunk less is left of the reads. -/
theorem breaks_drop (hs : 0 < size) (hb : badRead ≠ some 0) (hl : size ≤ text.length) :
    Breaks size (badRead.map (· - 1)) (text.drop size) ↔ Breaks size badRead text := by
  have hdiv : text.length / size = (text.drop size).length / size + 1 := by
    rw [List.length_drop]
    exact Nat.div_eq_sub_div hs hl
  unfold Breaks
  rw [hdiv]
  cases badRead with
  | none => exact ⟨fun ⟨_, h, _⟩ => (nomatch h), fun ⟨_, h, _⟩ => (nomatch h)⟩
  | some k =>
    have hk : k ≠ 0 := fun h => hb (congrArg some h)
    constructor
    · rintro ⟨i, hi, hle⟩
      have hki : k - 1 = i := Option.some.inj hi
      exact ⟨k, rfl, by omega⟩
    · rintro ⟨i, hi, hle⟩
      cases hi
      exact ⟨k - 1, rfl, by omega⟩

/-- After a break no number of rounds comes to the end. -/
theorem readLoop_breaks (hs : 0 < size) (h : Breaks size badRead text) (r : List α) :
    readLoop size n (.opened text badRead) r = none := by
  induction n generalizing text badRead r with
  | zero => rfl
  | succ n ih =>
    by_cases hb : badRead = some 0
    · rw [readLoop, read_opened, if_pos hb]
      exact readLoop_fail rfl rfl _
    · have hl : size ≤ text.length := by
        obtain ⟨k, rfl, hk⟩ := h
        refine Nat.not_lt.mp fun hlt => hb ?_
        rw [Nat.div_eq_of_lt hlt] at hk
        rw [Nat.le_zero.mp hk]
      rw [readLoop_step hb hl]
      exact ih ((breaks_drop hs hb hl).mpr h) _

/-- Without a break before the end, as many rounds as there are chunks and one
more read the whole text. -/
theorem readLoop_whole (hs : 0 < size) (h : ¬Breaks size badRead text)
    (hn : text.length / size < n) (r : List α) :
    readLoop size n (.opened text badRead) r = some (r ++ text) := by
  have hb : badRead ≠ some 0 := fun hb => h ⟨0, hb, Nat.zero_le _⟩
  induction n generalizing text badRead r with
  | zero => exact absurd hn (Nat.not_lt_zero _)
  | succ n ih =>
    by_cases hl : text.length < size
    · exact readLoop_last hb hl r
    · have hle : size ≤ text.length := Nat.not_lt.mp hl
      have hd : ¬Breaks size (badRead.map (· - 1)) (text.drop size) := fun hd =>
        h ((breaks_drop hs hb hle).mp hd)
      have hlen : (text.drop size).length / size < n := by
        rw [List.length_drop]
        have hdiv := Nat.div_eq_sub_div hs hle
        omega
      rw [readLoop_step hb hle, ih hd hlen _ fun hb => hd ⟨0, hb, Nat.zero_le _⟩, List.append_assoc,
        List.take_append_drop]

/-- A text is read to its end unless a read breaks the source. -/
theorem readAll_whole (hs : 0 < size) (h : ¬Breaks size badRead text) :
    readAll size badRead text = some text :=
  readLoop_whole hs h (Nat.lt_succ_self _) []

/-- Where nothing breaks the source the whole text is read. -/
theorem readAll_unbroken (hs : 0 < size) : readAll size none text = some text :=
  readAll_whole hs fun h => by
    obtain ⟨k, hk, -⟩ := h
    cases hk

/-- What is read to its end is the whole text. -/
theorem eq_of_readAll (hs : 0 < size) {c : List α} (h : readAll size badRead text = some c) :
    c = text := by
  by_cases hb : Breaks size badRead text
  · rw [readAll, readLoop_breaks hs hb] at h
    cases h
  · rw [readAll_whole hs hb] at h
    exact (Option.some.inj h).symm

end CdroidDemo.ChunkedReads
