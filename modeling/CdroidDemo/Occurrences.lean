import Mathlib.Data.List.Basic

/-!
# Occurrences of a text in a text

The first occurrence of a pattern, and the texts that arise when its leftmost
occurrences, each behind the one before it, are replaced.
-/

namespace CdroidDemo.Occurrences

variable {α : Type*}

/-- Where a pattern first occurs. -/
def firstIndex [DecidableEq α] (pat : List α) : List α → Option ℕ
  | [] => if pat = [] then some 0 else none
  | a :: s => if pat <+: a :: s then some 0 else (firstIndex pat s).map (· + 1)

/-- The pattern does not occur before the end of `p`. -/
def FirstBehind (pat p q : List α) : Prop := ∀ j < p.length, ¬pat <+: (p ++ pat ++ q).drop j

/-- `r` is `s` with the leftmost occurrences of `old` that do not overlap
replaced by `new`. -/
inductive Replaced (old new : List α) : List α → List α → Prop
  /-- Nothing occurs any more. -/
  | rest {s} (h : ¬old <:+: s) : Replaced old new s s
  /-- The first occurrence is replaced, and then the rest. -/
  | next {s p q r} (hs : s = p ++ old ++ q) (hfirst : FirstBehind old p q)
      (hq : Replaced old new q r) : Replaced old new s (p ++ new ++ r)

section Search

variable [DecidableEq α] {pat : List α}

/-- A search that fails means that the pattern does not occur. -/
theorem firstIndex_eq_none {s : List α} (h : firstIndex pat s = none) : ¬pat <:+: s := by
  induction s with
  | nil =>
    rw [firstIndex] at h
    split at h
    · cases h
    · rename_i hne
      exact fun hi => hne (List.infix_nil.mp hi)
  | cons a s ih =>
    rw [firstIndex] at h
    split at h
    · cases h
    · rename_i hp
      rw [List.infix_cons_iff]
      exact not_or.mpr ⟨hp, ih (Option.map_eq_none_iff.mp h)⟩

/-- The text is cut around the first occurrence. -/
theorem firstIndex_eq_some {s : List α} {i : ℕ} (h : firstIndex pat s = some i) :
    ∃ p q, s = p ++ pat ++ q ∧ p.length = i ∧ FirstBehind pat p q := by
  induction s generalizing i with
  | nil =>
    rw [firstIndex] at h
    split at h
    · rename_i hp
      cases h
      exact ⟨[], [], by rw [hp]; rfl, rfl, nofun⟩
    · cases h
  | cons a s ih =>
    rw [firstIndex] at h
    split at h
    · rename_i hp
      cases h
      obtain ⟨q, hq⟩ := hp
      exact ⟨[], q, hq.symm, rfl, nofun⟩
    · rename_i hp
      obtain ⟨k, hk, rfl⟩ := Option.map_eq_some_iff.mp h
      obtain ⟨p, q, rfl, rfl, hf⟩ := ih hk
      refine ⟨a :: p, q, rfl, rfl, fun j hj => ?_⟩
      cases j with
      | zero => exact hp
      | succ j => exact hf j (Nat.lt_of_succ_lt_succ hj)

/-- A pattern that does not occur is not found. -/
theorem firstIndex_of_not_infix {s : List α} (h : ¬pat <:+: s) : firstIndex pat s = none := by
  cases hi : firstIndex pat s with
  | none => rfl
  | some i =>
    obtain ⟨p, q, rfl, -, -⟩ := firstIndex_eq_some hi
    exact absurd ⟨p, q, rfl⟩ h

end Search

section Texts

variable {old new : List α}

/-- The first occurrence begins at one place. -/
theorem FirstBehind.length_le {p q p' q' : List α} (hf : FirstBehind old p q)
    (he : p ++ old ++ q = p' ++ old ++ q') : p.length ≤ p'.length := by
  by_contra hlt
  refine hf p'.length (Nat.lt_of_not_le hlt) ?_
  rw [he, List.append_assoc, List.drop_left]
  exact List.prefix_append _ _

/-- The first occurrence is the one that is found. -/
theorem FirstBehind.firstIndex_eq [DecidableEq α] {p q : List α} (hf : FirstBehind old p q) :
    firstIndex old (p ++ old ++ q) = some p.length := by
  cases hi : firstIndex old (p ++ old ++ q) with
  | none => exact absurd ⟨p, q, rfl⟩ (firstIndex_eq_none hi)
  | some i =>
    obtain ⟨p', q', he, rfl, hf'⟩ := firstIndex_eq_some hi
    exact congrArg some (Nat.le_antisymm (hf'.length_le he.symm) (hf.length_le he))

/-- Every text has a replacement, unless nothing is replaced. -/
theorem exists_replaced [DecidableEq α] (ho : old ≠ []) (s : List α) :
    ∃ r, Replaced old new s r := by
  cases hi : firstIndex old s with
  | none => exact ⟨s, .rest (firstIndex_eq_none hi)⟩
  | some i =>
    obtain ⟨p, q, he, -, hf⟩ := firstIndex_eq_some hi
    have hlt : q.length < s.length := by
      have hpos := List.length_pos_iff.mpr ho
      rw [he, List.length_append, List.length_append]
      omega
    obtain ⟨r, hr⟩ := exists_replaced ho q
    exact ⟨_, .next he hf hr⟩
termination_by s.length

/-- Replacing by a text that is not shorter never shortens. -/
theorem Replaced.length_le {s r : List α} (h : Replaced old new s r)
    (hle : old.length ≤ new.length) : s.length ≤ r.length := by
  induction h with
  | rest hno => exact Nat.le_refl _
  | next hs hf hq ih =>
    rw [hs]
    simp only [List.length_append]
    omega

/-- A text has one replacement. -/
theorem Replaced.unique {s r r' : List α} (h : Replaced old new s r)
    (h' : Replaced old new s r') : r = r' := by
  induction h generalizing r' with
  | @rest s hno =>
    cases h' with
    | rest => rfl
    | next hs => exact absurd ⟨_, _, hs.symm⟩ hno
  | @next s p q r hs hf hq ih =>
    cases h' with
    | rest hno => exact absurd ⟨_, _, hs.symm⟩ hno
    | @next _ p' q' r' hs' hf' hq' =>
      have he := hs.symm.trans hs'
      have hl := Nat.le_antisymm (hf.length_le he) (hf'.length_le he.symm)
      rw [List.append_assoc, List.append_assoc] at he
      obtain ⟨rfl, htail⟩ := List.append_inj he hl
      obtain rfl : q = q' := List.append_cancel_left htail
      rw [ih hq']

end Texts

end CdroidDemo.Occurrences
