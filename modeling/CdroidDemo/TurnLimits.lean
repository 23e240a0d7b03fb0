import Mathlib.Algebra.Order.Ring.Nat

/-!
# Loops with a limit of turns

A loop that is given a number of turns has no result when they do not suffice.
With more turns it keeps the result it has, so there is at most one. A loop
whose rounds lead back to where they start from has none.
-/

namespace CdroidDemo.TurnLimits

variable {α β ι : Type*}

/-- One more turn keeps a result. -/
def Keeps (f : ℕ → Option α) : Prop := ∀ n r, f n = some r → f (n + 1) = some r

variable {f : ℕ → Option α} {n m : ℕ} {r r' : α}

/-- Any number of further turns keeps a result. -/
theorem Keeps.add (hf : Keeps f) (h : f n = some r) (k : ℕ) : f (n + k) = some r := by
  induction k with
  | zero => exact h
  | succ k ih => exact hf (n + k) r ih

/-- A higher limit keeps a result. -/
theorem Keeps.le (hf : Keeps f) (h : f n = some r) (hle : n ≤ m) : f m = some r := by
  rw [← Nat.add_sub_cancel' hle]
  exact hf.add h (m - n)

/-- All numbers of turns that suffice have the same result. -/
theorem Keeps.unique (hf : Keeps f) (h : f n = some r) (h' : f m = some r') : r = r' := by
  have hboth := hf.le h (Nat.le_add_right n m)
  rw [hf.le h' (Nat.le_add_left m n)] at hboth
  exact (Option.some.inj hboth).symm

/-- What is made of the result is kept as well. -/
theorem Keeps.map (hf : Keeps f) (g : α → β) : Keeps fun n => (f n).map g := by
  intro n r h
  obtain ⟨a, ha, hg⟩ := Option.map_eq_some_iff.mp h
  exact Option.map_eq_some_iff.mpr ⟨a, hf n a ha, hg⟩

/-- A family of loops each of which leads to one of the family has no result.
The induction is on the turns; a result within the first round would be kept
to its end, where no turns are left. -/
theorem never_of_rounds {f : ι → ℕ → Option α} (hf : ∀ i, Keeps (f i)) (hzero : ∀ i, f i 0 = none)
    (hround : ∀ i, ∃ k j, ∀ n, f i (n + (k + 1)) = f j n) (i : ι) (n : ℕ) : f i n = none := by
  induction n using Nat.strong_induction_on generalizing i with
  | h n ih =>
    obtain ⟨k, j, hk⟩ := hround i
    rcases Nat.lt_or_ge n (k + 1) with hlt | hge
    · by_contra hne
      obtain ⟨r, hr⟩ := Option.ne_none_iff_exists'.mp hne
      have hend := (hf i).le hr hlt.le
      have hnone := (hk 0).trans (hzero j)
      rw [Nat.zero_add, hend] at hnone
      cases hnone
    · rw [← Nat.sub_add_cancel hge, hk]
      exact ih (n - (k + 1)) (by omega) j

end CdroidDemo.TurnLimits
