import Mathlib.Data.List.Perm.Basic
import Mathlib.Data.List.Nodup
import Mathlib.Data.Nat.Notation

/-!
# Linear ownership of allocated objects

Objects are numbered in the order of their allocation and an account lists
what every place of a system holds. Ownership is linear when the account is
a rearrangement of all objects: none is lost, held twice or made up.
-/

namespace CdroidDemo.LinearOwnership

/-- The account holds each of the first `n` objects once and nothing else. -/
def Linear (places : List ℕ) (n : ℕ) : Prop := places.Perm (List.range n)

/-- No place holds anything before the first pointer is obtained. -/
theorem linear_nil : Linear [] 0 := List.Perm.refl _

/-- A linear list of places names no pointer twice. -/
theorem Linear.nodup {places : List ℕ} {n : ℕ} (h : Linear places n) : places.Nodup :=
  h.nodup_iff.mpr List.nodup_range

/-- Exactly the pointers obtained so far have a place. -/
theorem Linear.mem_iff {places : List ℕ} {n p : ℕ} (h : Linear places n) :
    p ∈ places ↔ p < n := by
  rw [List.Perm.mem_iff h, List.mem_range]

/-- Every object is held exactly once. -/
theorem Linear.count {places : List ℕ} {n p : ℕ} (h : Linear places n) (hp : p < n) :
    places.count p = 1 :=
  List.count_eq_one_of_mem h.nodup (h.mem_iff.mpr hp)

/-- Objects may change places. -/
theorem Linear.move {places places' : List ℕ} {n : ℕ} (h : Linear places n)
    (hp : places'.Perm places) : Linear places' n :=
  hp.trans h

/-- A newly allocated object gets a place. -/
theorem Linear.grow {places : List ℕ} {n : ℕ} (h : Linear places n) :
    Linear (n :: places) (n + 1) := by
  unfold Linear
  rw [List.range_succ]
  exact (h.cons n).trans (List.perm_append_singleton n (List.range n)).symm

/-- Two parts of a linear account hold different objects. -/
theorem Linear.disjoint {a b : List ℕ} {n : ℕ} (h : Linear (a ++ b) n) : a.Disjoint b :=
  List.disjoint_of_nodup_append h.nodup

variable {α : Type*} {f : α → List ℕ}

/-- Replacing one owner exchanges what it holds. -/
theorem flatMap_set_perm {l : List α} {i : ℕ} {a : α} (h : l[i]? = some a) (b : α) :
    (f a ++ (l.set i b).flatMap f).Perm (f b ++ l.flatMap f) := by
  induction l generalizing i with
  | nil => cases h
  | cons x l ih =>
    cases i with
    | zero =>
      cases h
      simp only [List.set_cons_zero, List.flatMap_cons]
      exact List.perm_append_comm_assoc _ _ _
    | succ i =>
      simp only [List.set_cons_succ, List.flatMap_cons]
      have hrest := (ih h).append_left (f x)
      exact (List.perm_append_comm_assoc _ _ _).trans
        (hrest.trans (List.perm_append_comm_assoc _ _ _))

end CdroidDemo.LinearOwnership
