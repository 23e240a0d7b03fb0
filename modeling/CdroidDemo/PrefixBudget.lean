import Mathlib.Data.List.Basic
import Mathlib.Algebra.BigOperators.Group.List.Basic
import Mathlib.Algebra.Order.Ring.Nat

/-!
# The longest prefix within a budget

Items are taken in order as long as their weights fit.
-/

namespace CdroidDemo.PrefixBudget

variable {α : Type*} (weight : α → ℕ)

/-- The weight of a list. -/
def total (l : List α) : ℕ := (l.map weight).sum

/-- Take items as long as they fit. -/
def fitting : ℕ → List α → List α
  | _, [] => []
  | n, a :: l => if weight a ≤ n then a :: fitting (n - weight a) l else []

variable {weight}

/-- Nothing weighs nothing. -/
@[simp] theorem total_nil : total weight [] = 0 := rfl

/-- The weight of a list, its head first. -/
@[simp] theorem total_cons (a : α) (l : List α) :
    total weight (a :: l) = weight a + total weight l := rfl

/-- Items of weight at most `k` weigh at most `k` each. -/
theorem total_le {k : ℕ} {l : List α} (h : ∀ a ∈ l, weight a ≤ k) :
    total weight l ≤ l.length * k := by
  induction l with
  | nil => exact Nat.zero_le _
  | cons a l ih =>
    have ha := h a List.mem_cons_self
    have hl := ih fun b hb => h b (List.mem_cons_of_mem a hb)
    rw [total_cons, List.length_cons, Nat.succ_mul]
    omega

/-- Equal items weigh their number times one of them. -/
theorem total_replicate (n : ℕ) (a : α) : total weight (List.replicate n a) = n * weight a := by
  rw [total, List.map_replicate, List.sum_replicate, nsmul_eq_mul, Nat.cast_id]

/-- What fits is a prefix. -/
theorem fitting_isPrefix (n : ℕ) (l : List α) : fitting weight n l <+: l := by
  induction l generalizing n with
  | nil => exact List.prefix_refl []
  | cons a l ih =>
    rw [fitting]
    split
    · exact List.cons_prefix_cons.mpr ⟨rfl, ih _⟩
    · exact List.nil_prefix

/-- The prefix that fits is inside the budget. -/
theorem total_fitting_le (n : ℕ) (l : List α) : total weight (fitting weight n l) ≤ n := by
  induction l generalizing n with
  | nil => exact Nat.zero_le n
  | cons a l ih =>
    rw [fitting]
    split
    · rename_i h
      have hle := ih (n - weight a)
      rw [total_cons]
      omega
    · exact Nat.zero_le n

/-- Mapping and cutting commute. -/
theorem fitting_map {β : Type*} (f : β → α) (n : ℕ) (l : List β) :
    fitting weight n (l.map f) = (fitting (weight ∘ f) n l).map f := by
  induction l generalizing n with
  | nil => rfl
  | cons b l ih =>
    rw [List.map_cons, fitting, fitting, ih, Function.comp_apply]
    split
    · rfl
    · rfl

/-- Everything fits that has room altogether. -/
theorem fitting_eq_self {n : ℕ} {l : List α} (h : total weight l ≤ n) : fitting weight n l = l := by
  induction l generalizing n with
  | nil => rfl
  | cons a l ih =>
    rw [total_cons] at h
    rw [fitting, if_pos (by omega), ih (by omega)]

/-- A prefix that has room is no longer than what fits. -/
theorem length_le_fitting {n : ℕ} {p l : List α} (hp : p <+: l) (h : total weight p ≤ n) :
    p.length ≤ (fitting weight n l).length := by
  induction l generalizing n p with
  | nil =>
    rw [List.prefix_nil.mp hp]
    exact Nat.zero_le _
  | cons a l ih =>
    cases p with
    | nil => exact Nat.zero_le _
    | cons b p =>
      obtain ⟨rfl, hpl⟩ := List.cons_prefix_cons.mp hp
      rw [total_cons] at h
      rw [fitting, if_pos (by omega), List.length_cons, List.length_cons]
      exact Nat.succ_le_succ (ih hpl (by omega))

end CdroidDemo.PrefixBudget
