import Mathlib.Data.List.Basic

/-!
# Texts whose units announce their length

The first symbol of a unit tells how many further symbols belong to it. Every
text is cut in one way into whole units and a rest that is empty or a unit
whose end is missing.
-/

namespace CdroidDemo.SelfDelimiting

variable {α : Type*} (more : α → ℕ)

/-- A first symbol and as many further ones as it announces. -/
def IsUnit (u : List α) : Prop := ∃ a t, u = a :: t ∧ t.length = more a

/-- Nothing, or a unit whose end is missing. -/
def Stuck (r : List α) : Prop := ∀ a t, r = a :: t → t.length < more a

/-- The whole units of a text and its rest. -/
def cut : List α → List (List α) × List α
  | [] => ([], [])
  | a :: l =>
    if more a ≤ l.length then
      ((a :: l.take (more a)) :: (cut (l.drop (more a))).1, (cut (l.drop (more a))).2)
    else ([], a :: l)
termination_by l => l.length
decreasing_by all_goals rw [List.length_drop, List.length_cons]; omega

variable {more}

/-- Nothing read cannot be stuck. -/
theorem stuck_nil : Stuck more [] := nofun

/-- A text of units and a rest is cut where they meet. -/
theorem cut_flatten {us : List (List α)} {r : List α} (hu : ∀ u ∈ us, IsUnit more u)
    (hr : Stuck more r) : cut more (us.flatten ++ r) = (us, r) := by
  induction us with
  | nil =>
    cases r with
    | nil => rw [List.flatten_nil, List.nil_append, cut]
    | cons a t =>
      have hlt := hr a t rfl
      rw [List.flatten_nil, List.nil_append, cut, if_neg (by omega)]
  | cons u us ih =>
    obtain ⟨a, t, rfl, ht⟩ := hu u List.mem_cons_self
    have ih' := ih fun v hv => hu v (List.mem_cons_of_mem _ hv)
    have htake : (t ++ (us.flatten ++ r)).take (more a) = t := List.take_left' ht
    have hdrop : (t ++ (us.flatten ++ r)).drop (more a) = us.flatten ++ r := List.drop_left' ht
    rw [List.flatten_cons, List.append_assoc, List.cons_append, cut, htake, hdrop, ih', if_pos]
    rw [List.length_append, ht]
    exact Nat.le_add_right _ _

/-- Every text is cut into units and a rest. -/
theorem cut_spec (l : List α) : (∀ u ∈ (cut more l).1, IsUnit more u) ∧ Stuck more (cut more l).2 ∧
    l = (cut more l).1.flatten ++ (cut more l).2 := by
  induction l using cut.induct more with
  | case1 =>
    rw [cut]
    exact ⟨nofun, stuck_nil, rfl⟩
  | case2 a l h ih =>
    obtain ⟨hu, hr, hj⟩ := ih
    rw [cut, if_pos h]
    refine ⟨fun u hm => ?_, hr, ?_⟩
    · cases List.mem_cons.mp hm with
      | inl he => exact ⟨a, _, he, List.length_take_of_le h⟩
      | inr hm => exact hu u hm
    · rw [List.flatten_cons, List.append_assoc, ← hj, List.cons_append, List.take_append_drop]
  | case3 a l h =>
    rw [cut, if_neg h]
    refine ⟨nofun, fun b t he => ?_, rfl⟩
    cases he
    exact Nat.lt_of_not_le h

end CdroidDemo.SelfDelimiting
