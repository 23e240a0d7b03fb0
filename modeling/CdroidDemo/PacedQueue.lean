import Mathlib.Algebra.Order.Group.Int
import Mathlib.Algebra.Order.Ring.Int
import Mathlib.Tactic.Ring

/-!
# A queue served at a pace

A queue is served by ticks, each time when the last serving is some time ago.
Items only join behind, and the time of the last serving may be forgotten.
When ticks come often enough every item is served in time.
-/

namespace CdroidDemo.PacedQueue

variable {α : Type*}

/-- A queue and when it was served last. -/
structure Paced (α : Type*) where
  /-- What waits, the oldest first. -/
  items : List α
  /-- When an item was served last. -/
  last : ℤ

/-- One step, with the clock reading of a tick and the item served. -/
inductive Step (d : ℤ) : Paced α → Option ℤ → Paced α → Option α → Prop
  /-- Items join; the last serving may be forgotten. -/
  | quiet {q : Paced α} (new : List α) {last : ℤ} (hl : last = q.last ∨ last = 0) :
      Step d q none ⟨q.items ++ new, last⟩ none
  /-- A tick that comes too early, or finds nothing. -/
  | wait {q : Paced α} {t : ℤ} (h : q.items = [] ∨ t - q.last < d) : Step d q (some t) q none
  /-- A tick that serves the first item. -/
  | serve {q : Paced α} {t : ℤ} {x : α} {rest : List α} (hq : q.items = x :: rest)
      (ht : d ≤ t - q.last) : Step d q (some t) ⟨rest, t⟩ (some x)

/-- Steps in order. -/
inductive Run (d : ℤ) : Paced α → List (Option ℤ × Option α) → Paced α → Prop
  /-- Nothing happens. -/
  | nil (q : Paced α) : Run d q [] q
  /-- One step, and then the rest. -/
  | cons {q q₁ q' : Paced α} {t : Option ℤ} {x : Option α} {log : List (Option ℤ × Option α)}
      (hs : Step d q t q₁ x) (h : Run d q₁ log q') : Run d q ((t, x) :: log) q'

/-- The clock readings of the ticks. -/
def ticks (log : List (Option ℤ × Option α)) : List ℤ := log.filterMap Prod.fst

/-- Every time is at most `g` after the one before, the first one after `t₀`. -/
def Close (g : ℤ) (t₀ : ℤ) : List ℤ → Prop
  | [] => True
  | t :: ts => t - t₀ ≤ g ∧ Close g t ts

variable {d g t₀ : ℤ} {q q' : Paced α} {log : List (Option ℤ × Option α)}

/-- When the item behind `k` others can be served at the latest, the time that
a tick takes to come aside. -/
def due (d g t₀ last : ℤ) (k : ℕ) : ℤ := max t₀ (last + d) + k * (d + g)

/-- One item less is due no later when the next serve comes in time. -/
theorem due_succ (k : ℕ) (t : ℤ) (hd : 0 ≤ d) (last : ℤ) (hclose : t - t₀ ≤ g) :
    due d g t t k ≤ due d g t₀ last (k + 1) := by
  unfold due
  have hmul : ((k + 1 : ℕ) : ℤ) * (d + g) = k * (d + g) + (d + g) := by
    push_cast
    ring
  rw [hmul]
  omega

/-- Nothing is due before its wait is over. -/
theorem le_due (t₀ last : ℤ) (k : ℕ) (hd : 0 ≤ d) (hg : 0 ≤ g) :
    max t₀ (last + d) ≤ due d g t₀ last k := by
  have hpos : 0 ≤ (k : ℤ) * (d + g) := Int.mul_nonneg (Int.natCast_nonneg k) (by omega)
  unfold due
  omega

/-- An earlier start of the wait makes everything due earlier. -/
theorem due_mono {t last last' : ℤ} {k : ℕ} (h : max t (last' + d) ≤ max t₀ (last + d)) :
    due d g t last' k ≤ due d g t₀ last k :=
  Int.add_le_add_right h _

/-- With ticks at most `g` apart that go on until it is due, an item is served
at most `g` after it is due. -/
theorem served_in_time (hr : Run d q log q') (hd : 0 < d) (hg : 0 ≤ g) (hlast : 0 ≤ q.last)
    (hpos : ∀ t ∈ ticks log, 0 ≤ t) (hclose : Close g t₀ (ticks log)) {A B : List α} {x : α}
    (hq : q.items = A ++ x :: B) (hlong : ∃ t ∈ ticks log, due d g t₀ q.last A.length ≤ t) :
    ∃ t, (some t, some x) ∈ log ∧ t ≤ due d g t₀ q.last A.length + g := by
  induction hr generalizing t₀ A B with
  | nil q =>
    obtain ⟨t, ht, -⟩ := hlong
    cases ht
  | @cons q q₁ q' tick out log hs h ih =>
    have hlater : ∀ {D : ℤ}, D ≤ due d g t₀ q.last A.length →
        (∃ t, (some t, some x) ∈ log ∧ t ≤ D + g) →
        ∃ t, (some t, some x) ∈ (tick, out) :: log ∧ t ≤ due d g t₀ q.last A.length + g := by
      rintro D hD ⟨t, ht, hle⟩
      exact ⟨t, List.mem_cons_of_mem _ ht, by omega⟩
    cases hs with
    | @quiet new last hl =>
      have hle : due d g t₀ last A.length ≤ due d g t₀ q.last A.length := due_mono (by omega)
      have hnew : 0 ≤ last := by omega
      refine hlater hle (ih hnew hpos hclose (B := B ++ new) ?_ ?_)
      · rw [hq, List.append_assoc, List.cons_append]
      · obtain ⟨t, ht, ht'⟩ := hlong
        exact ⟨t, ht, hle.trans ht'⟩
    | @wait t hw =>
      have hearly : t - q.last < d := hw.resolve_left (by rw [hq]; simp)
      have hfirst := le_due t₀ q.last A.length hd.le hg
      have hle : due d g t q.last A.length ≤ due d g t₀ q.last A.length := due_mono (by omega)
      refine hlater hle (ih hlast (fun u hu => hpos u (List.mem_cons_of_mem t hu)) hclose.2 hq ?_)
      obtain ⟨u, hu, hu'⟩ := hlong
      rcases List.mem_cons.mp hu with rfl | hu
      · omega
      · exact ⟨u, hu, hle.trans hu'⟩
    | @serve t y rest hqy ht =>
      have hstep : t - t₀ ≤ g := hclose.1
      cases A with
      | nil =>
        rw [hq] at hqy
        obtain ⟨rfl, -⟩ := List.cons.inj hqy
        have hfirst := le_due t₀ q.last 0 hd.le hg
        exact ⟨t, List.mem_cons_self, by rw [List.length_nil]; omega⟩
      | cons a A =>
        rw [hq] at hqy
        obtain ⟨-, rfl⟩ := List.cons.inj hqy
        have hle : due d g t t A.length ≤ due d g t₀ q.last (a :: A).length :=
          due_succ A.length t hd.le q.last hstep
        have ht₀ : 0 ≤ t := hpos t List.mem_cons_self
        refine hlater hle (ih ht₀ (fun u hu => hpos u (List.mem_cons_of_mem t hu)) hclose.2 rfl ?_)
        obtain ⟨u, hu, hu'⟩ := hlong
        rcases List.mem_cons.mp hu with rfl | hu
        · have hfirst := le_due u u A.length hd.le hg
          exact absurd (hle.trans hu') (by omega)
        · exact ⟨u, hu, hle.trans hu'⟩

end CdroidDemo.PacedQueue
