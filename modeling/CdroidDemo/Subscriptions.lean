import Mathlib.Data.List.Basic
import Mathlib.Data.Nat.Notation

/-!
# What a subscriber is owed

A subscriber is first unknown, then subscribed and in the end gone, and what is
published while it is subscribed is delivered to it. So what it gets is one
piece of all that is published, and the phases at both ends say where it begins
and ends.
-/

namespace CdroidDemo.Subscriptions

/-- The phases of a subscriber. -/
inductive Phase
  /-- Not subscribed yet. -/
  | early
  /-- Subscribed. -/
  | live
  /-- Not subscribed any more. -/
  | gone
  deriving DecidableEq

/-- The phases are passed in this order. -/
def Phase.rank : Phase → ℕ
  | .early => 0
  | .live => 1
  | .gone => 2

variable {δ : Type*} {p q r : Phase} {posts : List (Phase × δ)}

/-- Items published in phases that go on from `p` to `q`. -/
def Ordered (p q : Phase) : List (Phase × δ) → Prop
  | [] => p.rank ≤ q.rank
  | post :: posts => p.rank ≤ post.1.rank ∧ Ordered post.1 q posts

/-- What is delivered of the published items. -/
def delivered (posts : List (Phase × δ)) : List δ :=
  posts.filterMap fun post => if post.1 = .live then some post.2 else none

/-- The deliveries of a list of posts, those of its head first. -/
theorem delivered_cons (r : Phase) (d : δ) (posts : List (Phase × δ)) :
    delivered ((r, d) :: posts) = if r = .live then d :: delivered posts else delivered posts := by
  unfold delivered
  rw [List.filterMap_cons]
  by_cases hr : r = .live
  · rw [if_pos hr, if_pos hr]
  · rw [if_neg hr, if_neg hr]

/-- Ordered posts never go back to an earlier phase. -/
theorem Ordered.rank_le (h : Ordered p q posts) : p.rank ≤ q.rank := by
  induction posts generalizing p with
  | nil => exact h
  | cons post posts ih => exact Nat.le_trans h.1 (ih h.2)

/-- An earlier beginning. -/
theorem Ordered.from (h : Ordered q r posts) (hpq : p.rank ≤ q.rank) : Ordered p r posts := by
  cases posts with
  | nil => exact Nat.le_trans hpq h
  | cons post posts => exact ⟨Nat.le_trans hpq h.1, h.2⟩

/-- Who is gone gets nothing. -/
theorem Ordered.delivered_gone (h : Ordered .gone q posts) : delivered posts = [] := by
  induction posts with
  | nil => rfl
  | cons post posts ih =>
    obtain ⟨r, d⟩ := post
    obtain ⟨hr, hrest⟩ := h
    change Phase.gone.rank ≤ r.rank at hr
    cases r with
    | early => exact absurd hr (by decide)
    | live => exact absurd hr (by decide)
    | gone =>
      rw [delivered_cons, if_neg Phase.noConfusion]
      exact ih hrest

/-- What is delivered is one piece of what is published. -/
theorem Ordered.piece (h : Ordered p q posts) :
    ∃ missed late, posts.map Prod.snd = missed ++ delivered posts ++ late ∧
      (p ≠ .early → missed = []) ∧ (q ≠ .gone → late = []) ∧
      (q = .early → delivered posts = []) := by
  induction posts generalizing p with
  | nil => exact ⟨[], [], rfl, fun _ => rfl, fun _ => rfl, fun _ => rfl⟩
  | cons post posts ih =>
    obtain ⟨r, d⟩ := post
    obtain ⟨hpr, hrest⟩ := h
    change p.rank ≤ r.rank at hpr
    change Ordered r q posts at hrest
    obtain ⟨missed, late, hall, hmissed, hlate, hnone⟩ := ih hrest
    rw [List.map_cons, delivered_cons]
    cases r with
    | early =>
      refine ⟨d :: missed, late, ?_, fun hp => ?_, hlate, ?_⟩
      · rw [if_neg Phase.noConfusion, hall, List.cons_append, List.cons_append]
      · cases p with
        | early => exact absurd rfl hp
        | live => exact absurd hpr (by decide)
        | gone => exact absurd hpr (by decide)
      · rwa [if_neg Phase.noConfusion]
    | live =>
      refine ⟨[], late, ?_, fun _ => rfl, hlate, fun hq => ?_⟩
      · rw [if_pos rfl, hall, hmissed Phase.noConfusion]
        rfl
      · rw [hq] at hrest
        exact absurd hrest.rank_le (by decide)
    | gone =>
      have hdel : delivered posts = [] := hrest.delivered_gone
      have hq : q = .gone := by
        cases q with
        | early => exact absurd hrest.rank_le (by decide)
        | live => exact absurd hrest.rank_le (by decide)
        | gone => rfl
      refine ⟨[], d :: late, ?_, fun _ => rfl, fun hne => absurd hq hne, fun he => ?_⟩
      · rw [if_neg Phase.noConfusion, hall, hmissed Phase.noConfusion, hdel]
        rfl
      · rwa [if_neg Phase.noConfusion]

end CdroidDemo.Subscriptions
