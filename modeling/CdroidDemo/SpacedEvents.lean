import Mathlib.Data.List.Induction
import Mathlib.Algebra.Order.Group.Int
import Mathlib.Tactic.Ring

/-!
# Events that keep a distance

Times that are each at least a distance after the one before, and the events
of one kind at the end of a history. Counting these modulo a number tells
apart events with at least that many steps between them.
-/

namespace CdroidDemo.SpacedEvents

/-! ## Distances -/

/-- Every time is at least `d` after the one before, the first one after `t₀`. -/
def Apart (d : ℤ) (t₀ : ℤ) : List ℤ → Prop
  | [] => True
  | t :: ts => d ≤ t - t₀ ∧ Apart d t ts

variable {d t₀ t : ℤ} {ts us : List ℤ}

/-- No events are apart. -/
theorem apart_nil : Apart d t₀ [] := trivial

/-- The last of some times, or the start. -/
def lastTime (t₀ : ℤ) (ts : List ℤ) : ℤ := ts.getLast?.getD t₀

/-- The last time is that of the last event. -/
@[simp] theorem lastTime_concat : lastTime t₀ (ts ++ [t]) = t := by
  rw [lastTime, List.getLast?_concat, Option.getD_some]

/-- The last time behind a first event. -/
theorem lastTime_cons : lastTime t₀ (t :: ts) = lastTime t ts := by
  cases ts with
  | nil => rfl
  | cons u us => rw [lastTime, lastTime, List.getLast?_cons_cons, List.getLast?_cons]; rfl

/-- Two lists are apart when each is and the gap between them is kept. -/
theorem apart_append :
    Apart d t₀ (ts ++ us) ↔ Apart d t₀ ts ∧ Apart d (lastTime t₀ ts) us := by
  induction ts generalizing t₀ with
  | nil => exact ⟨fun h => ⟨trivial, h⟩, fun h => h.2⟩
  | cons u ts ih =>
    rw [lastTime_cons, List.cons_append, Apart, Apart, ih, and_assoc]

/-- One more time. -/
theorem Apart.concat (h : Apart d t₀ ts) (ht : d ≤ t - lastTime t₀ ts) :
    Apart d t₀ (ts ++ [t]) :=
  apart_append.mpr ⟨h, ht, trivial⟩

/-- An earlier start. -/
theorem Apart.earlier (h : Apart d t ts) (ht : t₀ ≤ t) : Apart d t₀ ts := by
  cases ts with
  | nil => trivial
  | cons u us => exact ⟨by have hd := h.1; omega, h.2⟩

/-- The distances add up. -/
theorem Apart.total (h : Apart d t₀ ts) : d * ts.length ≤ lastTime t₀ ts - t₀ := by
  induction ts generalizing t₀ with
  | nil =>
    have hl : lastTime t₀ [] = t₀ := rfl
    rw [hl, List.length_nil]
    omega
  | cons u ts ih =>
    have hrest := ih h.2
    have hone := h.1
    rw [lastTime_cons, List.length_cons]
    push_cast
    rw [mul_add, mul_one]
    omega

/-! ## Events with their past -/

variable {α : Type*} {p : α → Bool} {h l : List α} {e : α}

/-- Something holds of every event and the events before it. -/
def Each (P : List α → α → Prop) (h : List α) : Prop :=
  ∀ pre e post, h = pre ++ e :: post → P pre e

/-- Nothing to say of no events. -/
theorem each_nil {P : List α → α → Prop} : Each P [] := by
  intro pre e post he
  cases pre <;> cases he

/-- One more event, said of what came before it. -/
theorem Each.concat {P : List α → α → Prop} (hp : Each P h) (he : P h e) : Each P (h ++ [e]) := by
  intro pre x post heq
  rcases List.eq_nil_or_concat post with rfl | ⟨post, y, rfl⟩
  · obtain ⟨rfl, hlast⟩ := List.append_inj' heq rfl
    obtain rfl := List.singleton_inj.mp hlast
    exact he
  · rw [List.concat_eq_append, ← List.cons_append, ← List.append_assoc] at heq
    obtain ⟨rfl, -⟩ := List.append_inj' heq rfl
    exact hp pre x post rfl

/-! ## Runs at the end -/

/-- How many events at the end are of a kind. -/
def trailing (p : α → Bool) (h : List α) : ℕ := (h.reverse.takeWhile p).length

/-- The trailing count after one more event. -/
theorem trailing_concat : trailing p (h ++ [e]) = if p e then trailing p h + 1 else 0 := by
  unfold trailing
  rw [List.reverse_append, List.reverse_singleton, List.singleton_append, List.takeWhile_cons]
  split <;> rfl

/-- The trailing count of mapped events. -/
theorem trailing_map {β : Type*} (g : α → β) (q : β → Bool) :
    trailing q (h.map g) = trailing (fun e => q (g e)) h := by
  unfold trailing
  rw [← List.map_reverse, List.takeWhile_map, List.length_map]
  rfl

/-- Events that all count lengthen the trailing stretch. -/
theorem trailing_append_of_all (hl : ∀ e ∈ l, p e = true) :
    trailing p (h ++ l) = trailing p h + l.length := by
  induction l generalizing h with
  | nil => rw [List.append_nil, List.length_nil, Nat.add_zero]
  | cons e l ih =>
    rw [List.append_cons, ih fun x hx => hl x (List.mem_cons_of_mem e hx), trailing_concat,
      if_pos (hl e List.mem_cons_self), List.length_cons]
    omega

/-- An event of another kind hides everything before it. -/
theorem trailing_append_le (hl : ¬∀ e ∈ l, p e = true) : trailing p (h ++ l) ≤ l.length := by
  induction l using List.reverseRecOn with
  | nil => exact absurd (fun _ he => (nomatch he)) hl
  | append_singleton l e ih =>
    rw [← List.append_assoc, trailing_concat, List.length_append, List.length_singleton]
    split
    · rename_i he
      have hl' : ¬∀ e ∈ l, p e = true := fun hall =>
        hl fun x hx => (List.mem_append.mp hx).elim (hall x) fun hx => List.mem_singleton.mp hx ▸ he
      have := ih hl'
      omega
    · omega

/-- Between two places where the events at the end are a multiple of `n`, the
later one of them none of zero, there are at least `n` steps. -/
theorem le_length_of_dvd {n : ℕ} (hh : n ∣ trailing p h) (hl : n ∣ trailing p (h ++ l))
    (hpos : 0 < trailing p (h ++ l)) (hne : l ≠ []) : n ≤ l.length := by
  by_cases hall : ∀ e ∈ l, p e = true
  · rw [trailing_append_of_all hall] at hl
    exact Nat.le_of_dvd (List.length_pos_iff.mpr hne) ((Nat.dvd_add_right hh).mp hl)
  · exact (Nat.le_of_dvd hpos hl).trans (trailing_append_le hall)

end CdroidDemo.SpacedEvents
