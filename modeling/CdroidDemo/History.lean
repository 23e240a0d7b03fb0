import Mathlib.Data.List.Basic
import Mathlib.Data.Int.Notation

/-!
# What a history determines

The value a chronological list of events determines is the one of its latest
event that determines a value at all. A flag raised by some events and
lowered by others is up when a raising event follows the latest lowering one.
A timer holds the time of the latest marked event until an event resets it.
-/

namespace CdroidDemo.History

/-- The latest value that the events of a history determine. -/
def latest {α β : Type*} (f : α → Option β) (h : List α) : Option β := (h.filterMap f).getLast?

variable {α β : Type*} {f : α → Option β}

/-- No event determines nothing. -/
@[simp] theorem latest_nil : latest f [] = none := rfl

/-- A later event overrides the history before it. -/
theorem latest_concat (h : List α) (e : α) : latest f (h ++ [e]) = (f e).or (latest f h) := by
  unfold latest
  rw [List.filterMap_append]
  cases he : f e with
  | none => simp only [List.filterMap_cons_none he, List.filterMap_nil, List.append_nil,
      Option.none_or]
  | some v =>
    rw [List.filterMap_cons_some he, List.filterMap_nil, List.getLast?_concat, Option.some_or]

/-- An event that determines a value is the latest, -/
theorem latest_concat_some {e : α} {v : β} (he : f e = some v) (h : List α) :
    latest f (h ++ [e]) = some v := by
  rw [latest_concat, he, Option.some_or]

/-- and any other changes nothing. -/
theorem latest_concat_none {e : α} (he : f e = none) (h : List α) :
    latest f (h ++ [e]) = latest f h := by
  rw [latest_concat, he, Option.none_or]

/-- Only the values on the events of the history matter. -/
theorem latest_congr {g : α → Option β} {h : List α} (he : ∀ e ∈ h, f e = g e) :
    latest f h = latest g h := by
  unfold latest
  rw [List.filterMap_congr he]

/-- Some event after the latest one with `p` has `q`. -/
def since (p q : α → Bool) (h : List α) : Bool := (h.reverse.takeWhile fun e => !p e).any q

variable {p q : α → Bool}

/-- One more event lowers the flag, raises it or leaves it. -/
theorem since_concat (h : List α) (e : α) :
    since p q (h ++ [e]) = (!p e && (q e || since p q h)) := by
  unfold since
  rw [List.reverse_append, List.reverse_singleton, List.singleton_append, List.takeWhile_cons]
  cases hp : p e with
  | true => rfl
  | false => simp only [Bool.not_false, if_true, List.any_cons, Bool.true_and]

/-! ## Timers -/

/-- One event sets the timer, resets it or leaves it. -/
def tick (mark : α → Option ℤ) (reset : α → Bool) (t : Option ℤ) (e : α) : Option ℤ :=
  match mark e with
  | some n => some n
  | none => if reset e then none else t

/-- The time of the latest marked event that no reset follows. -/
def timer (mark : α → Option ℤ) (reset : α → Bool) (h : List α) : Option ℤ :=
  h.foldl (tick mark reset) none

variable {mark : α → Option ℤ} {reset : α → Bool}

/-- The timer is not set at the beginning. -/
@[simp] theorem timer_nil : timer mark reset [] = none := rfl

/-- One more event. -/
theorem timer_concat (h : List α) (e : α) :
    timer mark reset (h ++ [e]) = tick mark reset (timer mark reset h) e := by
  unfold timer
  rw [List.foldl_append, List.foldl_cons, List.foldl_nil]

/-- Events without a mark only reset. -/
theorem foldl_tick_unmarked {l : List α} (hl : ∀ e ∈ l, mark e = none) (t : Option ℤ) :
    l.foldl (tick mark reset) t = if l.any reset then none else t := by
  induction l generalizing t with
  | nil => rfl
  | cons e l ih =>
    have hone : tick mark reset t e = if reset e then none else t := by
      rw [tick, hl e List.mem_cons_self]
    rw [List.foldl_cons, ih (fun x hx => hl x (List.mem_cons_of_mem e hx)), hone, List.any_cons]
    cases reset e with
    | true => simp only [if_true, Bool.true_or, ite_self]
    | false => simp only [Bool.false_eq_true, if_false, Bool.false_or]

/-- Unmarked events can only reset the timer. -/
theorem timer_append_unmarked {h l : List α} (hl : ∀ e ∈ l, mark e = none) :
    timer mark reset (h ++ l) = if l.any reset then none else timer mark reset h := by
  unfold timer
  rw [List.foldl_append, foldl_tick_unmarked hl]

/-- Whenever an event is marked while the timer is set, at least `d` has
passed. -/
def Spaced (d : ℤ) (mark : α → Option ℤ) (reset : α → Bool) (h : List α) : Prop :=
  ∀ a e b n m, h = a ++ e :: b → mark e = some n → timer mark reset a = some m → d ≤ n - m

/-- No events are spaced. -/
theorem spaced_nil {d : ℤ} : Spaced d mark reset [] := by
  intro a e b n m he
  cases a <;> cases he

/-- One more event is spaced when it is far enough from the timer. -/
theorem Spaced.concat {d : ℤ} {h : List α} {e : α} (hs : Spaced d mark reset h)
    (he : ∀ n m, mark e = some n → timer mark reset h = some m → d ≤ n - m) :
    Spaced d mark reset (h ++ [e]) := by
  intro a x b n m heq hx ht
  rcases List.eq_nil_or_concat b with rfl | ⟨b, y, rfl⟩
  · obtain ⟨rfl, hlast⟩ := List.append_inj' heq rfl
    obtain rfl := List.singleton_inj.mp hlast
    exact he n m hx ht
  · rw [List.concat_eq_append, ← List.cons_append, ← List.append_assoc] at heq
    obtain ⟨rfl, -⟩ := List.append_inj' heq rfl
    exact hs a x b n m rfl hx ht

/-- Unmarked events are spaced. -/
theorem Spaced.append_unmarked {d : ℤ} {h l : List α} (hs : Spaced d mark reset h)
    (hl : ∀ e ∈ l, mark e = none) : Spaced d mark reset (h ++ l) := by
  induction l generalizing h with
  | nil =>
    rw [List.append_nil]
    exact hs
  | cons e l ih =>
    rw [List.append_cons]
    refine ih (hs.concat fun n m hn => ?_) fun x hx => hl x (List.mem_cons_of_mem e hx)
    rw [hl e List.mem_cons_self] at hn
    cases hn

/-- Two marked events with neither mark nor reset between them are at least
`d` apart. -/
theorem Spaced.pair {d : ℤ} {a l b : List α} {x y : α} {n m : ℤ}
    (hs : Spaced d mark reset (a ++ x :: l ++ y :: b)) (hx : mark x = some m)
    (hy : mark y = some n) (hl : ∀ e ∈ l, mark e = none ∧ reset e = false) : d ≤ n - m := by
  refine hs (a ++ x :: l) y b n m rfl hy ?_
  have hany : l.any reset = false := List.any_eq_false.mpr fun e he => by
    rw [(hl e he).2]
    exact Bool.false_ne_true
  rw [List.append_cons, timer_append_unmarked fun e he => (hl e he).1, hany, timer_concat, tick, hx]
  rfl

end CdroidDemo.History
