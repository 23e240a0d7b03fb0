import Mathlib.Algebra.Order.Ring.Int
import Mathlib.Tactic.Ring

/-!
# A queue whose last item is put in again

A queue is served at a pace, and the item that matters is put in again from
time to time. A refresh may be refused while something is waiting. The items
that were there first are served and then, within a bounded time, one that was
put in after them.
-/

namespace CdroidDemo.RefreshedQueue

/-- How many items wait and have been served, and the times of the last serving
and of the last refresh. -/
structure Refreshed where
  /-- How many items wait. -/
  waiting : ℕ
  /-- How many were served. -/
  served : ℕ
  /-- When the last one was served. -/
  last : ℤ
  /-- When the queue was refreshed last. -/
  refreshed : ℤ

/-- A serving at time `b` takes the first item when the last one is `d` ago. -/
inductive Serve (d b : ℤ) : Refreshed → Refreshed → Prop
  /-- Nothing waits, or its time has not come. -/
  | wait {s : Refreshed} (h : s.waiting = 0 ∨ b - s.last < d) : Serve d b s s
  /-- The oldest item is served. -/
  | serve {s : Refreshed} (hq : 0 < s.waiting) (ht : d ≤ b - s.last) :
      Serve d b s {s with waiting := s.waiting - 1, served := s.served + 1, last := b}

/-- A refresh that is decided at time `a` and made at time `c`. It is skipped
only when the last one is less than `p` ago. -/
inductive Refresh (p a c : ℤ) : Refreshed → Refreshed → Prop
  /-- The time of a refresh has not come. -/
  | skip {s : Refreshed} (h : a - s.refreshed < p) : Refresh p a c s s
  /-- An item is added. -/
  | push {s : Refreshed} : Refresh p a c s {s with waiting := s.waiting + 1, refreshed := c}
  /-- An item like the one that waits is refused. -/
  | refuse {s : Refreshed} (h : 0 < s.waiting) : Refresh p a c s {s with refreshed := c}

/-- The clock readings of a beat: it starts, serves and refreshes. -/
structure Beat where
  /-- When it starts. -/
  start : ℤ
  /-- When it serves. -/
  serve : ℤ
  /-- When it refreshes. -/
  refresh : ℤ

/-- One step, with the beat if it is one. -/
inductive Step (d p : ℤ) : Refreshed → Option Beat → Refreshed → Prop
  /-- The last serving may be forgotten. -/
  | quiet {s : Refreshed} {last : ℤ} (hl : last = s.last ∨ last = 0) :
      Step d p s none {s with last := last}
  /-- A serving, and then a refresh. -/
  | beat {s s₁ s' : Refreshed} {t : Beat} (hs : Serve d t.serve s s₁)
      (hr : Refresh p t.start t.refresh s₁ s') : Step d p s (some t) s'

/-- Steps in order. -/
inductive Run (d p : ℤ) : Refreshed → List (Option Beat) → Refreshed → Prop
  /-- Nothing happens. -/
  | nil (s : Refreshed) : Run d p s [] s
  /-- One step, and then the rest. -/
  | cons {s s₁ s' : Refreshed} {o : Option Beat} {log : List (Option Beat)}
      (hs : Step d p s o s₁) (h : Run d p s₁ log s') : Run d p s (o :: log) s'

/-- The beats of a run. -/
def beats (log : List (Option Beat)) : List Beat := log.filterMap id

/-- Every beat is over at most `g` after the serving of the one before. -/
def Timely (g u : ℤ) : List Beat → Prop
  | [] => True
  | t :: ts => (u ≤ t.start ∧ t.start ≤ t.serve ∧ t.serve ≤ t.refresh ∧ t.refresh - u ≤ g) ∧
      Timely g t.serve ts

variable {d p g u : ℤ} {k : ℕ} {s s₁ s' : Refreshed}

/-- When more than `k` items have been served at the latest, seen from time
`u`. There are three stages: an item behind the first `k` has been put in; the
queue is empty and waits for a refresh; the first `k` items still go out. -/
def deadline (d p g : ℤ) (k : ℕ) (s : Refreshed) (u : ℤ) : ℤ :=
  if k < s.waiting + s.served then
    max u (s.last + d) + ((k - s.served : ℕ) : ℤ) * (d + g) + g
  else if s.waiting = 0 then max u (s.refreshed + p + g) + d + 2 * g
  else max u (s.last + d) + ((k - s.served : ℕ) : ℤ) * (d + g) + p + 3 * g

/-- The times of the past, and that the first `k` items are not lost. -/
structure Sane (g : ℤ) (k : ℕ) (s : Refreshed) (u : ℤ) : Prop where
  /-- The time of the last serving is a time. -/
  past : 0 ≤ s.last
  /-- The last serving is in the past. -/
  last : s.last ≤ u
  /-- The last refresh is not far in the future. -/
  refreshed : s.refreshed ≤ u + g
  /-- The first `k` items wait or were served. -/
  kept : k ≤ s.waiting + s.served

/-- No deadline lies in the past. -/
theorem le_deadline (hd : 0 ≤ d) (hg : 0 ≤ g) (hp : 0 ≤ p) : u ≤ deadline d p g k s u := by
  have hpos : 0 ≤ ((k - s.served : ℕ) : ℤ) * (d + g) :=
    Int.mul_nonneg (Int.natCast_nonneg _) (by omega)
  unfold deadline
  split_ifs <;> omega

/-- A serve leaves a sane state. -/
theorem Serve.sane {b : ℤ} (h : Serve d b s s₁) (hs : Sane g k s u) (hub : u ≤ b) :
    Sane g k s₁ b := by
  have hpast := hs.past
  have hlast := hs.last
  have href := hs.refreshed
  have hkept := hs.kept
  cases h with
  | wait _ => exact ⟨hpast, by omega, by omega, hkept⟩
  | serve hq _ => exact ⟨by dsimp only; omega, le_refl b, by dsimp only; omega, by dsimp only; omega⟩

/-- A refresh that comes in time leaves a sane state. -/
theorem Refresh.sane {a b c : ℤ} (h : Refresh p a c s s') (hs : Sane g k s b) (hc : c ≤ b + g) :
    Sane g k s' b := by
  have hkept := hs.kept
  cases h with
  | skip _ => exact hs
  | push => exact ⟨hs.past, hs.last, hc, by dsimp only; omega⟩
  | refuse _ => exact ⟨hs.past, hs.last, hc, hkept⟩

/-- A beat that serves nothing does not put the deadline off. -/
theorem deadline_waiting {t : Beat} (hs : Sane g k s u) (hk : s.served ≤ k)
    (hw : s.waiting = 0 ∨ t.serve - s.last < d) (hr : Refresh p t.start t.refresh s s')
    (hd : 0 ≤ d) (hg : 0 ≤ g) (hp : 0 ≤ p)
    (ht : u ≤ t.start ∧ t.start ≤ t.serve ∧ t.serve ≤ t.refresh ∧ t.refresh - u ≤ g) :
    deadline d p g k s' t.serve ≤ deadline d p g k s u := by
  have hlast := hs.last
  have hkept := hs.kept
  have hnone : s.waiting = 0 → ((k - s.served : ℕ) : ℤ) * (d + g) = 0 := by
    intro hz
    rw [Nat.sub_eq_zero_of_le (by omega), Nat.cast_zero, zero_mul]
  cases hr with
  | skip h =>
    unfold deadline
    split_ifs <;> omega
  | push =>
    unfold deadline
    dsimp only
    split_ifs <;> omega
  | refuse h =>
    unfold deadline
    dsimp only
    split_ifs <;> omega

/-- A beat that serves brings the deadline no nearer than it was. -/
theorem deadline_serving {t : Beat} (hs : Sane g k s u) (hk : s.served < k)
    (hq : 0 < s.waiting)
    (hr : Refresh p t.start t.refresh
      {s with waiting := s.waiting - 1, served := s.served + 1, last := t.serve} s')
    (hd : 0 ≤ d) (hg : 0 ≤ g) (hp : 0 ≤ p)
    (ht : u ≤ t.start ∧ t.start ≤ t.serve ∧ t.serve ≤ t.refresh ∧ t.refresh - u ≤ g) :
    deadline d p g k s' t.serve ≤ deadline d p g k s u := by
  have href := hs.refreshed
  have hkept := hs.kept
  have hmul : ((k - s.served : ℕ) : ℤ) * (d + g) =
      ((k - (s.served + 1) : ℕ) : ℤ) * (d + g) + (d + g) := by
    have hsucc : k - s.served = k - (s.served + 1) + 1 := by omega
    rw [hsucc]
    push_cast
    ring
  have hpos : 0 ≤ ((k - (s.served + 1) : ℕ) : ℤ) * (d + g) :=
    Int.mul_nonneg (Int.natCast_nonneg _) (by omega)
  cases hr with
  | skip h =>
    unfold deadline
    dsimp only at h ⊢
    rw [hmul]
    split_ifs <;> omega
  | push =>
    unfold deadline
    dsimp only
    rw [hmul]
    split_ifs <;> omega
  | refuse h =>
    unfold deadline
    dsimp only at h ⊢
    rw [hmul]
    split_ifs <;> omega

/-- What is served stays served. -/
theorem Step.served_le {o : Option Beat} (h : Step d p s o s') : s.served ≤ s'.served := by
  cases h with
  | quiet _ => exact le_refl _
  | @beat s₁ _ t hs hr =>
    have h₁ : s.served ≤ s₁.served := by
      cases hs with
      | wait _ => exact le_refl _
      | serve _ _ => exact Nat.le_succ _
    have h₂ : s₁.served ≤ s'.served := by
      cases hr with
      | skip _ => exact le_refl _
      | push => exact le_refl _
      | refuse _ => exact le_refl _
    exact h₁.trans h₂

/-- The number served never falls. -/
theorem Run.served_le {log : List (Option Beat)} (h : Run d p s log s') :
    s.served ≤ s'.served := by
  induction h with
  | nil s => exact le_refl _
  | cons hs _ ih => exact hs.served_le.trans ih

/-- A beat serves more than `k` items at last, or keeps to the deadline. -/
theorem deadline_beat {t : Beat} (hs : Sane g k s u) (hk : s.served ≤ k)
    (hserve : Serve d t.serve s s₁) (hr : Refresh p t.start t.refresh s₁ s')
    (hd : 0 ≤ d) (hg : 0 ≤ g) (hp : 0 ≤ p)
    (ht : u ≤ t.start ∧ t.start ≤ t.serve ∧ t.serve ≤ t.refresh ∧ t.refresh - u ≤ g) :
    k < s'.served ∨ deadline d p g k s' t.serve ≤ deadline d p g k s u := by
  cases hserve with
  | wait hw => exact Or.inr (deadline_waiting hs hk hw hr hd hg hp ht)
  | serve hq _ =>
    rcases hk.lt_or_eq with hlt | rfl
    · exact Or.inr (deadline_serving hs hlt hq hr hd hg hp ht)
    · refine Or.inl ?_
      cases hr with
      | skip _ => exact Nat.lt_succ_self _
      | push => exact Nat.lt_succ_self _
      | refuse _ => exact Nat.lt_succ_self _

/-- The last serving and the last refresh are in the past. -/
structure Past (s : Refreshed) (u : ℤ) : Prop where
  /-- The time of the last serving is a time. -/
  nonneg : 0 ≤ s.last
  /-- The last serving is in the past. -/
  last : s.last ≤ u
  /-- So is the last refresh. -/
  refreshed : s.refreshed ≤ u

/-- A step keeps the state in the past of the clock. -/
theorem Step.past {o : Option Beat} (h : Step d p s o s') (hs : Past s u)
    (ht : ∀ t, o = some t → 0 ≤ t.serve ∧ t.serve ≤ u ∧ t.refresh ≤ u) : Past s' u := by
  obtain ⟨hnonneg, hlast, href⟩ := hs
  cases h with
  | quiet hl => exact ⟨by dsimp only; omega, by dsimp only; omega, href⟩
  | @beat s₁ _ t hserve hr =>
    obtain ⟨htpos, htlast, htref⟩ := ht t rfl
    have h₁ : Past s₁ u := by
      cases hserve with
      | wait _ => exact ⟨hnonneg, hlast, href⟩
      | serve _ _ => exact ⟨htpos, htlast, href⟩
    cases hr with
    | skip _ => exact h₁
    | push => exact ⟨h₁.nonneg, h₁.last, htref⟩
    | refuse _ => exact ⟨h₁.nonneg, h₁.last, htref⟩

/-- A run keeps the state in the past of the clock. -/
theorem Run.past {log : List (Option Beat)} (h : Run d p s log s') (hs : Past s u)
    (ht : ∀ t ∈ beats log, 0 ≤ t.serve ∧ t.serve ≤ u ∧ t.refresh ≤ u) : Past s' u := by
  induction h with
  | nil _ => exact hs
  | @cons s s₁ s' o log hstep _ ih =>
    have h₁ : Past s₁ u := hstep.past hs fun t ho => ht t (by rw [ho]; exact List.mem_cons_self)
    refine ih h₁ fun t hmem => ht t ?_
    cases o with
    | none => exact hmem
    | some t' => exact List.mem_cons_of_mem t' hmem

/-- With nothing served yet and the first `k` items waiting. -/
theorem deadline_le (hs : Past s u) (hserved : s.served = 0) (hk : s.waiting = k) (hd : 0 ≤ d)
    (hg : 0 ≤ g) (hp : 0 ≤ p) : deadline d p g k s u ≤ u + d + p + 3 * g + k * (d + g) := by
  have hlast := hs.last
  have href := hs.refreshed
  have hpos : 0 ≤ (k : ℤ) * (d + g) := Int.mul_nonneg (Int.natCast_nonneg k) (by omega)
  unfold deadline
  rw [hserved, hk, Nat.sub_zero]
  split_ifs <;> omega

/-- When timely beats go on beyond the deadline, an item that was put in behind
the first `k` has been served. -/
theorem refreshed_in_time {log : List (Option Beat)} (h : Run d p s log s') (hs : Sane g k s u)
    (hd : 0 ≤ d) (hg : 0 ≤ g) (hp : 0 ≤ p) (ht : Timely g u (beats log))
    (hlong : ∃ t ∈ beats log, deadline d p g k s u < t.serve) : k < s'.served := by
  induction h generalizing u with
  | nil s =>
    obtain ⟨t, ht, -⟩ := hlong
    cases ht
  | @cons s s₁ s' o log hstep h ih =>
    by_cases hk : s.served ≤ k
    · cases hstep with
      | @quiet last hl =>
        have hpast := hs.past
        have hlast := hs.last
        have hs₁ : Sane g k {s with last := last} u :=
          ⟨by dsimp only; omega, by dsimp only; omega, hs.refreshed, hs.kept⟩
        have hle : deadline d p g k {s with last := last} u ≤ deadline d p g k s u := by
          unfold deadline
          dsimp only
          split_ifs <;> omega
        obtain ⟨t, hmem, hlt⟩ := hlong
        exact ih hs₁ ht ⟨t, hmem, hle.trans_lt hlt⟩
      | @beat sm _ t hserve hr =>
        rcases deadline_beat hs hk hserve hr hd hg hp ht.1 with hdone | hle
        · exact hdone.trans_le h.served_le
        · obtain ⟨ht₁, ht₂⟩ := ht
          have hs₁ : Sane g k s₁ t.serve :=
            hr.sane (hserve.sane hs (by omega)) (by omega)
          obtain ⟨t', hmem, hlt⟩ := hlong
          rcases List.mem_cons.mp hmem with rfl | hmem
          · have hnow := le_deadline (u := t'.serve) (k := k) (s := s₁) hd hg hp
            omega
          · exact ih hs₁ ht₂ ⟨t', hmem, hle.trans_lt hlt⟩
    · have hmore := hstep.served_le
      have hrest := h.served_le
      omega

end CdroidDemo.RefreshedQueue
