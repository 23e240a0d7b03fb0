import Mathlib.Algebra.Order.Group.Nat

/-!
# Rounds in which everybody acts

A system of parties whose actions either leave a state as it is or make less
of the work that is left. When there is work some party can do some of it, so
rounds in which every party acts at least once come to an end of the work, in
whatever order the actions of a round are taken.
-/

namespace CdroidDemo.FairRounds

variable {σ α π : Type*}

/-- Actions in order. -/
inductive Run (R : σ → α → σ → Prop) : σ → List α → σ → Prop
  /-- Nothing happens. -/
  | nil (s : σ) : Run R s [] s
  /-- One step, and then the rest. -/
  | cons {s s₁ s' : σ} {a : α} {as : List α} (h : R s a s₁) (hr : Run R s₁ as s') :
      Run R s (a :: as) s'

/-- Every party acts. -/
def Covers (party : α → π) (parties : π → Prop) (round : List α) : Prop :=
  ∀ p, parties p → ∃ a ∈ round, party a = p

variable {R : σ → α → σ → Prop} {s s₁ s' : σ} {as bs : List α}

/-- A run can be cut at any action. -/
theorem Run.split (h : Run R s (as ++ bs) s') : ∃ s₁, Run R s as s₁ ∧ Run R s₁ bs s' := by
  induction as generalizing s with
  | nil => exact ⟨s, Run.nil s, h⟩
  | cons a as ih =>
    cases h with
    | cons hs h =>
      obtain ⟨s₁, h₁, h₂⟩ := ih h
      exact ⟨s₁, Run.cons hs h₁, h₂⟩

section Measure

variable {party : α → π} {parties : π → Prop} {Good : σ → Prop} {ok : α → Prop} {work : σ → ℕ}

/-- Every action leaves the state as it is or makes less work. -/
def Settling (R : σ → α → σ → Prop) (Good : σ → Prop) (ok : α → Prop) (work : σ → ℕ) : Prop :=
  ∀ s a s', Good s → ok a → R s a s' → Good s' ∧ (s' = s ∨ work s' < work s)

/-- No run loses what is good or makes more work. -/
theorem Run.settles (hstep : Settling R Good ok work)
    (h : Run R s as s') (hs : Good s) (hok : ∀ a ∈ as, ok a) :
    Good s' ∧ work s' ≤ work s := by
  induction h with
  | nil s => exact ⟨hs, Nat.le_refl _⟩
  | @cons s s₁ s' a as h₁ _ ih =>
    obtain ⟨hg, hw⟩ := hstep s a s₁ hs (hok a List.mem_cons_self) h₁
    obtain ⟨hg', hw'⟩ := ih hg fun b hb => hok b (List.mem_cons_of_mem a hb)
    refine ⟨hg', hw'.trans ?_⟩
    rcases hw with rfl | hw
    · exact Nat.le_refl _
    · exact hw.le

/-- When an action of a party makes less work, so do actions that it is one of. -/
theorem Run.shrinks (hstep : Settling R Good ok work)
    {p : π} (hp : ∀ a s', ok a → party a = p → R s a s' → work s' < work s)
    (h : Run R s as s') (hs : Good s) (hok : ∀ a ∈ as, ok a) (hmem : ∃ a ∈ as, party a = p) :
    work s' < work s := by
  induction h with
  | nil s =>
    obtain ⟨a, ha, -⟩ := hmem
    cases ha
  | @cons s s₁ s' a as h₁ hr ih =>
    obtain ⟨hg, hw⟩ := hstep s a s₁ hs (hok a List.mem_cons_self) h₁
    have hok' : ∀ b ∈ as, ok b := fun b hb => hok b (List.mem_cons_of_mem a hb)
    rcases hw with rfl | hw
    · by_cases ha : party a = p
      · exact absurd (hp a _ (hok a List.mem_cons_self) ha h₁) (lt_irrefl _)
      · obtain ⟨b, hb, hbp⟩ := hmem
        rcases List.mem_cons.mp hb with rfl | hb
        · exact absurd hbp ha
        · exact ih hp hg hok' ⟨b, hb, hbp⟩
    · exact (hr.settles hstep hg hok').2.trans_lt hw

/-- As many rounds as there is work leave no work. -/
theorem Run.drains (hstep : Settling R Good ok work)
    (hprog : ∀ s, Good s → 0 < work s → ∃ p, parties p ∧
      ∀ a s', ok a → party a = p → R s a s' → work s' < work s)
    {rounds : List (List α)} (hcov : ∀ r ∈ rounds, Covers party parties r)
    (hok : ∀ r ∈ rounds, ∀ a ∈ r, ok a) (hs : Good s) (hlen : work s ≤ rounds.length)
    (h : Run R s rounds.flatten s') : work s' = 0 := by
  induction rounds generalizing s with
  | nil =>
    cases h
    exact Nat.le_zero.mp hlen
  | cons r rounds ih =>
    rw [List.flatten_cons] at h
    obtain ⟨s₁, hr, h⟩ := h.split
    have hokr := hok r List.mem_cons_self
    obtain ⟨hg, hle⟩ := hr.settles hstep hs hokr
    refine ih (fun q hq => hcov q (List.mem_cons_of_mem r hq))
      (fun q hq => hok q (List.mem_cons_of_mem r hq)) hg ?_ h
    rw [List.length_cons] at hlen
    rcases Nat.eq_zero_or_pos (work s) with hz | hpos
    · omega
    · obtain ⟨p, hp, hless⟩ := hprog s hs hpos
      have hlt := hr.shrinks hstep hless hs hokr (hcov r List.mem_cons_self p hp)
      omega

end Measure

end CdroidDemo.FairRounds
