import Mathlib.Data.List.Basic

/-!
# Runs of step functions

A machine takes inputs one after the other. A partial step function may refuse
an input; a total one puts something out for every input.
-/

namespace CdroidDemo.StepRuns

variable {σ τ ι ω : Type*}

/-! ## Partial steps -/

section Partial

/-- The state behind the inputs, when none of them is refused. -/
def run (step : σ → ι → Option σ) (s : σ) : List ι → Option σ
  | [] => some s
  | x :: xs => (step s x).bind fun s' => run step s' xs

/-- Every input is allowed in the state it comes in. -/
def Allowed (step : σ → ι → Option σ) (ok : σ → ι → Prop) (s : σ) : List ι → Prop
  | [] => True
  | x :: xs => ok s x ∧ ∀ s', step s x = some s' → Allowed step ok s' xs

variable {step : σ → ι → Option σ} {ok : σ → ι → Prop} {s s' : σ} {x : ι} {xs : List ι}

/-- The run of an input and those behind it. -/
theorem run_cons (h : step s x = some s') : run step s (x :: xs) = run step s' xs := by
  rw [run, h]
  rfl

/-- The run of two lists of inputs. -/
theorem run_append {ys : List ι} :
    run step s (xs ++ ys) = (run step s xs).bind fun s' => run step s' ys := by
  induction xs generalizing s with
  | nil => rfl
  | cons x xs ih =>
    rw [List.cons_append, run, run, Option.bind_assoc]
    exact Option.bind_congr fun s' _ => ih

/-- A run of a list starts with the step of its head. -/
theorem run_cons_eq_some {s'' : σ} (h : run step s (x :: xs) = some s'') :
    ∃ s', step s x = some s' ∧ run step s' xs = some s'' :=
  Option.bind_eq_some_iff.mp h

/-- A relation that every allowed step keeps is kept by runs: the second
machine follows the first. -/
theorem run_simulates {stepA : τ → ι → Option τ} {okA : τ → ι → Prop} {R : σ → τ → Prop}
    (hstep : ∀ s t x s', R s t → okA t x → step s x = some s' →
      ∃ t', stepA t x = some t' ∧ R s' t')
    {t : τ} (h : R s t) (hok : Allowed stepA okA t xs) (hr : run step s xs = some s') :
    ∃ t', run stepA t xs = some t' ∧ R s' t' := by
  induction xs generalizing s t with
  | nil =>
    cases hr
    exact ⟨t, rfl, h⟩
  | cons x xs ih =>
    obtain ⟨s₁, hs, hr⟩ := run_cons_eq_some hr
    obtain ⟨t₁, ht, h₁⟩ := hstep s t x s₁ h hok.1 hs
    obtain ⟨t', ht', h'⟩ := ih h₁ (hok.2 t₁ ht) hr
    exact ⟨t', (run_cons ht).trans ht', h'⟩

end Partial

/-! ## Total steps with outputs -/

section Total

/-- The state behind the inputs, and all outputs in order. -/
def outputs (step : σ → ι → σ × List ω) (s : σ) : List ι → σ × List ω
  | [] => (s, [])
  | x :: xs =>
    let r := outputs step (step s x).1 xs
    (r.1, (step s x).2 ++ r.2)

variable {step : σ → ι → σ × List ω} {s : σ} {x : ι} {xs ys : List ι}

/-- The outputs of two lists of inputs. -/
theorem outputs_append :
    outputs step s (xs ++ ys) =
      ((outputs step (outputs step s xs).1 ys).1,
        (outputs step s xs).2 ++ (outputs step (outputs step s xs).1 ys).2) := by
  induction xs generalizing s with
  | nil => rfl
  | cons x xs ih =>
    rw [List.cons_append, outputs, ih]
    simp only [outputs, List.append_assoc]

/-- What every step keeps of the state and the outputs so far holds behind
every run. -/
theorem outputs_keeps {P : σ → List ω → Prop} (ok : ι → Prop)
    (hstep : ∀ s os x, ok x → P s os → P (step s x).1 (os ++ (step s x).2)) {os : List ω}
    (h : P s os) (hok : ∀ x ∈ xs, ok x) :
    P (outputs step s xs).1 (os ++ (outputs step s xs).2) := by
  induction xs generalizing s os with
  | nil =>
    rw [outputs, List.append_nil]
    exact h
  | cons x xs ih =>
    have hrest := ih (hstep s os x (hok x List.mem_cons_self) h) fun y hy =>
      hok y (List.mem_cons_of_mem x hy)
    rwa [List.append_assoc] at hrest

/-- Inputs that no state reacts to can be left out. -/
theorem outputs_filter {p : ι → Bool} (hp : ∀ s x, p x = false → step s x = (s, [])) :
    outputs step s (xs.filter p) = outputs step s xs := by
  induction xs generalizing s with
  | nil => rfl
  | cons x xs ih =>
    cases hx : p x with
    | true => rw [List.filter_cons_of_pos hx, outputs, outputs, ih]
    | false =>
      rw [List.filter_cons_of_neg (by rw [hx]; exact Bool.false_ne_true), ih, outputs, hp s x hx,
        List.nil_append]

end Total

end CdroidDemo.StepRuns
