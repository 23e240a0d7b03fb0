import CdroidDemo.TaskConservation

/-!
# When a task can be cancelled

`del` reads the task of every slot until it meets the number, and only then
looks at the waiting tasks. It works as long as every slot it reads on the
way points to an existing task; slots that never had a task, or whose last
task has been freed, are in its way.
-/

namespace CdroidDemo.TaskCancellation

open ThreadPool ThreadPool.Pool TaskConservation

/-- A pointer to an existing task. -/
def PointsToTask (s : Pool) (td : Option ℕ) : Prop := ∃ q t, td = some q ∧ s.load q = some t

/-- Some slot points to the task, which exists, and all slots before it point
to existing tasks; or the task waits and all slots point to existing tasks. -/
def Cancellable (s : Pool) (p : ℕ) : Prop :=
  (∃ (i : ℕ) (td : ThreadData), s.mThreads[i]? = some td ∧ td.tdata = some p ∧
    PointsToTask s td.tdata ∧
    ∀ j < i, ∀ td', s.mThreads[j]? = some td' → PointsToTask s td'.tdata) ∨
  p ∈ s.mWaitTasks ∧ ∀ td ∈ s.mThreads, PointsToTask s td.tdata

/-- `del` of the task returns 0 without an invalid pointer, and `onMain` is
not called for the task in any run after it. -/
def CancelWorks (s : Pool) (p : ℕ) : Prop :=
  ∃ s' gs, s.del (p + 1) = some (s', 0, gs) ∧
    ∀ as s'' fs sink data, s'.run as = some (s'', fs) → .onMain p sink data ∉ fs

/-! ## The loops of `del` -/

/-- A loop that ends without a match has read every pointer. -/
theorem findTask_none {s : Pool} {taskId : ℤ} {tds : List (Option ℕ)}
    (h : s.findTask taskId tds = some none) : ∀ td ∈ tds, PointsToTask s td := by
  induction tds with
  | nil => exact fun td htd => by cases htd
  | cons td tds ih =>
    obtain ⟨q, t, hq, ht, h⟩ := findTask_cons h
    split at h
    · cases h
    · intro td' htd'
      cases List.mem_cons.mp htd' with
      | inl he => exact he ▸ ⟨q, t, hq, ht⟩
      | inr hm => exact ih h td' hm

/-- A loop that finds a task has read every pointer before it. -/
theorem findTask_before {s : Pool} {taskId : ℤ} {tds : List (Option ℕ)} {p : ℕ}
    (h : s.findTask taskId tds = some (some p)) :
    ∃ i : ℕ, tds[i]? = some (some p) ∧ ∀ j < i, ∀ td, tds[j]? = some td → PointsToTask s td := by
  induction tds with
  | nil => cases h
  | cons td tds ih =>
    obtain ⟨q, t, hq, ht, h⟩ := findTask_cons h
    split at h
    · cases h
      exact ⟨0, congrArg some hq, fun j hj => absurd hj (Nat.not_lt_zero j)⟩
    · obtain ⟨i, hi, hb⟩ := ih h
      refine ⟨i + 1, hi, fun j hj td' htd' => ?_⟩
      cases j with
      | zero =>
        cases htd'
        exact ⟨q, t, hq, ht⟩
      | succ j => exact hb j (Nat.lt_of_succ_lt_succ hj) td' htd'

/-- A loop ends when it reads existing tasks only. -/
theorem findTask_isSome {s : Pool} (taskId : ℤ) {tds : List (Option ℕ)}
    (h : ∀ td ∈ tds, PointsToTask s td) : ∃ o, s.findTask taskId tds = some o := by
  induction tds with
  | nil => exact ⟨none, rfl⟩
  | cons td tds ih =>
    obtain ⟨q, t, rfl, ht⟩ := h td List.mem_cons_self
    obtain ⟨o, ho⟩ := ih fun td' htd' => h td' (List.mem_cons_of_mem _ htd')
    simp only [findTask, ht, ho, Option.bind_eq_bind, Option.bind_some]
    split <;> exact ⟨_, rfl⟩

/-- A loop meets a pointer to the task when it reads existing tasks before it. -/
theorem findTask_reaches {s : Pool} {taskId : ℤ} {tds : List (Option ℕ)} {i p : ℕ} {t : TaskData}
    (hi : tds[i]? = some (some p)) (ht : s.load p = some t) (hid : (t.id : ℤ) = taskId)
    (hb : ∀ j < i, ∀ td, tds[j]? = some td → PointsToTask s td) :
    ∃ q, s.findTask taskId tds = some (some q) := by
  induction tds generalizing i with
  | nil => cases hi
  | cons td tds ih =>
    cases i with
    | zero =>
      cases hi
      simp only [findTask, ht, Option.bind_eq_bind, Option.bind_some, if_pos hid]
      exact ⟨p, rfl⟩
    | succ i =>
      obtain ⟨q, u, rfl, hu⟩ := hb 0 (Nat.succ_pos i) td rfl
      obtain ⟨r, hr⟩ := ih hi fun j hj td' htd' => hb (j + 1) (Nat.succ_lt_succ hj) td' htd'
      simp only [findTask, hu, hr, Option.bind_eq_bind, Option.bind_some]
      split <;> exact ⟨_, rfl⟩

/-- The number of an existing task leads to the task. -/
theorem findTask_unique {s : Pool} {es : List Event} (h : Inv s none es) {p q : ℕ}
    {tds : List (Option ℕ)} (hf : s.findTask (p + 1) tds = some (some q)) :
    q = p ∧ ∃ t, s.load p = some t := by
  obtain ⟨-, t, ht, hid⟩ := findTask_some hf
  have he := h.id q t ht
  have hqp : q = p := by omega
  exact ⟨hqp, t, hqp ▸ ht⟩

/-! ## The condition -/

/-- Where `del` returns 0 the task is cancelled and the condition holds. -/
theorem cancellable_of_del {s s' : Pool} {es gs : List Event} (h : Inv s none es) {p : ℕ}
    (hd : s.del (p + 1) = some (s', 0, gs)) : Cancellable s p := by
  unfold Pool.del at hd
  obtain ⟨o, ho, hd⟩ := Option.bind_eq_some_iff.mp hd
  cases o with
  | some q =>
    obtain ⟨rfl, t, ht⟩ := findTask_unique h ho
    obtain ⟨i, hi, hb⟩ := findTask_before ho
    rw [List.getElem?_map] at hi
    obtain ⟨td, htd, hq⟩ := Option.map_eq_some_iff.mp hi
    refine Or.inl ⟨i, td, htd, hq, ⟨q, t, hq, ht⟩, fun j hj td' htd' => ?_⟩
    refine hb j hj td'.tdata ?_
    rw [List.getElem?_map, htd']
    rfl
  | none =>
    obtain ⟨o, ho', hd⟩ := Option.bind_eq_some_iff.mp hd
    cases o with
    | none => cases hd
    | some q =>
      obtain ⟨rfl, -⟩ := findTask_unique h ho'
      obtain ⟨q', hq', he⟩ := List.mem_map.mp (findTask_some ho').1
      cases he
      exact Or.inr ⟨hq', fun td htd => findTask_none ho _ (List.mem_map_of_mem htd)⟩

/-- Where the condition holds `del` sets the flag of the task. -/
theorem del_of_cancellable {s : Pool} {es : List Event} (h : Inv s none es) {p : ℕ}
    (hc : Cancellable s p) : ∃ s', s.del (p + 1) = some (s', 0, [.cancelled p]) := by
  have hset : ∀ {t}, s.load p = some t → ∃ s', s.setDel p = some s' := by
    intro t ht
    unfold Pool.setDel
    rw [ht]
    exact ⟨_, rfl⟩
  have hslot : ∀ {q}, s.findTask (p + 1) (s.mThreads.map ThreadData.tdata) = some (some q) →
      ∃ s', s.del (p + 1) = some (s', 0, [.cancelled p]) := by
    intro q hq
    obtain ⟨rfl, t, ht⟩ := findTask_unique h hq
    obtain ⟨s', hs'⟩ := hset ht
    refine ⟨s', ?_⟩
    simp only [Pool.del, hq, hs', Option.bind_eq_bind, Option.bind_some, Option.pure_def]
  rcases hc with ⟨i, td, hi, hp, ⟨q, t, hq, ht⟩, hb⟩ | ⟨hw, hall⟩
  · rw [hp] at hq
    cases hq
    have hid : (t.id : ℤ) = p + 1 := by
      have := h.id p t ht
      omega
    have hi' : (s.mThreads.map ThreadData.tdata)[i]? = some (some p) := by
      rw [List.getElem?_map, hi, ← hp]
      rfl
    obtain ⟨q, hq⟩ := findTask_reaches hi' ht hid fun j hj td' htd' => by
      rw [List.getElem?_map] at htd'
      obtain ⟨td'', ht'', rfl⟩ := Option.map_eq_some_iff.mp htd'
      exact hb j hj td'' ht''
    exact hslot hq
  · obtain ⟨o, ho⟩ := @findTask_isSome s (p + 1) (s.mThreads.map ThreadData.tdata)
      fun td' htd' => by
        obtain ⟨td, htd, rfl⟩ := List.mem_map.mp htd'
        exact hall td htd
    cases o with
    | some q => exact hslot ho
    | none =>
      have hload : ∀ q ∈ s.mWaitTasks, ∃ t, s.load q = some t :=
        fun q hq => h.load_of_placed (List.mem_append_left _ hq)
      obtain ⟨i, hi⟩ := List.getElem?_of_mem (List.mem_map_of_mem (f := some) hw)
      obtain ⟨t, ht⟩ := hload p hw
      have hid : (t.id : ℤ) = p + 1 := by
        have := h.id p t ht
        omega
      obtain ⟨q, hq⟩ := findTask_reaches hi ht hid fun j _ td' htd' => by
        obtain ⟨q, hq, rfl⟩ := List.mem_map.mp (List.mem_of_getElem? htd')
        obtain ⟨u, hu⟩ := hload q hq
        exact ⟨q, u, rfl, hu⟩
      obtain ⟨rfl, -⟩ := findTask_unique h hq
      obtain ⟨s', hs'⟩ := hset ht
      refine ⟨s', ?_⟩
      simp only [Pool.del, ho, hq, hs', Option.bind_eq_bind, Option.bind_some, Option.pure_def]

/-- A cancelled task is never delivered any more. -/
theorem not_delivered {s s' : Pool} {es fs : List Event} (h : Inv s none es) {p : ℕ}
    (hc : .cancelled p ∈ es) {as : List Action} (hs : s.run as = some (s', fs)) (sink data : ℕ) :
    .onMain p sink data ∉ fs := by
  intro hm
  obtain ⟨f₁, f₂, rfl⟩ := List.append_of_mem hm
  have ho := (h.run hs).once.2 (es ++ f₁) p sink data f₂ (List.append_assoc _ _ _).symm
  exact ho.2 (List.mem_append_left f₁ hc)

/-- In every reachable state a task can be cancelled if and only if the slots
read by `del` allow it. -/
theorem cancelWorks_iff {as : List Action} {s : Pool} {es : List Event}
    (h : Pool.new.run as = some (s, es)) (p : ℕ) : CancelWorks s p ↔ Cancellable s p := by
  have hinv := inv_new.run h
  rw [List.nil_append] at hinv
  constructor
  · rintro ⟨s', gs, hd, -⟩
    exact cancellable_of_del hinv hd
  · intro hc
    obtain ⟨s', hd⟩ := del_of_cancellable hinv hc
    refine ⟨s', _, hd, fun as' s'' fs sink data hr => ?_⟩
    have hcall : s.call (.del (p + 1)) = some (s', [.cancelled p]) := by
      simp only [Pool.call, hd, Option.map_some]
    exact not_delivered (hinv.call hcall) (List.mem_append_right _ (List.mem_singleton_self _))
      hr sink data

/-- A task handed to the only worker. -/
def handedToWorker : List Action :=
  [.call (.init 1), .call (.add (some 7) 0 false), .onThread 0 0,
    .handleEvents 0 (fun _ => 0) fun _ => []]

/-- A task handed to a worker can be cancelled. -/
theorem cancelWorks_handedToWorker : ∃ s es, Pool.new.run handedToWorker = some (s, es) ∧
    CancelWorks s 0 :=
  ⟨_, _, rfl, (@cancelWorks_iff handedToWorker _ _ rfl 0).mpr
    (Or.inl ⟨0, _, rfl, rfl, ⟨0, _, rfl, rfl⟩, fun _ hj => absurd hj (Nat.not_lt_zero _)⟩)⟩

/-- A task added before the only worker had one. -/
def addedFirst : List Action := [.call (.init 1), .call (.add (some 7) 0 false)]

/-- The added task waits and is not delivered, but `del` of it dereferences
the null pointer of the slot. -/
theorem not_cancelWorks_addedFirst : ∃ s es, Pool.new.run addedFirst = some (s, es) ∧
    0 < s.heap.length ∧ 0 ∉ mainTasks es ∧ s.del 1 = none ∧ ¬ CancelWorks s 0 := by
  refine ⟨_, _, rfl, by decide, by decide, rfl, ?_⟩
  rintro ⟨s', gs, hd, -⟩
  cases hd

end CdroidDemo.TaskCancellation
