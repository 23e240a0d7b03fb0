import CdroidDemo.FairRounds
import Mathlib.Algebra.Ring.Nat
import CdroidDemo.TaskConservation

/-!
# The pool comes to rest

While no calls are made and `onTask` returns 0, every action of the main
thread or a worker leaves the pool as it is or brings some task one stage
further. When all of them act often enough every task is removed, and
delivered before that unless it was cancelled.
-/

namespace CdroidDemo.TaskDraining

open ThreadPool ThreadPool.Pool TaskConservation FairRounds

/-! ## The work that is left -/

/-- The stages that the task of a worker, or its start, has ahead of it. -/
def ahead (td : ThreadData) : ℕ :=
  match td.status with
  | .null => 1
  | .busy => if td.onTask then 2 else 3
  | .idle | .over => 0

/-- The stages that all tasks have ahead of them. -/
def stages (s : Pool) : ℕ :=
  4 * s.mWaitTasks.length + (s.mThreads.map ahead).sum + s.mMainTasks.length

/-- Nothing happens, or some task comes further. -/
def Further (s s' : Pool) (gs : List Event) : Prop :=
  (s' = s ∧ gs = []) ∨ stages s' < stages s

/-- Nothing done brings the tasks no further. -/
theorem further_refl (s : Pool) : Further s s [] := Or.inl ⟨rfl, rfl⟩

/-- Two stretches bring the tasks further one after the other. -/
theorem Further.trans {s₁ s₂ s₃ : Pool} {es gs : List Event} (h : Further s₁ s₂ es)
    (h' : Further s₂ s₃ gs) : Further s₁ s₃ (es ++ gs) := by
  rcases h with ⟨rfl, rfl⟩ | h
  · exact h'
  · rcases h' with ⟨rfl, rfl⟩ | h'
    · exact Or.inr h
    · exact Or.inr (h'.trans h)

/-- No stretch takes a task back. -/
theorem Further.le {s s' : Pool} {gs : List Event} (h : Further s s' gs) : stages s' ≤ stages s := by
  rcases h with ⟨rfl, -⟩ | h
  · exact Nat.le_refl _
  · exact h.le

/-- One slot is replaced. -/
theorem sum_set {l : List ThreadData} {i : ℕ} {td : ThreadData} (hi : l[i]? = some td)
    (td' : ThreadData) :
    ((l.set i td').map ahead).sum + ahead td = (l.map ahead).sum + ahead td' := by
  induction l generalizing i with
  | nil => cases hi
  | cons x l ih =>
    cases i with
    | zero =>
      cases hi
      simp only [List.set_cons_zero, List.map_cons, List.sum_cons]
      omega
    | succ i =>
      have hr := ih (i := i) hi
      simp only [List.set_cons_succ, List.map_cons, List.sum_cons]
      omega

/-! ## Actions of the main thread -/

/-- Handing over brings the waiting tasks to idle workers. -/
theorem handOver_further {s : Pool} {wait : List ℕ} (hw : s.mWaitTasks = wait) :
    Further s (s.handOver wait).1 (s.handOver wait).2 ∧
      (s.handOver wait).1.mMainTasks = s.mMainTasks ∧
      (wait ≠ [] → (s.getIdle).isSome → stages (s.handOver wait).1 < stages s) := by
  induction wait generalizing s with
  | nil => exact ⟨further_refl s, rfl, fun h => absurd rfl h⟩
  | cons p rest ih =>
    unfold handOver
    cases hi : s.getIdle with
    | none => exact ⟨further_refl s, rfl, fun _ h => absurd h (by simp)⟩
    | some i =>
      obtain ⟨td, htd, hst⟩ := getIdle_some hi
      obtain ⟨hf, hm, -⟩ := ih (s := s.give p i rest) rfl
      have hgive : stages (s.give p i rest) < stages s := by
        have hsum := sum_set htd ⟨.busy, some p, false⟩
        have hold : ahead td = 0 := by rw [ahead, hst]
        have hnew : ahead ⟨.busy, some p, false⟩ = 3 := rfl
        unfold stages give
        rw [hw, List.length_cons]
        dsimp only
        omega
      have hless := hf.le.trans_lt hgive
      exact ⟨Or.inr hless, hm, fun _ _ => hless⟩

/-- The round of one completed task takes it from the list. -/
theorem finish_stages {s s' : Pool} {p : ℕ} {rest : List ℕ} {gs : List Event}
    (hm : s.mMainTasks = p :: rest) (hs : s.finish p = some (s', gs)) : stages s' < stages s := by
  obtain ⟨t, -, hs⟩ := Option.bind_eq_some_iff.mp hs
  cases hs
  unfold stages free
  rw [hm, List.length_cons]
  dsimp only [List.tail_cons]
  omega

/-- `onMain` without calls of its own leaves the pool alone. -/
theorem deliver_quiet {s s' : Pool} {p : ℕ} {gs : List Event}
    (hs : s.deliver p [] = some (s', gs)) : s' = s := by
  obtain ⟨t, -, hs⟩ := Option.bind_eq_some_iff.mp hs
  split at hs
  · cases hs
    rfl
  · cases hs
    rfl

/-- What every round over a completed task keeps holds behind all rounds. -/
theorem deliverAll_rounds {P : Pool → List Event → Prop} {startTime : ℤ} {clock : ℕ → ℤ}
    {cs : ℕ → List Call}
    (hround : ∀ s es p i s₁ es₁ s₂ es₂, P s es → s.mMainTasks.head? = some p →
      s.deliver p (cs i) = some (s₁, es₁) → s₁.finish p = some (s₂, es₂) → P s₂ (es ++ es₁ ++ es₂))
    {s s' : Pool} {es gs : List Event} (h : P s es) {i n : ℕ}
    (hs : s.deliverAll startTime clock cs i n = some (s', gs)) : P s' (es ++ gs) := by
  induction n generalizing s es gs i with
  | zero =>
    cases hs
    rw [List.append_nil]
    exact h
  | succ n ih =>
    unfold deliverAll at hs
    cases hm : s.mMainTasks with
    | nil =>
      rw [hm] at hs
      cases hs
      rw [List.append_nil]
      exact h
    | cons p rest =>
      rw [hm] at hs
      dsimp only at hs
      obtain ⟨⟨s₁, es₁⟩, h₁, hs⟩ := Option.bind_eq_some_iff.mp hs
      obtain ⟨⟨s₂, es₂⟩, h₂, hs⟩ := Option.bind_eq_some_iff.mp hs
      have hnext := hround s es p i s₁ es₁ s₂ es₂ h (by rw [hm]; rfl) h₁ h₂
      split at hs
      · cases hs
        rw [← List.append_assoc]
        exact hnext
      · obtain ⟨⟨s₃, es₃⟩, h₃, hs⟩ := Option.bind_eq_some_iff.mp hs
        cases hs
        have hr := ih hnext h₃
        rwa [List.append_assoc, List.append_assoc, ← List.append_assoc es₁] at hr

/-- The deliveries bring the waiting tasks further. -/
theorem deliverAll_further {s s' : Pool} {startTime : ℤ} {clock : ℕ → ℤ} {cs : ℕ → List Call}
    (hcs : ∀ i, cs i = []) {i n : ℕ} {gs : List Event}
    (hs : s.deliverAll startTime clock cs i n = some (s', gs)) :
    Further s s' gs ∧ (s.mMainTasks ≠ [] → 0 < n → stages s' < stages s) := by
  induction n generalizing s gs i with
  | zero =>
    cases hs
    exact ⟨further_refl _, fun _ h => absurd h (lt_irrefl 0)⟩
  | succ n ih =>
    unfold deliverAll at hs
    cases hm : s.mMainTasks with
    | nil =>
      rw [hm] at hs
      cases hs
      exact ⟨further_refl _, fun h => absurd rfl h⟩
    | cons p rest =>
      rw [hm] at hs
      dsimp only at hs
      obtain ⟨⟨s₁, es₁⟩, h₁, hs⟩ := Option.bind_eq_some_iff.mp hs
      obtain ⟨⟨s₂, es₂⟩, h₂, hs⟩ := Option.bind_eq_some_iff.mp hs
      rw [hcs i] at h₁
      have hs₁ : s₁ = s := deliver_quiet h₁
      rw [hs₁] at h₂
      have hless := finish_stages hm h₂
      suffices h : stages s' < stages s from ⟨Or.inr h, fun _ _ => h⟩
      split at hs
      · cases hs
        exact hless
      · obtain ⟨⟨s₃, es₃⟩, h₃, hs⟩ := Option.bind_eq_some_iff.mp hs
        cases hs
        exact (ih h₃).1.le.trans_lt hless

/-- `handleEvents` brings tasks further when some are completed, or wait while
a worker is idle. -/
theorem handleEvents_further {s s' : Pool} {startTime : ℤ} {clock : ℕ → ℤ} {cs : ℕ → List Call}
    (hcs : ∀ i, cs i = []) {gs : List Event}
    (hs : s.handleEvents startTime clock cs = some (s', gs)) :
    Further s s' gs ∧
      ((s.mMainTasks ≠ [] ∨ (s.mWaitTasks ≠ [] ∧ (s.getIdle).isSome)) → stages s' < stages s) := by
  obtain ⟨⟨s₁, es₁⟩, h₁, hs⟩ := Option.bind_eq_some_iff.mp hs
  cases hs
  obtain ⟨hf, hm, hgo⟩ := handOver_further (s := s) rfl
  obtain ⟨hf', hgo'⟩ := deliverAll_further hcs h₁
  refine ⟨hf.trans hf', fun h => ?_⟩
  rcases h with h | ⟨hw, hi⟩
  · exact (hgo' (hm ▸ h) (by decide)).trans_le hf.le
  · exact hf'.le.trans_lt (hgo hw hi)

/-! ## Actions of a worker -/

/-- All that an action of worker `i` can be. -/
inductive Worked (s : Pool) (i : ℕ) (ret : ℤ) : Pool → List Event → Prop
  /-- There is nothing to do. -/
  | rest (h : ∀ td, s.mThreads[i]? = some td → ahead td = 0) : Worked s i ret s []
  /-- The thread starts. -/
  | start {td : ThreadData} (hi : s.mThreads[i]? = some td) (hst : td.status = .null) :
      Worked s i ret {s with mThreads := s.mThreads.set i ⟨.idle, td.tdata, td.onTask⟩} []
  /-- `onTask` is called. -/
  | call {td : ThreadData} {p : ℕ} {t : TaskData} (hi : s.mThreads[i]? = some td)
      (hw : ahead td = 3) :
      Worked s i ret {s with mThreads := s.mThreads.set i ⟨.busy, td.tdata, true⟩}
        [.onTask p t.sink t.data]
  /-- `onTask` is to be called again. -/
  | again {td : ThreadData} {p : ℕ} (hi : s.mThreads[i]? = some td) (hret : ret ≠ 0) :
      Worked s i ret {s with mThreads := s.mThreads.set i ⟨.busy, td.tdata, false⟩}
        [.returned p ret]
  /-- The task is done or cancelled. -/
  | complete {td : ThreadData} {p : ℕ} {gs : List Event} (hi : s.mThreads[i]? = some td)
      (hw : 2 ≤ ahead td) (hg : gs = [] ∨ gs = [.returned p ret]) :
      Worked s i ret (s.complete i p) gs

/-- What a worker does in a turn is one of these. -/
theorem onThread_worked {s s' : Pool} {i : ℕ} {ret : ℤ} {gs : List Event}
    (hs : s.onThread i ret = some (s', gs)) : Worked s i ret s' gs := by
  unfold onThread at hs
  cases hi : s.mThreads[i]? with
  | none =>
    rw [hi] at hs
    cases hs
    exact Worked.rest fun td h => by rw [hi] at h; cases h
  | some td =>
    rw [hi] at hs
    dsimp only at hs
    have hrest : ahead td = 0 → ∀ td', s.mThreads[i]? = some td' → ahead td' = 0 := by
      intro hw td' h
      rw [hi] at h
      cases h
      exact hw
    cases hst : td.status with
    | null =>
      rw [hst] at hs
      cases hs
      exact Worked.start hi hst
    | idle =>
      rw [hst] at hs
      cases hs
      exact Worked.rest (hrest (by rw [ahead, hst]))
    | «over» =>
      rw [hst] at hs
      cases hs
      exact Worked.rest (hrest (by rw [ahead, hst]))
    | busy =>
      rw [hst] at hs
      dsimp only at hs
      obtain ⟨p, -, hs⟩ := Option.bind_eq_some_iff.mp hs
      obtain ⟨t, -, hs⟩ := Option.bind_eq_some_iff.mp hs
      have hw : ahead td = if td.onTask then 2 else 3 := by rw [ahead, hst]
      split at hs
      · rename_i hon
        rw [if_pos hon] at hw
        split at hs
        · cases hs
          exact Worked.complete hi hw.ge (Or.inr rfl)
        · rename_i hret
          cases hs
          exact Worked.again hi hret
      · rename_i hoff
        rw [if_neg hoff] at hw
        split at hs
        · cases hs
          exact Worked.complete (p := p) hi (by omega) (Or.inl rfl)
        · cases hs
          exact Worked.call hi hw

/-- A worker with stages ahead brings its task further. -/
theorem onThread_further {s s' : Pool} {i : ℕ} {gs : List Event}
    (hs : s.onThread i 0 = some (s', gs)) :
    Further s s' gs ∧ ∀ td, s.mThreads[i]? = some td → 0 < ahead td → stages s' < stages s := by
  have hless : stages s' < stages s → Further s s' gs ∧
      ∀ td, s.mThreads[i]? = some td → 0 < ahead td → stages s' < stages s :=
    fun h => ⟨Or.inr h, fun _ _ _ => h⟩
  cases onThread_worked hs with
  | rest h => exact ⟨further_refl s, fun td htd hw => absurd (h td htd) (by omega)⟩
  | @start td hi hst =>
    have hsum := sum_set hi ⟨.idle, td.tdata, td.onTask⟩
    have hold : ahead td = 1 := by rw [ahead, hst]
    have hnew : ahead ⟨.idle, td.tdata, td.onTask⟩ = 0 := rfl
    refine hless ?_
    unfold stages
    dsimp only
    omega
  | @call td p t hi hw =>
    have hsum := sum_set hi ⟨.busy, td.tdata, true⟩
    have hnew : ahead ⟨.busy, td.tdata, true⟩ = 2 := rfl
    refine hless ?_
    unfold stages
    dsimp only
    omega
  | again hi hret => exact absurd rfl hret
  | @complete td p gs hi hw hg =>
    have hsum := sum_set hi ⟨.idle, some p, false⟩
    have hnew : ahead ⟨.idle, some p, false⟩ = 0 := rfl
    refine hless ?_
    unfold stages complete
    rw [List.length_append, List.length_singleton]
    dsimp only
    omega

/-! ## Workers that are there -/

/-- `init` has made workers, and none of them has ended. -/
structure Started (s : Pool) : Prop where
  /-- A pool that was started has a worker. -/
  workers : s.mIsInit = true → s.mThreads ≠ []
  /-- No worker is over. -/
  alive : ∀ td ∈ s.mThreads, td.status ≠ .over

/-- Being started depends on the flag and the threads only. -/
theorem Started.same {s s' : Pool} (h : Started s) (hi : s'.mIsInit = s.mIsInit)
    (ht : s'.mThreads = s.mThreads) : Started s' :=
  ⟨by rw [hi, ht]; exact h.workers, by rw [ht]; exact h.alive⟩

/-- A thread that is not over keeps the pool started. -/
theorem Started.set {s s' : Pool} (h : Started s) (hi : s'.mIsInit = s.mIsInit) {i : ℕ}
    {td : ThreadData} (ht : s'.mThreads = s.mThreads.set i td) (htd : td.status ≠ .over) :
    Started s' := by
  refine ⟨fun hinit hnil => ?_, fun td' hmem => ?_⟩
  · rw [ht, List.set_eq_nil_iff] at hnil
    exact h.workers (hi ▸ hinit) hnil
  · rw [ht] at hmem
    rcases List.mem_or_eq_of_mem_set hmem with hold | rfl
    · exact h.alive td' hold
    · exact htd

/-- A cancellation keeps the pool started. -/
theorem Started.setDel {s s' : Pool} {p : ℕ} (h : Started s) (hs : s.setDel p = some s') :
    Started s' := by
  obtain ⟨t, -, rfl⟩ := setDel_eq hs
  exact h.same rfl rfl

/-- A call keeps the pool started. -/
theorem Started.call {s s' : Pool} {c : Call} {gs : List Event} (h : Started s)
    (hs : s.call c = some (s', gs)) : Started s' := by
  cases c with
  | init count =>
    cases hs
    unfold Pool.init
    split
    · exact h
    · refine ⟨fun _ hnil => ?_, fun td hmem => ?_⟩
      · dsimp only at hnil
        have hlen := congrArg List.length hnil
        rw [List.length_append, List.length_replicate, List.length_nil] at hlen
        split at hlen <;> omega
      · rcases List.mem_append.mp hmem with hold | hnew
        · exact h.alive td hold
        · rw [List.eq_of_mem_replicate hnew]
          exact nofun
  | add sink data isRecycle =>
    cases hs
    unfold Pool.add
    cases sink with
    | none => exact h
    | some sink => exact h.same rfl rfl
  | del taskId =>
    obtain ⟨⟨s₁, ret, es⟩, hd, he⟩ := Option.map_eq_some_iff.mp hs
    cases he
    rcases del_cases hd with ⟨rfl, -, -⟩ | ⟨p, hp, -, -⟩
    · exact h
    · exact h.setDel hp
  | cancel p =>
    unfold Pool.call at hs
    cases hp : s.setDel p with
    | none =>
      dsimp only at hs
      rw [hp] at hs
      cases hs
      exact h
    | some s₁ =>
      dsimp only at hs
      rw [hp] at hs
      cases hs
      exact h.setDel hp

/-- Calls keep the pool started. -/
theorem Started.calls {s s' : Pool} {cs : List Call} {gs : List Event} (h : Started s)
    (hs : s.calls cs = some (s', gs)) : Started s' := by
  induction cs generalizing s gs with
  | nil =>
    cases hs
    exact h
  | cons c cs ih =>
    obtain ⟨⟨s₁, es₁⟩, h₁, hs⟩ := Option.bind_eq_some_iff.mp hs
    obtain ⟨⟨s₂, es₂⟩, h₂, hs⟩ := Option.bind_eq_some_iff.mp hs
    cases hs
    exact ih (h.call h₁) h₂

/-- Handing over keeps the pool started. -/
theorem Started.handOver {s : Pool} (h : Started s) (wait : List ℕ) :
    Started (s.handOver wait).1 := by
  induction wait generalizing s with
  | nil => exact h
  | cons p rest ih =>
    unfold Pool.handOver
    cases s.getIdle with
    | none => exact h
    | some i => exact ih (@Started.set s (s.give p i rest) h rfl i _ rfl (by simp))

/-- The deliveries keep the pool started. -/
theorem Started.deliverAll {s s' : Pool} (h : Started s) {startTime : ℤ} {clock : ℕ → ℤ}
    {cs : ℕ → List Call} {i n : ℕ} {gs : List Event}
    (hs : s.deliverAll startTime clock cs i n = some (s', gs)) : Started s' := by
  refine @deliverAll_rounds (fun s _ => Started s) startTime clock cs ?_ s s' [] gs h i n hs
  intro s es p i s₁ es₁ s₂ es₂ h _ h₁ h₂
  have hs₁ : Started s₁ := by
    obtain ⟨t, -, h₁⟩ := Option.bind_eq_some_iff.mp h₁
    split at h₁
    · cases h₁
      exact h
    · obtain ⟨⟨s₃, es₃⟩, h₃, h₁⟩ := Option.bind_eq_some_iff.mp h₁
      cases h₁
      exact h.calls h₃
  obtain ⟨t, -, h₂⟩ := Option.bind_eq_some_iff.mp h₂
  cases h₂
  exact hs₁.same rfl rfl

/-- A turn of a thread keeps the pool started. -/
theorem Started.onThread {s s' : Pool} (h : Started s) {i : ℕ} {ret : ℤ} {gs : List Event}
    (hs : s.onThread i ret = some (s', gs)) : Started s' := by
  cases onThread_worked hs with
  | rest _ => exact h
  | start _ _ => exact h.set (i := i) rfl rfl (by simp)
  | call _ _ => exact h.set (i := i) rfl rfl (by simp)
  | again _ _ => exact h.set (i := i) rfl rfl (by simp)
  | @complete td p gs _ _ _ => exact @Started.set s (s.complete i p) h rfl i _ rfl (by simp)

/-- Every step keeps the pool started. -/
theorem Started.step {s s' : Pool} (h : Started s) {a : Action} {gs : List Event}
    (hs : s.step a = some (s', gs)) : Started s' := by
  cases a with
  | call c => exact h.call hs
  | handleEvents startTime clock cs =>
    obtain ⟨⟨s₁, es₁⟩, h₁, hs⟩ := Option.bind_eq_some_iff.mp hs
    cases hs
    exact (h.handOver _).deliverAll h₁
  | onThread i ret => exact h.onThread hs

/-! ## Removed tasks -/

/-- A task that has been removed was delivered, or cancelled. -/
def Settled (es : List Event) : Prop :=
  ∀ p ∈ finishedTasks es, p ∈ mainTasks es ∨ .cancelled p ∈ es

/-- Events that remove nothing. -/
theorem Settled.append {es gs : List Event} (h : Settled es) (hg : finishedTasks gs = []) :
    Settled (es ++ gs) := by
  intro p hp
  rw [finishedTasks_append, hg, List.append_nil] at hp
  rw [mainTasks_append]
  exact (h p hp).imp (List.mem_append_left _) (List.mem_append_left _)

/-- A call removes no task. -/
theorem call_finished {s s' : Pool} {c : Call} {gs : List Event} (hs : s.call c = some (s', gs)) :
    finishedTasks gs = [] := by
  cases c with
  | init count => cases hs; rfl
  | add sink data isRecycle => cases hs; rfl
  | del taskId =>
    obtain ⟨⟨s₁, ret, es⟩, hd, he⟩ := Option.map_eq_some_iff.mp hs
    cases he
    rcases del_cases hd with ⟨-, -, rfl⟩ | ⟨p, -, -, rfl⟩
    · rfl
    · rfl
  | cancel p =>
    unfold Pool.call at hs
    dsimp only at hs
    cases hp : s.setDel p with
    | none => rw [hp] at hs; cases hs; rfl
    | some s₁ => rw [hp] at hs; cases hs; rfl

/-- Calls remove no task. -/
theorem calls_finished {s s' : Pool} {cs : List Call} {gs : List Event}
    (hs : s.calls cs = some (s', gs)) : finishedTasks gs = [] := by
  induction cs generalizing s gs with
  | nil =>
    cases hs
    rfl
  | cons c cs ih =>
    obtain ⟨⟨s₁, es₁⟩, h₁, hs⟩ := Option.bind_eq_some_iff.mp hs
    obtain ⟨⟨s₂, es₂⟩, h₂, hs⟩ := Option.bind_eq_some_iff.mp hs
    cases hs
    rw [finishedTasks_append, call_finished h₁, ih h₂, List.nil_append]

/-- Handing over removes no task. -/
theorem handOver_finished (s : Pool) (wait : List ℕ) : finishedTasks (s.handOver wait).2 = [] := by
  induction wait generalizing s with
  | nil => rfl
  | cons p rest ih =>
    unfold Pool.handOver
    cases s.getIdle with
    | none => rfl
    | some i => exact ih (s.give p i rest)

/-- The task whose round ends was delivered in it, or cancelled before. -/
theorem Settled.finish {s s₁ s₂ : Pool} {es es₁ es₂ : List Event} (h : Settled es)
    (hi : Inv s none es) {p : ℕ} {cs : List Call} (h₁ : s.deliver p cs = some (s₁, es₁))
    (h₂ : s₁.finish p = some (s₂, es₂)) : Settled (es ++ es₁ ++ es₂) := by
  obtain ⟨t, ht, h₁⟩ := Option.bind_eq_some_iff.mp h₁
  obtain ⟨t', -, h₂⟩ := Option.bind_eq_some_iff.mp h₂
  cases h₂
  have hp : p ∈ mainTasks (es ++ es₁) ∨ .cancelled p ∈ es ++ es₁ := by
    split at h₁
    · rename_i hd
      exact Or.inr (List.mem_append_left _ ((hi.isDel p t ht).mp hd))
    · obtain ⟨⟨s₃, es₃⟩, -, h₁⟩ := Option.bind_eq_some_iff.mp h₁
      cases h₁
      rw [mainTasks_append]
      exact Or.inl (List.mem_append_right _ List.mem_cons_self)
  have hquiet : finishedTasks es₁ = [] := by
    split at h₁
    · cases h₁
      rfl
    · obtain ⟨⟨s₃, es₃⟩, h₃, h₁⟩ := Option.bind_eq_some_iff.mp h₁
      cases h₁
      exact (List.filterMap_cons_none rfl).trans (calls_finished h₃)
  have hold := h.append hquiet
  intro q hq
  rw [finishedTasks_append] at hq
  rw [mainTasks_append]
  rcases List.mem_append.mp hq with hq | hq
  · exact (hold q hq).imp (List.mem_append_left _) (List.mem_append_left _)
  · obtain rfl : q = p := List.mem_singleton.mp hq
    exact hp.imp (List.mem_append_left _) (List.mem_append_left _)

/-- The deliveries remove what they delivered, or what was cancelled. -/
theorem Settled.deliverAll {s s' : Pool} {es gs : List Event} (h : Settled es)
    (hi : Inv s none es) {startTime : ℤ} {clock : ℕ → ℤ} {cs : ℕ → List Call} {i n : ℕ}
    (hs : s.deliverAll startTime clock cs i n = some (s', gs)) : Settled (es ++ gs) := by
  refine (deliverAll_rounds (P := fun s es => Settled es ∧ Inv s none es) ?_ ⟨h, hi⟩ hs).1
  intro s es p i s₁ es₁ s₂ es₂ h hm h₁ h₂
  obtain ⟨cur, hc, hi₁, hm'⟩ := h.2.deliver hm h₁
  exact ⟨h.1.finish h.2 h₁ h₂, hi₁.finish hc hm' h₂⟩

/-- A turn of a worker removes no task. -/
theorem onThread_finished {s s' : Pool} {i : ℕ} {ret : ℤ} {gs : List Event}
    (hs : s.onThread i ret = some (s', gs)) : finishedTasks gs = [] := by
  cases onThread_worked hs with
  | rest _ => rfl
  | start _ _ => rfl
  | call _ _ => rfl
  | again _ _ => rfl
  | complete _ _ hg => rcases hg with rfl | rfl <;> rfl

/-- A step removes what was delivered, or cancelled. -/
theorem Settled.step {s s' : Pool} {es gs : List Event} (h : Settled es) (hi : Inv s none es)
    {a : Action} (hs : s.step a = some (s', gs)) : Settled (es ++ gs) := by
  cases a with
  | call c => exact h.append (call_finished hs)
  | handleEvents startTime clock cs =>
    obtain ⟨⟨s₁, es₁⟩, h₁, hs⟩ := Option.bind_eq_some_iff.mp hs
    cases hs
    rw [← List.append_assoc]
    exact (h.append (handOver_finished s s.mWaitTasks)).deliverAll (hi.handOver rfl) h₁
  | onThread i ret => exact h.append (onThread_finished hs)

/-! ## Actions without calls -/

/-- No calls are made, and `onTask` returns 0. -/
def Quiet : Action → Prop
  | .call _ => False
  | .handleEvents _ _ cs => ∀ i, cs i = []
  | .onThread _ ret => ret = 0

/-- The worker of an action, none for the main thread. -/
def party : Action → Option ℕ
  | .onThread i _ => some i
  | _ => none

/-- The main thread and the workers. -/
def Parties (n : ℕ) (p : Option ℕ) : Prop := ∀ i ∈ p, i < n

/-- The memory and the workers stay the same in number. -/
structure Level (s s' : Pool) : Prop where
  /-- The pool stays started or not. -/
  init : s'.mIsInit = s.mIsInit
  /-- No task is allocated. -/
  heap : s'.heap.length = s.heap.length
  /-- No worker comes or goes. -/
  threads : s'.mThreads.length = s.mThreads.length

/-- Handing over neither adds a task nor ends a worker. -/
theorem level_handOver (s : Pool) (wait : List ℕ) : Level s (s.handOver wait).1 := by
  induction wait generalizing s with
  | nil => exact ⟨rfl, rfl, rfl⟩
  | cons p rest ih =>
    unfold Pool.handOver
    cases s.getIdle with
    | none => exact ⟨rfl, rfl, rfl⟩
    | some i =>
      obtain ⟨h₁, h₂, h₃⟩ := ih (s.give p i rest)
      exact ⟨h₁, h₂, h₃.trans List.length_set⟩

/-- Deliveries without calls neither add a task nor end a worker. -/
theorem level_deliverAll {s s' : Pool} {startTime : ℤ} {clock : ℕ → ℤ} {cs : ℕ → List Call}
    (hcs : ∀ i, cs i = []) {i n : ℕ} {gs : List Event}
    (hs : s.deliverAll startTime clock cs i n = some (s', gs)) : Level s s' := by
  refine @deliverAll_rounds (fun s' _ => Level s s') startTime clock cs ?_ s s' [] gs
    ⟨rfl, rfl, rfl⟩ i n hs
  intro s₀ es p i s₁ es₁ s₂ es₂ h _ h₁ h₂
  rw [hcs i] at h₁
  rw [deliver_quiet h₁] at h₂
  obtain ⟨t, -, h₂⟩ := Option.bind_eq_some_iff.mp h₂
  cases h₂
  exact ⟨h.init, List.length_set.trans h.heap, h.threads⟩

/-- A turn of a worker neither adds a task nor ends a worker. -/
theorem level_onThread {s s' : Pool} {i : ℕ} {ret : ℤ} {gs : List Event}
    (hs : s.onThread i ret = some (s', gs)) : Level s s' := by
  cases onThread_worked hs with
  | rest _ => exact ⟨rfl, rfl, rfl⟩
  | start _ _ => exact ⟨rfl, rfl, List.length_set⟩
  | call _ _ => exact ⟨rfl, rfl, List.length_set⟩
  | again _ _ => exact ⟨rfl, rfl, List.length_set⟩
  | complete _ _ _ => exact ⟨rfl, rfl, List.length_set⟩

/-! ## Coming to rest -/

/-- The pool with all that was seen of it, `n` workers and `m` tasks. -/
structure Going (n m : ℕ) (x : Pool × List Event) : Prop where
  /-- The invariant of the pool. -/
  inv : Inv x.1 none x.2
  /-- Its workers are alive. -/
  started : Started x.1
  /-- Removed tasks were delivered or cancelled. -/
  settled : Settled x.2
  /-- The pool was started. -/
  init : x.1.mIsInit = true
  /-- It has `n` workers. -/
  threads : x.1.mThreads.length = n
  /-- It has seen `m` tasks. -/
  heap : x.1.heap.length = m

/-- One action, with what is seen of it. -/
def Acts (x : Pool × List Event) (a : Action) (x' : Pool × List Event) : Prop :=
  ∃ gs, x.1.step a = some (x'.1, gs) ∧ x'.2 = x.2 ++ gs

/-- The work of a state. -/
def left (x : Pool × List Event) : ℕ := stages x.1

/-- A quiet action neither adds a task nor takes one back. -/
theorem quiet_level {s s' : Pool} {a : Action} (ha : Quiet a) {gs : List Event}
    (hs : s.step a = some (s', gs)) : Level s s' ∧ Further s s' gs := by
  cases a with
  | call c => exact ha.elim
  | handleEvents startTime clock cs =>
    refine ⟨?_, (handleEvents_further ha hs).1⟩
    obtain ⟨⟨s₁, es₁⟩, h₁, hs⟩ := Option.bind_eq_some_iff.mp hs
    cases hs
    have hl := level_handOver s s.mWaitTasks
    have hl' := level_deliverAll ha h₁
    exact ⟨hl'.init.trans hl.init, hl'.heap.trans hl.heap, hl'.threads.trans hl.threads⟩
  | onThread i ret =>
    obtain rfl : ret = 0 := ha
    exact ⟨level_onThread hs, (onThread_further hs).1⟩

/-- The work left settles under quiet actions. -/
theorem going_settling (n m : ℕ) : Settling Acts (Going n m) Quiet left := by
  rintro ⟨s, es⟩ a ⟨s', es'⟩ hg ha ⟨gs, hs, he⟩
  obtain ⟨hl, hf⟩ := quiet_level ha hs
  dsimp only at hs he
  subst he
  refine ⟨⟨hg.inv.step hs, hg.started.step hs, hg.settled.step hg.inv hs, hl.init.trans hg.init,
    hl.threads.trans hg.threads, hl.heap.trans hg.heap⟩, ?_⟩
  rcases hf with ⟨rfl, rfl⟩ | hless
  · exact Or.inl (by rw [List.append_nil])
  · exact Or.inr hless

/-- A worker that has stages ahead of it is found among the workers. -/
theorem exists_busy {ths : List ThreadData} (h : 0 < (ths.map ahead).sum) :
    ∃ (i : ℕ) (td : ThreadData), ths[i]? = some td ∧ 0 < ahead td := by
  obtain ⟨w, hmem, hw⟩ := List.sum_pos_iff_exists_pos_nat.mp h
  obtain ⟨td, htd, rfl⟩ := List.mem_map.mp hmem
  obtain ⟨i, hi⟩ := List.getElem?_of_mem htd
  exact ⟨i, td, hi, hw⟩

/-- A worker with nothing ahead of it is idle. -/
theorem idle_of_ahead {s : Pool} (h : Started s) {td : ThreadData} (hmem : td ∈ s.mThreads)
    (hw : ahead td = 0) : td.status = .idle := by
  cases hst : td.status with
  | idle => rfl
  | null =>
    rw [ahead, hst] at hw
    cases hw
  | busy =>
    rw [ahead, hst] at hw
    dsimp only at hw
    split at hw <;> cases hw
  | «over» => exact absurd hst (h.alive td hmem)

/-- While stages are ahead some party can make one of them. -/
theorem going_progress {n m : ℕ} (x : Pool × List Event) (hg : Going n m x) (hpos : 0 < left x) :
    ∃ p, Parties n p ∧ ∀ a x', Quiet a → party a = p → Acts x a x' → left x' < left x := by
  obtain ⟨s, es⟩ := x
  have hmain : (s.mMainTasks ≠ [] ∨ (s.mWaitTasks ≠ [] ∧ (s.getIdle).isSome)) →
      ∃ p, Parties n p ∧ ∀ a x', Quiet a → party a = p → Acts (s, es) a x' →
        left x' < left (s, es) := by
    intro hgo
    refine ⟨none, fun i hi => (nomatch hi), fun a x' ha hp hx => ?_⟩
    obtain ⟨gs, hs, -⟩ := hx
    cases a with
    | call c => exact ha.elim
    | handleEvents startTime clock cs => exact (handleEvents_further ha hs).2 hgo
    | onThread i ret => cases hp
  by_cases hm : s.mMainTasks = []
  · rcases Nat.eq_zero_or_pos (s.mThreads.map ahead).sum with hzero | hbusy
    · have hw : s.mWaitTasks ≠ [] := by
        intro hw
        unfold left stages at hpos
        dsimp only at hpos
        rw [hm, hw, hzero] at hpos
        exact absurd hpos (lt_irrefl 0)
      obtain ⟨td, hmem⟩ := List.exists_mem_of_ne_nil _ (hg.started.workers hg.init)
      have hw0 : ahead td = 0 :=
        List.sum_eq_zero_iff_forall_eq_nat.mp hzero _ (List.mem_map_of_mem hmem)
      have hidle := idle_of_ahead hg.started hmem hw0
      have hsome : (s.getIdle).isSome := by
        unfold getIdle
        rw [List.findIdx?_isSome, List.any_eq_true]
        exact ⟨td, hmem, decide_eq_true hidle⟩
      exact hmain (Or.inr ⟨hw, hsome⟩)
    · obtain ⟨i, td, hi, hw⟩ := exists_busy hbusy
      have hlt : i < n := hg.threads ▸ (List.getElem?_eq_some_iff.mp hi).1
      refine ⟨some i, fun j hj => ?_, fun a x' ha hp hx => ?_⟩
      · cases hj
        exact hlt
      · obtain ⟨gs, hs, -⟩ := hx
        cases a with
        | call c => exact ha.elim
        | handleEvents startTime clock cs => cases hp
        | onThread j ret =>
          cases hp
          obtain rfl : ret = 0 := ha
          exact (onThread_further hs).2 td hi hw
  · exact hmain (Or.inl hm)

/-- Quiet actions go through. -/
theorem quiet_run {n m : ℕ} {x : Pool × List Event} (hg : Going n m x) {as : List Action}
    (ha : ∀ a ∈ as, Quiet a) :
    ∃ s' gs, x.1.run as = some (s', gs) ∧ FairRounds.Run Acts x as (s', x.2 ++ gs) := by
  induction as generalizing x with
  | nil =>
    refine ⟨x.1, [], rfl, ?_⟩
    rw [List.append_nil]
    exact FairRounds.Run.nil x
  | cons a as ih =>
    have hquiet := ha a List.mem_cons_self
    have hharmless : Harmless a := by
      cases a with
      | call c => exact hquiet.elim
      | handleEvents startTime clock cs =>
        intro i c hc
        rw [hquiet i] at hc
        cases hc
      | onThread i ret => trivial
    obtain ⟨⟨s₁, es₁⟩, h₁⟩ := Option.isSome_iff_exists.mp (hg.inv.step_isSome hharmless)
    have hacts : Acts x a (s₁, x.2 ++ es₁) := ⟨es₁, h₁, rfl⟩
    have hg₁ := (going_settling n m x a _ hg hquiet hacts).1
    obtain ⟨s', gs, hrun, hr⟩ := ih hg₁ fun b hb => ha b (List.mem_cons_of_mem a hb)
    refine ⟨s', es₁ ++ gs, ?_, ?_⟩
    · rw [Pool.run, h₁]
      simp only [Option.bind_eq_bind, Option.bind_some, hrun]
      rfl
    · rw [← List.append_assoc]
      exact FairRounds.Run.cons hacts hr

/-- From every state that an initialised pool reaches, with whatever was added
and cancelled: after as many rounds as there are stages ahead, in which the
main thread and every worker act in any order and as often as they like, no
task is left. Each was removed once, and delivered once unless cancelled. -/
theorem pool_drains {as : List Action} {s : Pool} {es : List Event}
    (h : Pool.new.run as = some (s, es)) (hinit : s.mIsInit = true) {rounds : List (List Action)}
    (hquiet : ∀ r ∈ rounds, ∀ a ∈ r, Quiet a)
    (hcov : ∀ r ∈ rounds, Covers party (Parties s.mThreads.length) r)
    (hlen : stages s ≤ rounds.length) :
    ∃ s' gs, s.run rounds.flatten = some (s', gs) ∧ s'.mWaitTasks = [] ∧ s'.mMainTasks = [] ∧
      (∀ td ∈ s'.mThreads, td.status = .idle) ∧
      ∀ p < s.heap.length, (finishedTasks (es ++ gs)).count p = 1 ∧
        (.cancelled p ∉ es ++ gs → (mainTasks (es ++ gs)).count p = 1) := by
  have hstart : ∀ {as : List Action} {s s' : Pool} {es gs : List Event}, Inv s none es →
      Started s → Settled es → s.run as = some (s', gs) → Started s' ∧ Settled (es ++ gs) := by
    intro as
    induction as with
    | nil =>
      intro s s' es gs _ hst hse hr
      cases hr
      rw [List.append_nil]
      exact ⟨hst, hse⟩
    | cons a as ih =>
      intro s s' es gs hi hst hse hr
      obtain ⟨⟨s₁, es₁⟩, h₁, hr⟩ := Option.bind_eq_some_iff.mp hr
      obtain ⟨⟨s₂, es₂⟩, h₂, hr⟩ := Option.bind_eq_some_iff.mp hr
      cases hr
      rw [← List.append_assoc]
      exact ih (hi.step h₁) (hst.step h₁) (hse.step hi h₁) h₂
  obtain ⟨hst, hse⟩ := hstart inv_new ⟨fun h => (nomatch h), fun _ h => (nomatch h)⟩
    (fun _ h => (nomatch h)) h
  have hinv := inv_new.run h
  rw [List.nil_append] at hinv hse
  have hg : Going s.mThreads.length s.heap.length (s, es) := ⟨hinv, hst, hse, hinit, rfl, rfl⟩
  have hall : ∀ a ∈ rounds.flatten, Quiet a := fun a ha => by
    obtain ⟨r, hr, har⟩ := List.mem_flatten.mp ha
    exact hquiet r hr a har
  obtain ⟨s', gs, hrun, hr⟩ := quiet_run hg hall
  have hzero := hr.drains (going_settling _ _) going_progress hcov hquiet hg hlen
  change stages s' = 0 at hzero
  obtain ⟨hg', -⟩ := hr.settles (going_settling _ _) hg hall
  have hwait : s'.mWaitTasks = [] := by
    unfold stages at hzero
    exact List.length_eq_zero_iff.mp (by omega)
  have hmain : s'.mMainTasks = [] := by
    unfold stages at hzero
    exact List.length_eq_zero_iff.mp (by omega)
  have hsum : (s'.mThreads.map ahead).sum = 0 := by
    unfold stages at hzero
    omega
  have hidle : ∀ td ∈ s'.mThreads, td.status = .idle := fun td htd =>
    idle_of_ahead hg'.started htd
      (List.sum_eq_zero_iff_forall_eq_nat.mp hsum _ (List.mem_map_of_mem htd))
  refine ⟨s', gs, hrun, hwait, hmain, hidle, fun p hp => ?_⟩
  have hnone : s'.mThreads.flatMap held = [] := by
    refine List.flatMap_eq_nil_iff.mpr fun td htd => ?_
    unfold held
    rw [hidle td htd]
    rfl
  have hcount := hg'.inv.linear.count (by rw [hg'.heap]; exact hp : p < s'.heap.length)
  unfold places at hcount
  dsimp only at hcount
  rw [hwait, hmain, hnone, List.nil_append, List.nil_append, List.nil_append] at hcount
  refine ⟨hcount, fun hnc => ?_⟩
  have hmem : p ∈ finishedTasks (es ++ gs) := List.count_pos_iff.mp (by omega)
  have hdone := (hg'.settled p hmem).resolve_right hnc
  exact List.count_eq_one_of_mem hg'.inv.once.1 hdone

/-- Two workers and three tasks, one of them cancelled. -/
def threeTasks : List Action :=
  [.call (.init 2), .call (.add (some 7) 0 false), .call (.add (some 8) 1 false),
    .call (.add (some 9) 2 true), .call (.cancel 1)]

/-- The main thread and both workers in turn. -/
def turns : List Action :=
  [.onThread 0 0, .onThread 1 0, .handleEvents 0 (fun _ => 0) fun _ => []]

/-- Three tasks are done after fourteen rounds. -/
theorem pool_drains_threeTasks : ∃ s es, Pool.new.run threeTasks = some (s, es) ∧
    ∃ s' gs, s.run (List.replicate 14 turns).flatten = some (s', gs) ∧ s'.mWaitTasks = [] ∧
      s'.mMainTasks = [] ∧ (∀ td ∈ s'.mThreads, td.status = .idle) ∧
      ∀ p < s.heap.length, (finishedTasks (es ++ gs)).count p = 1 ∧
        (.cancelled p ∉ es ++ gs → (mainTasks (es ++ gs)).count p = 1) := by
  refine ⟨_, _, rfl, @pool_drains threeTasks _ _ rfl rfl (List.replicate 14 turns) ?_ ?_ ?_⟩
  · intro r hr a ha
    rw [List.eq_of_mem_replicate hr] at ha
    simp only [turns, List.mem_cons, List.not_mem_nil, or_false] at ha
    rcases ha with rfl | rfl | rfl
    · rfl
    · rfl
    · exact fun _ => rfl
  · intro r hr p hp
    rw [List.eq_of_mem_replicate hr]
    cases p with
    | none => exact ⟨_, List.mem_cons_of_mem _ (List.mem_cons_of_mem _ List.mem_cons_self), rfl⟩
    | some i =>
      have hi : i < 2 := hp i rfl
      obtain rfl | rfl : i = 0 ∨ i = 1 := by omega
      · exact ⟨_, List.mem_cons_self, rfl⟩
      · exact ⟨_, List.mem_cons_of_mem _ List.mem_cons_self, rfl⟩
  · decide

end CdroidDemo.TaskDraining
