import Mathlib.Data.Nat.Notation
import Mathlib.Data.Int.Notation

/-!
# The thread pool

Tasks are added on the main thread and wait until `handleEvents` writes them
into the slot of an idle worker. A worker calls `onTask` until it returns 0
and puts the task on the list of completed ones, from which `handleEvents`
delivers it to `onMain` and frees it. Slots keep their pointer after the task
has left them. Dereferencing a null pointer or a freed task is no step here.
-/

namespace CdroidDemo.ThreadPool

/-- `ThreadStatus`. -/
inductive ThreadStatus
  /-- The thread has not run yet. -/
  | null
  /-- It waits for a task. -/
  | idle
  /-- It works on a task. -/
  | busy
  /-- It has ended. -/
  | over
  deriving DecidableEq, Repr

/-- `TaskData`, without the time stamp of the log. -/
structure TaskData where
  /-- The number of the task, from 1; an `int` while fewer than `2 ^ 31` tasks
  have been added. -/
  id : ℕ
  /-- The task is cancelled. -/
  isDel : Bool
  /-- The task object. -/
  sink : ℕ
  /-- Its argument. -/
  data : ℕ
  /-- The task object is deleted with the task. -/
  isRecycle : Bool
  deriving DecidableEq, Repr

/-- `ThreadData`: the slot of a worker. -/
structure ThreadData where
  /-- Written by the worker, and to busy by the main thread. -/
  status : ThreadStatus
  /-- The address of the task last given to the worker, null at first. -/
  tdata : Option ℕ
  /-- The worker is inside `onTask`. -/
  onTask : Bool
  deriving DecidableEq, Repr

/-- What can be seen of tasks, known by the address of their data. -/
inductive Event
  /-- The task was written into the slot of a worker. -/
  | handed (p worker : ℕ)
  /-- A worker called `onTask`. -/
  | onTask (p sink data : ℕ)
  /-- `onTask` returned. -/
  | returned (p : ℕ) (ret : ℤ)
  /-- `isDel` was set. -/
  | cancelled (p : ℕ)
  /-- `onMain` was called. -/
  | onMain (p sink data : ℕ)
  /-- The task was removed and freed, with the task object if it is given. -/
  | finished (p : ℕ) (sink : Option ℕ)
  deriving DecidableEq, Repr

/-- The state of `ThreadPool`. -/
structure Pool where
  /-- `init` has run. -/
  mIsInit : Bool
  /-- The number of the task added last; an `int` while fewer than `2 ^ 31`
  tasks have been added. -/
  mTaskId : ℕ
  /-- All task data ever allocated, `none` once freed. -/
  heap : List (Option TaskData)
  /-- The slots of the workers. -/
  mThreads : List ThreadData
  /-- Tasks that wait for a worker. -/
  mWaitTasks : List ℕ
  /-- Completed tasks. -/
  mMainTasks : List ℕ
  deriving DecidableEq, Repr

namespace Pool

/-- The constructor. -/
def new : Pool := ⟨false, 0, [], [], [], []⟩

/-! ## Task memory -/

/-- Read a task. -/
def load (s : Pool) (p : ℕ) : Option TaskData := (s.heap[p]?).join

/-- `delete`. -/
def free (s : Pool) (p : ℕ) : Pool := {s with heap := s.heap.set p none}

/-- `isDel = 1`. -/
def setDel (s : Pool) (p : ℕ) : Option Pool := do
  let t ← s.load p
  return {s with heap := s.heap.set p (some {t with isDel := true})}

/-! ## Calls of the main thread -/

/-- `init`. -/
def init (s : Pool) (count : ℤ) : Pool :=
  if s.mIsInit then s
  else
    let count := if count ≤ 0 then 1 else count
    {s with
      mIsInit := true
      mThreads := s.mThreads ++ List.replicate count.toNat ⟨.null, none, false⟩}

/-- `add`, with its result. -/
def add (s : Pool) (sink : Option ℕ) (data : ℕ) (isRecycle : Bool) : Pool × ℤ :=
  match sink with
  | none => (s, -1)
  | some sink =>
    let td : TaskData := ⟨s.mTaskId + 1, false, sink, data, isRecycle⟩
    ({s with
      mTaskId := s.mTaskId + 1
      heap := s.heap ++ [some td]
      mWaitTasks := s.mWaitTasks ++ [s.heap.length]}, td.id)

/-- Both loops of `del`: the first pointer to a task with the number. -/
def findTask (s : Pool) (taskId : ℤ) : List (Option ℕ) → Option (Option ℕ)
  | [] => some none
  | td :: tds => do
    let p ← td
    let t ← s.load p
    if (t.id : ℤ) = taskId then some (some p) else s.findTask taskId tds

/-- `del`, with its result. -/
def del (s : Pool) (taskId : ℤ) : Option (Pool × ℤ × List Event) := do
  match ← s.findTask taskId (s.mThreads.map ThreadData.tdata) with
  | some p => return (← s.setDel p, 0, [.cancelled p])
  | none =>
    match ← s.findTask taskId (s.mWaitTasks.map some) with
    | some p => return (← s.setDel p, 0, [.cancelled p])
    | none => return (s, -1, [])

/-- Reading a task after another has been written. -/
theorem load_set (s : Pool) (p q : ℕ) (x : Option TaskData) :
    Pool.load {s with heap := s.heap.set p x} q =
      if p = q ∧ p < s.heap.length then x else s.load q := by
  unfold load
  simp only [List.getElem?_set]
  by_cases hpq : p = q
  · by_cases hl : p < s.heap.length
    · simp [hpq, hpq ▸ hl]
    · simp [hpq, hpq ▸ hl]
  · simp [hpq]

/-- A task that is there was allocated. -/
theorem lt_of_load {s : Pool} {p : ℕ} {t : TaskData} (h : s.load p = some t) :
    p < s.heap.length := by
  unfold load at h
  cases Nat.lt_or_ge p s.heap.length with
  | inl hl => exact hl
  | inr hl =>
    rw [List.getElem?_eq_none hl] at h
    cases h

/-- Reading a task after a new one has been allocated. -/
theorem load_push (s s' : Pool) (t : TaskData) (h : s'.heap = s.heap ++ [some t]) (q : ℕ) :
    s'.load q = if q = s.heap.length then some t else s.load q := by
  unfold load
  rw [h]
  by_cases hq : q = s.heap.length
  · rw [if_pos hq, hq, List.getElem?_concat_length]
    rfl
  · rw [if_neg hq]
    rcases Nat.lt_or_gt_of_ne hq with hlt | hgt
    · rw [List.getElem?_append_left hlt]
    · rw [List.getElem?_eq_none (by simp; omega), List.getElem?_eq_none (by omega)]

/-- `setDel` in one equation. -/
theorem setDel_eq {s s' : Pool} {p : ℕ} (h : s.setDel p = some s') :
    ∃ t, s.load p = some t ∧
      s' = {s with heap := s.heap.set p (some {t with isDel := true})} := by
  unfold setDel at h
  obtain ⟨t, ht, he⟩ := Option.bind_eq_some_iff.mp h
  cases he
  exact ⟨t, ht, rfl⟩

/-- A loop reads the task of its first pointer. -/
theorem findTask_cons {s : Pool} {taskId : ℤ} {td : Option ℕ} {tds : List (Option ℕ)}
    {o : Option ℕ} (h : s.findTask taskId (td :: tds) = some o) :
    ∃ q t, td = some q ∧ s.load q = some t ∧
      (if (t.id : ℤ) = taskId then some (some q) else s.findTask taskId tds) = some o := by
  obtain ⟨q, hq, h⟩ := Option.bind_eq_some_iff.mp h
  obtain ⟨t, ht, h⟩ := Option.bind_eq_some_iff.mp h
  exact ⟨q, t, hq, ht, h⟩

/-- A task that is found has the number and is pointed to. -/
theorem findTask_some {s : Pool} {taskId : ℤ} {tds : List (Option ℕ)} {p : ℕ}
    (h : s.findTask taskId tds = some (some p)) :
    some p ∈ tds ∧ ∃ t, s.load p = some t ∧ (t.id : ℤ) = taskId := by
  induction tds with
  | nil => cases h
  | cons td tds ih =>
    obtain ⟨q, t, rfl, ht, h⟩ := findTask_cons h
    split at h
    · rename_i hid
      cases h
      exact ⟨List.mem_cons_self, t, ht, hid⟩
    · have hi := ih h
      exact ⟨List.mem_cons_of_mem _ hi.1, hi.2⟩

/-- `del` sets the flag of one task or changes nothing. -/
theorem del_cases {s : Pool} {taskId : ℤ} {r : Pool × ℤ × List Event}
    (h : s.del taskId = some r) :
    (r.1 = s ∧ r.2.1 = -1 ∧ r.2.2 = []) ∨
    ∃ p, s.setDel p = some r.1 ∧ r.2.1 = 0 ∧ r.2.2 = [.cancelled p] := by
  have hset : ∀ {p}, ((s.setDel p).bind fun s' => some (s', 0, [.cancelled p])) = some r →
      ∃ p, s.setDel p = some r.1 ∧ r.2.1 = 0 ∧ r.2.2 = [.cancelled p] := by
    intro p hp
    obtain ⟨s', hd, hr⟩ := Option.bind_eq_some_iff.mp hp
    cases hr
    exact ⟨p, hd, rfl, rfl⟩
  unfold del at h
  obtain ⟨o, _, h⟩ := Option.bind_eq_some_iff.mp h
  cases o with
  | some p => exact Or.inr (hset h)
  | none =>
    obtain ⟨o, _, h⟩ := Option.bind_eq_some_iff.mp h
    cases o with
    | some p => exact Or.inr (hset h)
    | none =>
      cases h
      exact Or.inl ⟨rfl, rfl, rfl⟩

/-- Calls that can come at any time on the main thread, also from `onMain`. -/
inductive Call
  /-- The workers are created. -/
  | init (count : ℤ)
  /-- A task is added. -/
  | add (sink : Option ℕ) (data : ℕ) (isRecycle : Bool)
  /-- A task is deleted. -/
  | del (taskId : ℤ)
  /-- The flag of a task is set by other means, if the task still exists. -/
  | cancel (p : ℕ)
  deriving DecidableEq, Repr

/-- Perform a call. -/
def call (s : Pool) : Call → Option (Pool × List Event)
  | .init count => some (s.init count, [])
  | .add sink data isRecycle => some ((s.add sink data isRecycle).1, [])
  | .del taskId => (s.del taskId).map fun r => (r.1, r.2.2)
  | .cancel p =>
    match s.setDel p with
    | none => some (s, [])
    | some s' => some (s', [.cancelled p])

/-- Perform calls one after the other. -/
def calls (s : Pool) : List Call → Option (Pool × List Event)
  | [] => some (s, [])
  | c :: cs => do
    let (s, es) ← s.call c
    let (s, es') ← s.calls cs
    return (s, es ++ es')

/-! ## `handleEvents` -/

/-- `getIdle`. -/
def getIdle (s : Pool) : Option ℕ := s.mThreads.findIdx? fun td => td.status = .idle

/-- One round of the loop that hands tasks over. -/
def give (s : Pool) (p i : ℕ) (rest : List ℕ) : Pool :=
  {s with mThreads := s.mThreads.set i ⟨.busy, some p, false⟩, mWaitTasks := rest}

/-- The loop that hands tasks over, along the waiting tasks. -/
def handOver (s : Pool) : List ℕ → Pool × List Event
  | [] => (s, [])
  | p :: rest =>
    match s.getIdle with
    | none => (s, [])
    | some i =>
      let r := (s.give p i rest).handOver rest
      (r.1, .handed p i :: r.2)

/-- `onMain` of a task that is not cancelled, and the calls it makes itself. -/
def deliver (s : Pool) (p : ℕ) (cs : List Call) : Option (Pool × List Event) := do
  let t ← s.load p
  if t.isDel then return (s, [])
  else
    let (s, es) ← s.calls cs
    return (s, .onMain p t.sink t.data :: es)

/-- Remove the first completed task and free it. -/
def finish (s : Pool) (p : ℕ) : Option (Pool × List Event) := do
  let t ← s.load p
  return ({s with mMainTasks := s.mMainTasks.tail}.free p,
    [.finished p (if t.isRecycle then some t.sink else none)])

/-- The loop over completed tasks with `n` rounds to go: `clock i` is read
after round `i`, and `onMain` makes the calls `cs i` there. -/
def deliverAll (s : Pool) (startTime : ℤ) (clock : ℕ → ℤ) (cs : ℕ → List Call) (i : ℕ) :
    ℕ → Option (Pool × List Event)
  | 0 => some (s, [])
  | n + 1 =>
    match s.mMainTasks with
    | [] => some (s, [])
    | p :: _ => do
      let (s, es) ← s.deliver p (cs i)
      let (s, es') ← s.finish p
      if clock i - startTime > 500 then return (s, es ++ es')
      else
        let (s, es'') ← s.deliverAll startTime clock cs (i + 1) n
        return (s, es ++ es' ++ es'')

/-- `handleEvents`. -/
def handleEvents (s : Pool) (startTime : ℤ) (clock : ℕ → ℤ) (cs : ℕ → List Call) :
    Option (Pool × List Event) := do
  let r := s.handOver s.mWaitTasks
  let (s, es) ← r.1.deliverAll startTime clock cs 0 3
  return (s, r.2 ++ es)

/-! ## Workers -/

/-- The task of a worker goes to the completed ones and the worker is idle. -/
def complete (s : Pool) (i p : ℕ) : Pool :=
  {s with
    mMainTasks := s.mMainTasks ++ [p]
    mThreads := s.mThreads.set i ⟨.idle, some p, false⟩}

/-- The next action of worker `i` in `onThread`: it starts, finds its task
cancelled, calls `onTask`, or returns from it with `ret`. -/
def onThread (s : Pool) (i : ℕ) (ret : ℤ) : Option (Pool × List Event) :=
  match s.mThreads[i]? with
  | none => some (s, [])
  | some th =>
    match th.status with
    | .null => some ({s with mThreads := s.mThreads.set i {th with status := .idle}}, [])
    | .idle | .over => some (s, [])
    | .busy => do
      let p ← th.tdata
      let t ← s.load p
      if th.onTask then
        if ret = 0 then return (s.complete i p, [.returned p ret])
        else return ({s with mThreads := s.mThreads.set i {th with onTask := false}},
          [.returned p ret])
      else if t.isDel then return (s.complete i p, [])
      else return ({s with mThreads := s.mThreads.set i {th with onTask := true}},
        [.onTask p t.sink t.data])

/-! ## Runs -/

/-- The atomic actions of the main thread and of the workers. -/
inductive Action
  /-- The main thread makes a call. -/
  | call (c : Call)
  /-- It deals with its events. -/
  | handleEvents (startTime : ℤ) (clock : ℕ → ℤ) (cs : ℕ → List Call)
  /-- A worker takes a turn. -/
  | onThread (i : ℕ) (ret : ℤ)

/-- Perform an action. -/
def step (s : Pool) : Action → Option (Pool × List Event)
  | .call c => s.call c
  | .handleEvents startTime clock cs => s.handleEvents startTime clock cs
  | .onThread i ret => s.onThread i ret

/-- A run of actions in any order, with all that is seen of it. -/
def run (s : Pool) : List Action → Option (Pool × List Event)
  | [] => some (s, [])
  | a :: as => do
    let (s, es) ← s.step a
    let (s, es') ← s.run as
    return (s, es ++ es')

end Pool

end CdroidDemo.ThreadPool
