import Mathlib.Algebra.Group.Nat.Defs
import CdroidDemo.FifoQueue
import CdroidDemo.LinearOwnership
import CdroidDemo.ThreadPool

/-!
# Where the tasks of the pool are

Every added task waits, is held by one busy worker, is completed or has been
removed. The invariant keeps this account over all actions, together with the
order of the hand-over and with what must have happened before `onMain`.
-/

namespace CdroidDemo.TaskConservation

open ThreadPool ThreadPool.Pool LinearOwnership FifoQueue

/-! ## What has been seen -/

/-- The task an event hands over. -/
def handedTask : Event → Option ℕ
  | .handed p _ => some p
  | _ => none

/-- The task an event delivers. -/
def mainTask : Event → Option ℕ
  | .onMain p _ _ => some p
  | _ => none

/-- The task an event removes. -/
def finishedTask : Event → Option ℕ
  | .finished p _ => some p
  | _ => none

/-- Tasks in the order of their hand-over. -/
def handedTasks (es : List Event) : List ℕ := es.filterMap handedTask

/-- Tasks in the order of their delivery. -/
def mainTasks (es : List Event) : List ℕ := es.filterMap mainTask

/-- Tasks in the order of their removal. -/
def finishedTasks (es : List Event) : List ℕ := es.filterMap finishedTask

/-- The task a worker is busy with. -/
def held (td : ThreadData) : List ℕ := if td.status = .busy then td.tdata.toList else []

/-- The account of all tasks: waiting, with a busy worker, completed, removed. -/
def places (s : Pool) (es : List Event) : List ℕ :=
  s.mWaitTasks ++ (s.mThreads.flatMap held ++ (s.mMainTasks ++ finishedTasks es))

/-- Every `onMain` came after `onTask` had returned 0, and not after the flag. -/
def DeliveredOnce (es : List Event) : Prop :=
  (mainTasks es).Nodup ∧ ∀ es₁ p sink data es₂, es = es₁ ++ .onMain p sink data :: es₂ →
    .returned p 0 ∈ es₁ ∧ .cancelled p ∉ es₁

/-- An event without a task adds none. -/
theorem filterMap_concat_none {f : Event → Option ℕ} {e : Event} (he : f e = none)
    (es : List Event) : (es ++ [e]).filterMap f = es.filterMap f := by
  rw [List.filterMap_append, List.filterMap_cons_none he, List.filterMap_nil, List.append_nil]

/-- An event that is no `onMain` keeps the deliveries. -/
theorem DeliveredOnce.log {es : List Event} (h : DeliveredOnce es) {e : Event}
    (he : mainTask e = none) : DeliveredOnce (es ++ [e]) := by
  constructor
  · unfold mainTasks
    rw [filterMap_concat_none he]
    exact h.1
  · intro es₁ p sink data es₂ heq
    rcases List.eq_nil_or_concat es₂ with rfl | ⟨init, last, rfl⟩
    · obtain ⟨_, hl⟩ := List.append_inj' heq rfl
      cases hl
      cases he
    · rw [List.concat_eq_append, ← List.cons_append, ← List.append_assoc] at heq
      obtain ⟨hl, _⟩ := List.append_inj' heq rfl
      exact h.2 es₁ p sink data init hl

/-- A delivery in order. -/
theorem DeliveredOnce.deliver {es : List Event} (h : DeliveredOnce es) {p : ℕ}
    (hp : p ∉ mainTasks es) (hr : .returned p 0 ∈ es) (hc : .cancelled p ∉ es) (sink data : ℕ) :
    DeliveredOnce (es ++ [.onMain p sink data]) := by
  constructor
  · unfold mainTasks
    rw [List.filterMap_append]
    refine List.nodup_append.mpr ⟨h.1, List.nodup_singleton p, ?_⟩
    intro a ha b hb hab
    exact hp (List.mem_singleton.mp hb ▸ hab ▸ ha)
  · intro es₁ q sink' data' es₂ heq
    rcases List.eq_nil_or_concat es₂ with rfl | ⟨init, last, rfl⟩
    · obtain ⟨hl, hq⟩ := List.append_inj' heq rfl
      cases hq
      exact hl ▸ ⟨hr, hc⟩
    · rw [List.concat_eq_append, ← List.cons_append, ← List.append_assoc] at heq
      obtain ⟨hl, _⟩ := List.append_inj' heq rfl
      exact h.2 es₁ q sink' data' init hl

/-! ## The invariant -/

/-- The pool after the events `es`, while `onMain` of the task `cur` runs. -/
structure Inv (s : Pool) (cur : Option ℕ) (es : List Event) : Prop where
  /-- Tasks are numbered by their allocation. -/
  taskId : s.mTaskId = s.heap.length
  /-- Each task is in exactly one place. -/
  linear : Linear (places s es) s.heap.length
  /-- Tasks exist until they are removed. -/
  exists_iff : ∀ p, (s.load p).isSome ↔ p < s.heap.length ∧ p ∉ finishedTasks es
  /-- The number of a task. -/
  id : ∀ p t, s.load p = some t → t.id = p + 1
  /-- Only added tasks are cancelled. -/
  cancelled : ∀ p, .cancelled p ∈ es → p < s.heap.length
  /-- The flag records a cancellation. -/
  isDel : ∀ p t, s.load p = some t → (t.isDel = true ↔ .cancelled p ∈ es)
  /-- Tasks are handed over in the order they were added. -/
  order : Fifo Eq (List.range s.heap.length) (handedTasks es) s.mWaitTasks
  /-- A busy worker has a task. -/
  busy : ∀ td ∈ s.mThreads, td.status = .busy → td.tdata.isSome
  /-- A completed task is cancelled or done. -/
  completed : ∀ p ∈ s.mMainTasks, .cancelled p ∈ es ∨ .returned p 0 ∈ es
  /-- `onMain` runs for the first completed task. -/
  current : ∀ p ∈ cur, s.mMainTasks.head? = some p
  /-- A delivered task is removed next. -/
  delivered : ∀ p ∈ mainTasks es, p ∈ finishedTasks es ∨ cur = some p
  /-- Deliveries are in order. -/
  once : DeliveredOnce es

/-- A new pool has lost no task. -/
theorem inv_new : Inv Pool.new none [] where
  taskId := rfl
  linear := linear_nil
  exists_iff p := by simp [load, Pool.new]
  id p t h := by cases h
  cancelled p h := by cases h
  isDel p t h := by cases h
  order := fifo_nil
  busy td h := by cases h
  completed p h := by cases h
  current p h := by cases h
  delivered p h := by cases h
  once := ⟨List.nodup_nil, fun es₁ p sink data es₂ h => by simp at h⟩

/-- A task in a place other than the removed ones exists. -/
theorem Inv.load_of_placed {s : Pool} {cur : Option ℕ} {es : List Event} (h : Inv s cur es) {p : ℕ}
    (hp : p ∈ s.mWaitTasks ++ (s.mThreads.flatMap held ++ s.mMainTasks)) :
    ∃ t, s.load p = some t := by
  have hl := h.linear
  unfold places at hl
  rw [← List.append_assoc (s.mThreads.flatMap held), ← List.append_assoc] at hl
  have hlt := hl.mem_iff.mp (List.mem_append_left _ hp)
  have hnf := fun hf => hl.disjoint hp hf
  exact Option.isSome_iff_exists.mp ((h.exists_iff p).mpr ⟨hlt, hnf⟩)

/-- The task of a busy worker exists. -/
theorem Inv.load_of_busy {s : Pool} {cur : Option ℕ} {es : List Event} (h : Inv s cur es)
    {td : ThreadData} (htd : td ∈ s.mThreads) (hb : td.status = .busy) :
    ∃ p t, td.tdata = some p ∧ s.load p = some t := by
  obtain ⟨p, hp⟩ := Option.isSome_iff_exists.mp (h.busy td htd hb)
  have hh : p ∈ s.mThreads.flatMap held := by
    refine List.mem_flatMap.mpr ⟨td, htd, ?_⟩
    unfold held
    rw [if_pos hb, hp]
    exact List.mem_singleton_self p
  obtain ⟨t, ht⟩ := h.load_of_placed (List.mem_append_right _ (List.mem_append_left _ hh))
  exact ⟨p, t, hp, ht⟩

/-- The first completed task exists. -/
theorem Inv.load_of_completed {s : Pool} {cur : Option ℕ} {es : List Event} (h : Inv s cur es)
    {p : ℕ} (hp : p ∈ s.mMainTasks) : ∃ t, s.load p = some t :=
  h.load_of_placed (List.mem_append_right _ (List.mem_append_right _ hp))

/-! ## Events that move no task -/

/-- The tasks handed over in two lists of events. -/
theorem handedTasks_append (es gs : List Event) :
    handedTasks (es ++ gs) = handedTasks es ++ handedTasks gs := List.filterMap_append

/-- The tasks delivered in two lists of events. -/
theorem mainTasks_append (es gs : List Event) :
    mainTasks (es ++ gs) = mainTasks es ++ mainTasks gs := List.filterMap_append

/-- The tasks removed in two lists of events. -/
theorem finishedTasks_append (es gs : List Event) :
    finishedTasks (es ++ gs) = finishedTasks es ++ finishedTasks gs := List.filterMap_append

/-- The events of a worker inside `onTask`. -/
def OfWorker : Event → Prop
  | .onTask _ _ _ | .returned _ _ => True
  | _ => False

/-- Such an event does not concern the account. -/
theorem OfWorker.quiet {e : Event} (he : OfWorker e) :
    handedTask e = none ∧ mainTask e = none ∧ finishedTask e = none ∧ ∀ p, e ≠ .cancelled p := by
  cases e with
  | onTask p sink data => exact ⟨rfl, rfl, rfl, fun q hq => by cases hq⟩
  | returned p ret => exact ⟨rfl, rfl, rfl, fun q hq => by cases hq⟩
  | handed p worker => cases he
  | cancelled p => cases he
  | onMain p sink data => cases he
  | finished p sink => cases he

/-- Any other event cancels no task. -/
theorem cancelled_concat {e : Event} (he : ∀ p, e ≠ .cancelled p) (es : List Event) (p : ℕ) :
    .cancelled p ∈ es ++ [e] ↔ .cancelled p ∈ es := by
  rw [List.mem_append, List.mem_singleton]
  exact or_iff_left (he p).symm

/-- An event that neither hands over nor removes nor cancels a task leaves the
account, up to the deliveries. -/
theorem Inv.concat {s : Pool} {cur cur' : Option ℕ} {es : List Event} (h : Inv s cur es) {e : Event}
    (hn : handedTask e = none) (hf : finishedTask e = none) (hne : ∀ p, e ≠ .cancelled p)
    (hcur : ∀ p ∈ cur', s.mMainTasks.head? = some p)
    (hmain : ∀ p ∈ mainTasks (es ++ [e]), p ∈ finishedTasks es ∨ cur' = some p)
    (honce : DeliveredOnce (es ++ [e])) : Inv s cur' (es ++ [e]) := by
  have hh : handedTasks (es ++ [e]) = handedTasks es := filterMap_concat_none hn es
  have hf : finishedTasks (es ++ [e]) = finishedTasks es := filterMap_concat_none hf es
  have hc := cancelled_concat hne es
  refine ⟨h.taskId, ?_, ?_, h.id, ?_, ?_, ?_, h.busy, ?_, hcur, ?_, honce⟩
  · unfold places
    rw [hf]
    exact h.linear
  · rw [hf]
    exact h.exists_iff
  · exact fun p hp => h.cancelled p ((hc p).mp hp)
  · exact fun p t ht => (h.isDel p t ht).trans (hc p).symm
  · rw [hh]
    exact h.order
  · exact fun p hp => (h.completed p hp).imp (hc p).mpr (List.mem_append_left _)
  · rw [hf]
    exact hmain

/-- What a worker does inside `onTask` leaves the account. -/
theorem Inv.log {s : Pool} {cur : Option ℕ} {es : List Event} (h : Inv s cur es) {e : Event}
    (he : OfWorker e) : Inv s cur (es ++ [e]) := by
  obtain ⟨hn, hm, hf, hne⟩ := he.quiet
  have hm' : mainTasks (es ++ [e]) = mainTasks es := filterMap_concat_none hm es
  refine h.concat hn hf hne h.current ?_ (h.once.log hm)
  rw [hm']
  exact h.delivered

/-! ## Calls -/

/-- A cancellation loses no task. -/
theorem Inv.setDel {s s' : Pool} {cur : Option ℕ} {es : List Event} (h : Inv s cur es) {p : ℕ}
    (hs : s.setDel p = some s') : Inv s' cur (es ++ [.cancelled p]) := by
  obtain ⟨t, ht, rfl⟩ := setDel_eq hs
  have hl := lt_of_load ht
  have hload := fun q => load_set s p q (some {t with isDel := true})
  refine {
    taskId := ?taskId, linear := ?linear, exists_iff := ?exists_iff, id := ?id,
    cancelled := ?cancelled, isDel := ?isDel, order := ?order, busy := h.busy,
    completed := ?completed, current := h.current, delivered := ?delivered, once := h.once.log rfl }
  case taskId =>
    rw [List.length_set]
    exact h.taskId
  case linear =>
    unfold places
    rw [List.length_set, finishedTasks_append, show finishedTasks [.cancelled p] = [] from rfl,
      List.append_nil]
    exact h.linear
  case exists_iff =>
    intro q
    rw [hload q, List.length_set, finishedTasks_append,
      show finishedTasks [.cancelled p] = [] from rfl, List.append_nil, ← h.exists_iff q]
    split
    · rename_i hq
      rw [← hq.1, ht]
      exact iff_of_true rfl rfl
    · rfl
  case id =>
    intro q u hu
    rw [hload q] at hu
    split at hu
    · rename_i hq
      cases hu
      exact hq.1 ▸ h.id p t ht
    · exact h.id q u hu
  case cancelled =>
    intro q hq
    rw [List.length_set]
    cases List.mem_append.mp hq with
    | inl hq => exact h.cancelled q hq
    | inr hq =>
      cases List.mem_singleton.mp hq
      exact hl
  case isDel =>
    intro q u hu
    rw [hload q] at hu
    split at hu
    · rename_i hq
      cases hu
      exact iff_of_true rfl (List.mem_append_right _ (hq.1 ▸ List.mem_singleton_self _))
    · rename_i hq
      have hne : q ≠ p := fun he => hq ⟨he.symm, hl⟩
      rw [h.isDel q u hu, List.mem_append, List.mem_singleton]
      exact ⟨Or.inl, fun hor => hor.resolve_right fun he => hne (by cases he; rfl)⟩
  case order =>
    rw [List.length_set, handedTasks_append, show handedTasks [.cancelled p] = [] from rfl,
      List.append_nil]
    exact h.order
  case completed =>
    intro q hq
    exact (h.completed q hq).imp (List.mem_append_left _) (List.mem_append_left _)
  case delivered =>
    intro q hq
    rw [mainTasks_append, show mainTasks [.cancelled p] = [] from rfl, List.append_nil] at hq
    rw [finishedTasks_append, show finishedTasks [.cancelled p] = [] from rfl, List.append_nil]
    exact h.delivered q hq

/-- An addition loses no task. -/
theorem Inv.add {s : Pool} {cur : Option ℕ} {es : List Event} (h : Inv s cur es)
    (sink : Option ℕ) (data : ℕ) (isRecycle : Bool) : Inv (s.add sink data isRecycle).1 cur es := by
  cases sink with
  | none => exact h
  | some sink =>
    have hload := load_push s (s.add (some sink) data isRecycle).1 _ rfl
    have hlen : (s.add (some sink) data isRecycle).1.heap.length = s.heap.length + 1 :=
      List.length_append
    have hnf : ∀ p ∈ finishedTasks es, p < s.heap.length := by
      intro p hp
      refine h.linear.mem_iff.mp ?_
      exact List.mem_append_right _ (List.mem_append_right _ (List.mem_append_right _ hp))
    refine {
      taskId := ?taskId, linear := ?linear, exists_iff := ?exists_iff, id := ?id,
      cancelled := ?cancelled, isDel := ?isDel, order := ?order, busy := h.busy,
      completed := h.completed, current := h.current, delivered := h.delivered, once := h.once }
    case taskId =>
      rw [hlen]
      exact congrArg (· + 1) h.taskId
    case linear =>
      rw [hlen]
      refine h.linear.grow.move ?_
      unfold places
      simp only [Pool.add, List.append_assoc, List.singleton_append]
      exact List.perm_middle
    case exists_iff =>
      intro p
      rw [hload p, hlen]
      split
      · rename_i hp
        refine iff_of_true rfl ⟨by omega, fun hf => ?_⟩
        exact absurd (hnf p hf) (by omega)
      · rw [h.exists_iff p]
        constructor
        · exact fun hp => ⟨by omega, hp.2⟩
        · exact fun hp => ⟨by omega, hp.2⟩
    case id =>
      intro p t ht
      rw [hload p] at ht
      split at ht
      · rename_i hp
        cases ht
        rw [hp, ← h.taskId]
      · exact h.id p t ht
    case cancelled =>
      intro p hp
      rw [hlen]
      exact Nat.lt_succ_of_lt (h.cancelled p hp)
    case isDel =>
      intro p t ht
      rw [hload p] at ht
      split at ht
      · rename_i hp
        cases ht
        refine iff_of_false Bool.false_ne_true fun hc => ?_
        exact absurd (h.cancelled p hc) (by omega)
      · exact h.isDel p t ht
    case order =>
      rw [hlen, List.range_succ]
      exact h.order.push s.heap.length

/-- A start of the pool loses no task. -/
theorem Inv.init {s : Pool} {cur : Option ℕ} {es : List Event} (h : Inv s cur es) (count : ℤ) :
    Inv (s.init count) cur es := by
  unfold Pool.init
  split
  · exact h
  · dsimp only
    generalize (if count ≤ 0 then 1 else count).toNat = n
    refine ⟨h.taskId, ?_, h.exists_iff, h.id, h.cancelled, h.isDel, h.order, ?_, h.completed,
      h.current, h.delivered, h.once⟩
    · have hn : (List.replicate n (⟨.null, none, false⟩ : ThreadData)).flatMap held = [] := by
        refine List.flatMap_eq_nil_iff.mpr fun td htd => ?_
        rw [List.eq_of_mem_replicate htd]
        rfl
      unfold places
      rw [List.flatMap_append, hn, List.append_nil]
      exact h.linear
    · intro td htd hb
      cases List.mem_append.mp htd with
      | inl htd => exact h.busy td htd hb
      | inr htd =>
        rw [List.eq_of_mem_replicate htd] at hb
        cases hb

/-- A call keeps the invariant. -/
theorem Inv.call {s s' : Pool} {cur : Option ℕ} {es gs : List Event} (h : Inv s cur es) {c : Call}
    (hs : s.call c = some (s', gs)) : Inv s' cur (es ++ gs) := by
  cases c with
  | init count =>
    cases hs
    rw [List.append_nil]
    exact h.init count
  | add sink data isRecycle =>
    cases hs
    rw [List.append_nil]
    exact h.add sink data isRecycle
  | del taskId =>
    obtain ⟨r, hr, he⟩ := Option.map_eq_some_iff.mp hs
    cases he
    rcases del_cases hr with ⟨rfl, -, he⟩ | ⟨p, hd, -, he⟩
    · rw [he, List.append_nil]
      exact h
    · rw [he]
      exact h.setDel hd
  | cancel p =>
    unfold Pool.call at hs
    dsimp only at hs
    split at hs
    · cases hs
      rw [List.append_nil]
      exact h
    · rename_i s₁ hd
      cases hs
      exact h.setDel hd

/-- Calls one after the other keep the invariant. -/
theorem Inv.calls {s s' : Pool} {cur : Option ℕ} {es gs : List Event} (h : Inv s cur es)
    {cs : List Call} (hs : s.calls cs = some (s', gs)) : Inv s' cur (es ++ gs) := by
  induction cs generalizing s es gs with
  | nil =>
    cases hs
    rw [List.append_nil]
    exact h
  | cons c cs ih =>
    obtain ⟨⟨s₁, es₁⟩, h₁, hs⟩ := Option.bind_eq_some_iff.mp hs
    obtain ⟨⟨s₂, es₂⟩, h₂, hs⟩ := Option.bind_eq_some_iff.mp hs
    cases hs
    rw [← List.append_assoc]
    exact ih (h.call h₁) h₂

/-! ## Workers -/

/-- A slot changes without taking or leaving a task. -/
theorem Inv.setThread {s : Pool} {cur : Option ℕ} {es : List Event} (h : Inv s cur es) {i : ℕ}
    {td td' : ThreadData} (hi : s.mThreads[i]? = some td) (hh : held td' = held td)
    (hb : td'.status = .busy → td'.tdata.isSome) :
    Inv {s with mThreads := s.mThreads.set i td'} cur es := by
  refine ⟨h.taskId, ?_, h.exists_iff, h.id, h.cancelled, h.isDel, h.order, ?_, h.completed,
    h.current, h.delivered, h.once⟩
  · have hp := flatMap_set_perm (f := held) hi td'
    rw [hh] at hp
    refine h.linear.move (List.Perm.append_left _ (List.Perm.append_right _ ?_))
    exact (List.perm_append_left_iff _).mp hp
  · intro t ht hs
    cases List.mem_or_eq_of_mem_set ht with
    | inl ht => exact h.busy t ht hs
    | inr ht => exact ht ▸ hb (ht ▸ hs)

/-- Being inside `onTask` does not matter for the account. -/
theorem held_onTask {td : ThreadData} (hb : td.status = .busy) (onTask : Bool) :
    held ⟨.busy, td.tdata, onTask⟩ = held td := by
  unfold held
  rw [hb]

/-- A busy worker completes its task. -/
theorem Inv.complete {s : Pool} {cur : Option ℕ} {es : List Event} (h : Inv s cur es) {i p : ℕ}
    {td : ThreadData} (hi : s.mThreads[i]? = some td) (hb : td.status = .busy)
    (hp : td.tdata = some p) (hc : .cancelled p ∈ es ∨ .returned p 0 ∈ es) :
    Inv (s.complete i p) cur es := by
  have hheld : held td = [p] := by
    unfold held
    rw [if_pos hb, hp]
    rfl
  refine ⟨h.taskId, ?_, h.exists_iff, h.id, h.cancelled, h.isDel, h.order, ?_, ?_, ?_,
    h.delivered, h.once⟩
  · have hperm := flatMap_set_perm (f := held) hi ⟨.idle, some p, false⟩
    rw [hheld] at hperm
    refine h.linear.move (List.Perm.append_left _ ?_)
    unfold Pool.complete
    dsimp only
    have hperm : (s.mThreads.flatMap held).Perm
        ([p] ++ (s.mThreads.set i ⟨.idle, some p, false⟩).flatMap held) := hperm.symm
    refine List.Perm.symm ((hperm.append_right _).trans ?_)
    rw [List.append_assoc, List.append_assoc]
    refine (List.perm_append_comm_assoc _ _ _).trans (List.Perm.append_left _ ?_)
    exact List.perm_append_comm_assoc _ _ _
  · intro t ht hs
    cases List.mem_or_eq_of_mem_set ht with
    | inl ht => exact h.busy t ht hs
    | inr ht =>
      rw [ht] at hs
      cases hs
  · intro q hq
    cases List.mem_append.mp hq with
    | inl hq => exact h.completed q hq
    | inr hq => exact List.mem_singleton.mp hq ▸ hc
  · intro q hq
    have hhd := h.current q hq
    unfold Pool.complete
    cases hm : s.mMainTasks with
    | nil =>
      rw [hm] at hhd
      cases hhd
    | cons a l =>
      rw [hm] at hhd
      exact hhd

/-- An action of a worker keeps the invariant. -/
theorem Inv.onThread {s s' : Pool} {cur : Option ℕ} {es gs : List Event} (h : Inv s cur es) {i : ℕ}
    {ret : ℤ} (hs : s.onThread i ret = some (s', gs)) : Inv s' cur (es ++ gs) := by
  unfold Pool.onThread at hs
  cases hi : s.mThreads[i]? with
  | none =>
    rw [hi] at hs
    cases hs
    rw [List.append_nil]
    exact h
  | some td =>
    rw [hi] at hs
    dsimp only at hs
    cases hst : td.status with
    | null =>
      rw [hst] at hs
      cases hs
      rw [List.append_nil]
      refine h.setThread hi ?_ (fun hb => by cases hb)
      unfold held
      rw [hst]
      rfl
    | idle =>
      rw [hst] at hs
      cases hs
      rw [List.append_nil]
      exact h
    | «over» =>
      rw [hst] at hs
      cases hs
      rw [List.append_nil]
      exact h
    | busy =>
      rw [hst] at hs
      dsimp only at hs
      obtain ⟨p, hp, hs⟩ := Option.bind_eq_some_iff.mp hs
      obtain ⟨t, ht, hs⟩ := Option.bind_eq_some_iff.mp hs
      have hsome : td.tdata.isSome := by rw [hp]; rfl
      split at hs
      · split at hs
        · rename_i hret
          cases hs
          refine (h.log (e := .returned p ret) trivial).complete hi hst hp (Or.inr ?_)
          exact hret ▸ List.mem_append_right _ (List.mem_singleton_self _)
        · cases hs
          exact (h.log (e := .returned p ret) trivial).setThread hi (held_onTask hst _)
            fun _ => hsome
      · split at hs
        · rename_i hd
          cases hs
          rw [List.append_nil]
          exact h.complete hi hst hp (Or.inl ((h.isDel p t ht).mp hd))
        · cases hs
          exact (h.log (e := .onTask p t.sink t.data) trivial).setThread hi (held_onTask hst _)
            fun _ => hsome

/-! ## `handleEvents` -/

/-- A waiting task goes to an idle worker. -/
theorem Inv.give {s : Pool} {cur : Option ℕ} {es : List Event} (h : Inv s cur es) {i p : ℕ}
    {rest : List ℕ} (hw : s.mWaitTasks = p :: rest) {td : ThreadData}
    (hi : s.mThreads[i]? = some td) (hb : td.status = .idle) :
    Inv (s.give p i rest) cur (es ++ [.handed p i]) := by
  have hheld : held td = [] := by
    unfold held
    rw [if_neg (by rw [hb]; exact nofun)]
  have hf : finishedTasks (es ++ [.handed p i]) = finishedTasks es := filterMap_concat_none rfl es
  have hm : mainTasks (es ++ [.handed p i]) = mainTasks es := filterMap_concat_none rfl es
  have hc := cancelled_concat (e := .handed p i) nofun es
  refine ⟨h.taskId, ?_, ?_, h.id, ?_, ?_, ?_, ?_, ?_, h.current, ?_, h.once.log rfl⟩
  · have hperm := flatMap_set_perm (f := held) hi ⟨.busy, some p, false⟩
    rw [hheld] at hperm
    unfold places
    rw [hf]
    refine h.linear.move ?_
    unfold places
    rw [hw]
    have hperm : ((s.mThreads.set i ⟨.busy, some p, false⟩).flatMap held).Perm
        ([p] ++ s.mThreads.flatMap held) := hperm
    refine (List.Perm.append_left _ (hperm.append_right _)).trans ?_
    rw [List.append_assoc]
    exact List.perm_append_comm_assoc _ _ _
  · rw [hf]
    exact h.exists_iff
  · exact fun q hq => h.cancelled q ((hc q).mp hq)
  · exact fun q t ht => (h.isDel q t ht).trans (hc q).symm
  · have ho := h.order
    rw [hw] at ho
    rw [handedTasks_append]
    exact ho.pop rfl
  · intro t ht hs
    cases List.mem_or_eq_of_mem_set ht with
    | inl ht => exact h.busy t ht hs
    | inr ht => exact ht ▸ rfl
  · exact fun q hq => (h.completed q hq).imp (hc q).mpr (List.mem_append_left _)
  · rw [hm, hf]
    exact h.delivered

/-- `getIdle` finds an idle worker. -/
theorem getIdle_some {s : Pool} {i : ℕ} (h : s.getIdle = some i) :
    ∃ td, s.mThreads[i]? = some td ∧ td.status = .idle := by
  unfold getIdle at h
  obtain ⟨hl, hi, -⟩ := List.findIdx?_eq_some_iff_getElem.mp h
  exact ⟨s.mThreads[i], List.getElem?_eq_getElem hl, of_decide_eq_true hi⟩

/-- Handing tasks over keeps the invariant. -/
theorem Inv.handOver {s : Pool} {cur : Option ℕ} {es : List Event} (h : Inv s cur es)
    {wait : List ℕ} (hw : s.mWaitTasks = wait) :
    Inv (s.handOver wait).1 cur (es ++ (s.handOver wait).2) := by
  induction wait generalizing s es with
  | nil =>
    unfold Pool.handOver
    rw [List.append_nil]
    exact h
  | cons p rest ih =>
    unfold Pool.handOver
    cases hi : s.getIdle with
    | none =>
      dsimp only
      rw [List.append_nil]
      exact h
    | some i =>
      obtain ⟨td, htd, hst⟩ := getIdle_some hi
      have hr := ih (h.give hw htd hst) rfl
      rw [List.append_assoc] at hr
      exact hr

/-- `onMain` is called for the first completed task when it is not cancelled. -/
theorem Inv.onMain {s : Pool} {es : List Event} (h : Inv s none es) {p : ℕ}
    (hm : s.mMainTasks.head? = some p) {t : TaskData} (ht : s.load p = some t)
    (hd : t.isDel = false) : Inv s (some p) (es ++ [.onMain p t.sink t.data]) := by
  have hpm := List.mem_of_mem_head? hm
  have hnc : .cancelled p ∉ es := by
    intro hc
    rw [(h.isDel p t ht).mpr hc] at hd
    cases hd
  have hnf := ((h.exists_iff p).mp (ht ▸ rfl)).2
  have hnm : p ∉ mainTasks es := fun hin => (h.delivered p hin).elim hnf nofun
  have hret := (h.completed p hpm).resolve_left hnc
  refine h.concat rfl rfl nofun ?_ ?_ (h.once.deliver hnm hret hnc t.sink t.data)
  · intro q hq
    cases hq
    exact hm
  · intro q hq
    rw [mainTasks_append] at hq
    cases List.mem_append.mp hq with
    | inl hq => exact (h.delivered q hq).imp_right nofun
    | inr hq => exact Or.inr (congrArg some (List.mem_singleton.mp hq).symm)

/-- The round of a completed task up to its removal. -/
theorem Inv.deliver {s s' : Pool} {es gs : List Event} (h : Inv s none es) {p : ℕ}
    (hm : s.mMainTasks.head? = some p) {cs : List Call} (hs : s.deliver p cs = some (s', gs)) :
    ∃ cur, (cur = none ∨ cur = some p) ∧ Inv s' cur (es ++ gs) ∧ s'.mMainTasks.head? = some p := by
  obtain ⟨t, ht, hs⟩ := Option.bind_eq_some_iff.mp hs
  split at hs
  · cases hs
    rw [List.append_nil]
    exact ⟨none, Or.inl rfl, h, hm⟩
  · rename_i hd
    obtain ⟨⟨s₁, es₁⟩, h₁, hs⟩ := Option.bind_eq_some_iff.mp hs
    cases hs
    have hi := (h.onMain hm ht (Bool.eq_false_iff.mpr hd)).calls h₁
    rw [List.append_assoc] at hi
    exact ⟨some p, Or.inr rfl, hi, hi.current p rfl⟩

/-- The first completed task is removed. -/
theorem Inv.finish {s s' : Pool} {cur : Option ℕ} {es gs : List Event} (h : Inv s cur es) {p : ℕ}
    (hc : cur = none ∨ cur = some p) (hm : s.mMainTasks.head? = some p)
    (hs : s.finish p = some (s', gs)) : Inv s' none (es ++ gs) := by
  obtain ⟨t, ht, hs⟩ := Option.bind_eq_some_iff.mp hs
  cases hs
  generalize (if t.isRecycle = true then some t.sink else none) = o
  have hl := lt_of_load ht
  have hmain : s.mMainTasks = p :: s.mMainTasks.tail := (List.cons_head?_tail hm).symm
  have hload := fun q => load_set {s with mMainTasks := s.mMainTasks.tail} p q none
  have hfin : finishedTasks (es ++ [.finished p o]) = finishedTasks es ++ [p] :=
    finishedTasks_append es _
  have hh : handedTasks (es ++ [.finished p o]) = handedTasks es := filterMap_concat_none rfl es
  have hmt : mainTasks (es ++ [.finished p o]) = mainTasks es := filterMap_concat_none rfl es
  have hcan := cancelled_concat (e := .finished p o) nofun es
  have hold : ∀ q u, Pool.load (Pool.free {s with mMainTasks := s.mMainTasks.tail} p) q = some u →
      s.load q = some u := by
    intro q u hu
    unfold Pool.free at hu
    rw [hload q] at hu
    split at hu
    · cases hu
    · exact hu
  refine {
    taskId := ?taskId, linear := ?linear, exists_iff := ?exists_iff, id := ?id,
    cancelled := ?cancelled, isDel := ?isDel, order := ?order, busy := h.busy,
    completed := ?completed, current := ?current, delivered := ?delivered, once := h.once.log rfl }
  case taskId =>
    unfold Pool.free
    rw [List.length_set]
    exact h.taskId
  case linear =>
    unfold Pool.free places
    rw [List.length_set, hfin]
    have hlin := h.linear
    unfold places at hlin
    rw [hmain] at hlin
    refine hlin.move ?_
    dsimp only
    refine List.Perm.append_left _ (List.Perm.append_left _ ?_)
    rw [← List.append_assoc]
    exact List.perm_append_singleton _ _
  case exists_iff =>
    intro q
    unfold Pool.free
    rw [hload q, List.length_set, hfin, List.mem_append, List.mem_singleton]
    dsimp only
    split
    · rename_i hq
      refine iff_of_false nofun fun hand => hand.2 (Or.inr hq.1.symm)
    · rename_i hq
      have hne : q ≠ p := fun he => hq ⟨he.symm, hl⟩
      exact (h.exists_iff q).trans (and_congr_right fun _ => not_congr (or_iff_left hne).symm)
  case id =>
    exact fun q u hu => h.id q u (hold q u hu)
  case cancelled =>
    intro q hq
    unfold Pool.free
    rw [List.length_set]
    exact h.cancelled q ((hcan q).mp hq)
  case isDel =>
    exact fun q u hu => (h.isDel q u (hold q u hu)).trans (hcan q).symm
  case order =>
    unfold Pool.free
    rw [List.length_set, hh]
    exact h.order
  case completed =>
    intro q hq
    exact (h.completed q (List.mem_of_mem_tail hq)).imp (hcan q).mpr (List.mem_append_left _)
  case current =>
    intro q hq
    cases hq
  case delivered =>
    intro q hq
    rw [hmt] at hq
    rw [hfin, List.mem_append, List.mem_singleton]
    refine Or.inl ((h.delivered q hq).imp_right fun hcur => ?_)
    cases hc with
    | inl hn => rw [hn] at hcur; cases hcur
    | inr hp => rw [hp] at hcur; cases hcur; rfl

/-- The loop over completed tasks keeps the invariant. -/
theorem Inv.deliverAll {s s' : Pool} {es gs : List Event} (h : Inv s none es) {startTime : ℤ}
    {clock : ℕ → ℤ} {cs : ℕ → List Call} {i n : ℕ}
    (hs : s.deliverAll startTime clock cs i n = some (s', gs)) : Inv s' none (es ++ gs) := by
  induction n generalizing s es gs i with
  | zero =>
    cases hs
    rw [List.append_nil]
    exact h
  | succ n ih =>
    unfold Pool.deliverAll at hs
    cases hm : s.mMainTasks with
    | nil =>
      rw [hm] at hs
      cases hs
      rw [List.append_nil]
      exact h
    | cons p rest =>
      rw [hm] at hs
      dsimp only at hs
      obtain ⟨⟨s₁, es₁⟩, h₁, hs⟩ := Option.bind_eq_some_iff.mp hs
      obtain ⟨⟨s₂, es₂⟩, h₂, hs⟩ := Option.bind_eq_some_iff.mp hs
      have hhd : s.mMainTasks.head? = some p := by rw [hm]; rfl
      obtain ⟨cur, hc, hi, hm'⟩ := h.deliver hhd h₁
      have hf := hi.finish hc hm' h₂
      rw [List.append_assoc] at hf
      split at hs
      · cases hs
        exact hf
      · obtain ⟨⟨s₃, es₃⟩, h₃, hs⟩ := Option.bind_eq_some_iff.mp hs
        cases hs
        have hr := ih hf h₃
        rw [List.append_assoc] at hr
        exact hr

/-! ## Runs -/

/-- An action keeps the invariant. -/
theorem Inv.step {s s' : Pool} {es gs : List Event} (h : Inv s none es) {a : Action}
    (hs : s.step a = some (s', gs)) : Inv s' none (es ++ gs) := by
  cases a with
  | call c => exact h.call hs
  | handleEvents startTime clock cs =>
    obtain ⟨⟨s₁, es₁⟩, h₁, hs⟩ := Option.bind_eq_some_iff.mp hs
    cases hs
    have hd := (h.handOver rfl).deliverAll h₁
    rw [List.append_assoc] at hd
    exact hd
  | onThread i ret => exact h.onThread hs

/-- Runs keep the invariant. -/
theorem Inv.run {s s' : Pool} {es gs : List Event} (h : Inv s none es) {as : List Action}
    (hs : s.run as = some (s', gs)) : Inv s' none (es ++ gs) := by
  induction as generalizing s es gs with
  | nil =>
    cases hs
    rw [List.append_nil]
    exact h
  | cons a as ih =>
    obtain ⟨⟨s₁, es₁⟩, h₁, hs⟩ := Option.bind_eq_some_iff.mp hs
    obtain ⟨⟨s₂, es₂⟩, h₂, hs⟩ := Option.bind_eq_some_iff.mp hs
    cases hs
    rw [← List.append_assoc]
    exact ih (h.step h₁) h₂

/-! ## Progress -/

/-- A call other than `del`. -/
def NoDel : Call → Prop
  | .del _ => False
  | .init _ | .add _ _ _ | .cancel _ => True

/-- An action that does not call `del`. -/
def Harmless : Action → Prop
  | .call c => NoDel c
  | .handleEvents _ _ cs => ∀ i, ∀ c ∈ cs i, NoDel c
  | .onThread _ _ => True

/-- A call other than `del` reads no freed memory. -/
theorem call_isSome (s : Pool) {c : Call} (hc : NoDel c) : (s.call c).isSome := by
  cases c with
  | init count => rfl
  | add sink data isRecycle => rfl
  | del taskId => cases hc
  | cancel p =>
    unfold Pool.call
    dsimp only
    split <;> rfl

/-- Calls other than `del` read no freed memory. -/
theorem calls_isSome (s : Pool) {cs : List Call} (hc : ∀ c ∈ cs, NoDel c) :
    (s.calls cs).isSome := by
  induction cs generalizing s with
  | nil => rfl
  | cons c cs ih =>
    obtain ⟨⟨s₁, es₁⟩, h₁⟩ := Option.isSome_iff_exists.mp (call_isSome s (hc c List.mem_cons_self))
    obtain ⟨r, h₂⟩ := Option.isSome_iff_exists.mp (ih s₁ fun d hd => hc d (List.mem_cons_of_mem c hd))
    simp only [Pool.calls, h₁, h₂, Option.bind_eq_bind, Option.bind_some, Option.pure_def,
      Option.isSome_some]

/-- Delivery reads existing tasks only. -/
theorem Inv.deliverAll_isSome {s : Pool} {es : List Event} (h : Inv s none es) (startTime : ℤ)
    (clock : ℕ → ℤ) {cs : ℕ → List Call} (hc : ∀ i, ∀ c ∈ cs i, NoDel c) (i n : ℕ) :
    (s.deliverAll startTime clock cs i n).isSome := by
  induction n generalizing s es i with
  | zero => rfl
  | succ n ih =>
    unfold Pool.deliverAll
    cases hm : s.mMainTasks with
    | nil => rfl
    | cons p rest =>
      have hhd : s.mMainTasks.head? = some p := by rw [hm]; rfl
      obtain ⟨t, ht⟩ := h.load_of_completed (List.mem_of_mem_head? hhd)
      have hds : ∃ r, s.deliver p (cs i) = some r := by
        obtain ⟨r, hr⟩ := Option.isSome_iff_exists.mp (calls_isSome s (hc i))
        unfold Pool.deliver
        simp only [ht, hr, Option.bind_eq_bind, Option.bind_some, Option.pure_def]
        split <;> exact ⟨_, rfl⟩
      obtain ⟨⟨s₁, es₁⟩, h₁⟩ := hds
      obtain ⟨cur, hcur, hi, hhd'⟩ := h.deliver hhd h₁
      obtain ⟨t', ht'⟩ := hi.load_of_completed (List.mem_of_mem_head? hhd')
      have hfs : ∃ r, s₁.finish p = some r := by
        unfold Pool.finish
        simp only [ht', Option.bind_eq_bind, Option.bind_some, Option.pure_def]
        exact ⟨_, rfl⟩
      obtain ⟨⟨s₂, es₂⟩, h₂⟩ := hfs
      obtain ⟨r, hr⟩ := Option.isSome_iff_exists.mp (ih (hi.finish hcur hhd' h₂) (i + 1))
      simp only [h₁, h₂, hr, Option.bind_eq_bind, Option.bind_some, Option.pure_def]
      split <;> rfl

/-- Workers read existing tasks only. -/
theorem Inv.onThread_isSome {s : Pool} {cur : Option ℕ} {es : List Event} (h : Inv s cur es)
    (i : ℕ) (ret : ℤ) : (s.onThread i ret).isSome := by
  unfold Pool.onThread
  cases hi : s.mThreads[i]? with
  | none => rfl
  | some td =>
    dsimp only
    cases hst : td.status with
    | null => rfl
    | idle => rfl
    | «over» => rfl
    | busy =>
      obtain ⟨p, t, hp, ht⟩ := h.load_of_busy (List.mem_of_getElem? hi) hst
      simp only [hp, ht, Option.bind_eq_bind, Option.bind_some, Option.pure_def]
      split <;> split <;> rfl

/-- Only `del` can meet a pointer that is null or freed. -/
theorem Inv.step_isSome {s : Pool} {es : List Event} (h : Inv s none es) {a : Action}
    (ha : Harmless a) : (s.step a).isSome := by
  cases a with
  | call c => exact call_isSome s ha
  | handleEvents startTime clock cs =>
    have hd := (h.handOver rfl).deliverAll_isSome startTime clock ha 0 3
    obtain ⟨r, hr⟩ := Option.isSome_iff_exists.mp hd
    simp only [Pool.step, Pool.handleEvents, hr, Option.bind_eq_bind, Option.bind_some,
      Option.pure_def, Option.isSome_some]
  | onThread i ret => exact h.onThread_isSome i ret

/-! ## Conservation -/

/-- What holds of the tasks in a state after the events `es`. -/
structure Conserved (s : Pool) (es : List Event) : Prop where
  /-- Every addition makes one task. -/
  number : s.mTaskId = s.heap.length
  /-- Tasks are numbered from 1 in the order of their addition, so that their
  numbers are `int`s while there are fewer than `2 ^ 31`. -/
  ids : ∀ p t, s.load p = some t → t.id = p + 1 ∧ (s.heap.length < 2 ^ 31 → t.id < 2 ^ 31)
  /-- Every added task waits, is with a busy worker, is completed or has been
  removed, and only one of these. -/
  place : ∀ p < s.heap.length, (places s es).count p = 1
  /-- Tasks are handed to workers in the order they were added, once each. -/
  order : handedTasks es ++ s.mWaitTasks = List.range s.heap.length
  /-- No task is with two workers. -/
  worker : ∀ (i j p : ℕ) (td td' : ThreadData), s.mThreads[i]? = some td →
    s.mThreads[j]? = some td' → p ∈ held td → p ∈ held td' → i = j
  /-- `onMain` is called at most once for a task. -/
  main_once : (mainTasks es).Nodup
  /-- It is called after `onTask` has returned 0, and not once the flag is set. -/
  main_after : ∀ es₁ p sink data es₂, es = es₁ ++ .onMain p sink data :: es₂ →
    .returned p 0 ∈ es₁ ∧ .cancelled p ∉ es₁
  /-- The next action goes through, unless it calls `del`. -/
  next : ∀ a, Harmless a → (s.step a).isSome

/-- Slots of a list without repetitions share nothing. -/
theorem eq_of_mem_held {ths : List ThreadData} (h : (ths.flatMap held).Nodup) {i j p : ℕ}
    {td td' : ThreadData} (hi : ths[i]? = some td) (hj : ths[j]? = some td') (hp : p ∈ held td)
    (hp' : p ∈ held td') : i = j := by
  have hpw := (List.nodup_flatMap.mp h).2
  obtain ⟨hil, rfl⟩ := List.getElem?_eq_some_iff.mp hi
  obtain ⟨hjl, rfl⟩ := List.getElem?_eq_some_iff.mp hj
  rcases Nat.lt_trichotomy i j with hlt | heq | hgt
  · exact absurd hp' (List.pairwise_iff_getElem.mp hpw i j hil hjl hlt hp)
  · exact heq
  · exact absurd hp (List.pairwise_iff_getElem.mp hpw j i hjl hil hgt hp')

/-- In every run of adds, deletions, `handleEvents` and worker actions with any
number of workers and any results, tasks are conserved, handed over in order
and delivered at most once. -/
theorem tasks_conserved {as : List Action} {s : Pool} {es : List Event}
    (h : Pool.new.run as = some (s, es)) : Conserved s es := by
  have hinv := inv_new.run h
  rw [List.nil_append] at hinv
  have hnd := (List.nodup_append.mp hinv.linear.nodup).2.1
  obtain ⟨sent, hs, hf⟩ := hinv.order
  rw [List.forall₂_eq_eq_eq] at hf
  exact {
    number := hinv.taskId
    ids := fun p t ht => ⟨hinv.id p t ht, fun hl => by
      have hp := lt_of_load ht
      rw [hinv.id p t ht]
      omega⟩
    place := fun p hp => hinv.linear.count hp
    order := by rw [← hf, hs]
    worker := fun i j p td td' => eq_of_mem_held (List.nodup_append.mp hnd).1
    main_once := hinv.once.1
    main_after := hinv.once.2
    next := fun a ha => hinv.step_isSome ha }

/-- One worker gets one task, runs it twice and has it delivered. -/
def retriedTask : List Action :=
  [.call (.init 1), .call (.add (some 7) 3 true), .onThread 0 0, .handleEvents 0 (fun _ => 0) fun _ => [],
    .onThread 0 0, .onThread 0 1, .onThread 0 0, .onThread 0 0, .handleEvents 0 (fun _ => 0) fun _ => []]

/-- A task that is retried is delivered, and no task is lost. -/
theorem tasks_conserved_retriedTask : ∃ s es, Pool.new.run retriedTask = some (s, es) ∧
    .onMain 0 7 3 ∈ es ∧ Conserved s es :=
  ⟨_, _, rfl, by decide, @tasks_conserved retriedTask _ _ rfl⟩

end CdroidDemo.TaskConservation
