import CdroidDemo.CommandRefresh

/-!
# The manager in the event loop

The application asks the manager in every turn whether it has something to do.
It has at most every 50 ms, and the more often it is asked the closer its ticks
keep to that. So the time a command takes depends only on the length of the
turns of the loop.
-/

namespace CdroidDemo.PolledManager

open PacketBuffer BufferOwnership ConnMgr ManagerRuns CommandDelivery CommandRefresh
open RefreshedQueue

/-! ## The code -/

/-- `TICK_TIME`. -/
def TICK_TIME : ℤ := 50

/-- The manager with `mNextEventTime`. -/
structure Polled where
  /-- The manager. -/
  m : CConnMgr
  /-- When the next poll is due. -/
  mNextEventTime : ℤ

/-- The end of `init`, at a clock reading. -/
def init (m : CConnMgr) (uptime : ℤ) : Polled := ⟨m, uptime + TICK_TIME * 10⟩

/-- `checkEvents`. -/
def checkEvents (s : Polled) (curr_tick : ℤ) : Polled × Bool :=
  if s.mNextEventTime ≤ curr_tick then ({s with mNextEventTime := curr_tick + TICK_TIME}, true)
  else (s, false)

/-- What happens in the event loop. -/
inductive Turn
  /-- `checkEvents` at a clock reading and, if it says so, `handleEvents`. -/
  | poll (curr_tick nowTick tickTime sendTime : ℤ)
  /-- A call that something else makes. -/
  | other (a : Call)

/-- One turn. -/
def turn (s : Polled) : Turn → Option (Polled × List Event)
  | .poll curr_tick nowTick tickTime sendTime =>
    let r := checkEvents s curr_tick
    if r.2 then do
      let (m, es) ← call r.1.m (.handleEvents nowTick tickTime sendTime)
      return ({r.1 with m := m}, es)
    else some (r.1, [])
  | .other a => do
    let (m, es) ← call s.m a
    return ({s with m := m}, es)

/-- Turns in order. -/
def turns (s : Polled) : List Turn → Option (Polled × List Event)
  | [] => some (s, [])
  | t :: ts => do
    let (s, es) ← turn s t
    let (s, gs) ← turns s ts
    return (s, es ++ gs)

/-! ## Polls and ticks -/

/-- The calls that are made, with `mNextEventTime` before them. -/
def made : ℤ → List Turn → List Call
  | _, [] => []
  | next, .poll curr_tick nowTick tickTime sendTime :: ts =>
    if next ≤ curr_tick then
      .handleEvents nowTick tickTime sendTime :: made (curr_tick + TICK_TIME) ts
    else made next ts
  | next, .other a :: ts => a :: made next ts

/-- `mNextEventTime` after the turns. -/
def nextAfter : ℤ → List Turn → ℤ
  | next, [] => next
  | next, .poll curr_tick _ _ _ :: ts =>
    if next ≤ curr_tick then nextAfter (curr_tick + TICK_TIME) ts else nextAfter next ts
  | next, .other _ :: ts => nextAfter next ts

/-- Turns are the calls that are made in them. -/
theorem turns_made (s : Polled) (ts : List Turn) :
    turns s ts = (calls s.m (made s.mNextEventTime ts)).map fun r =>
      (⟨r.1, nextAfter s.mNextEventTime ts⟩, r.2) := by
  induction ts generalizing s with
  | nil => rfl
  | cons t ts ih =>
    cases t with
    | poll curr_tick nowTick tickTime sendTime =>
      rw [turns, turn, made, nextAfter]
      unfold checkEvents
      by_cases hdue : s.mNextEventTime ≤ curr_tick
      · simp only [if_pos hdue, if_true]
        rw [calls]
        cases hcall : call s.m (.handleEvents nowTick tickTime sendTime) with
        | none => rfl
        | some r =>
          simp only [Option.bind_eq_bind, Option.bind_some, Option.pure_def, ih]
          cases calls r.1 (made (curr_tick + TICK_TIME) ts) <;> rfl
      · simp only [if_neg hdue, Bool.false_eq_true, if_false, Option.bind_eq_bind,
          Option.bind_some, Option.pure_def, ih]
        cases calls s.m (made s.mNextEventTime ts) <;> rfl
    | other a =>
      rw [turns, turn, made, nextAfter, calls]
      cases hcall : call s.m a with
      | none => rfl
      | some r =>
        simp only [Option.bind_eq_bind, Option.bind_some, Option.pure_def, ih]
        cases calls r.1 (made s.mNextEventTime ts) <;> rfl

/-- Calls of `handleEvents` come from polls only. -/
def Foreign : Turn → Prop
  | .other (.handleEvents _ _ _) => False
  | _ => True

/-- The clock does not go back, and every poll has ended at most `e` after the
one before has begun. Before the turns a poll has begun at `begun` and ended at
`ended`. -/
def Polling (e : ℤ) : ℤ → ℤ → List Turn → Prop
  | _, _, [] => True
  | begun, ended, .poll curr_tick nowTick tickTime sendTime :: ts =>
    (ended ≤ curr_tick ∧ curr_tick ≤ nowTick ∧ nowTick ≤ tickTime ∧ tickTime ≤ sendTime ∧
      sendTime - begun ≤ e) ∧ Polling e curr_tick sendTime ts
  | begun, ended, .other _ :: ts => Polling e begun ended ts

/-- The ticks of a polled manager come in time. Seen from time `v`, the next
one is due at most 50 ms later. -/
theorem made_timely {e begun ended next v : ℤ} {ts : List Turn} (hf : ∀ t ∈ ts, Foreign t)
    (hp : Polling e begun ended ts) (hv : v ≤ ended) (hb : begun ≤ v ∨ begun < next)
    (hn : next ≤ v + TICK_TIME) : Timely (TICK_TIME + e) v (beatsOf (made next ts)) := by
  induction ts generalizing begun ended next v with
  | nil => trivial
  | cons t ts ih =>
    have hrest : ∀ t ∈ ts, Foreign t := fun t ht => hf t (List.mem_cons_of_mem _ ht)
    cases t with
    | poll curr_tick nowTick tickTime sendTime =>
      obtain ⟨⟨h₁, h₂, h₃, h₄, h₅⟩, hp'⟩ := hp
      unfold TICK_TIME at hn ⊢
      rw [made]
      split
      · next hdue =>
        refine ⟨⟨?_, h₃, h₄, ?_⟩, ?_⟩
        · change v ≤ nowTick
          omega
        · change sendTime - v ≤ 50 + e
          omega
        · exact ih hrest hp' h₄ (Or.inl (h₂.trans h₃)) (Int.add_le_add_right (h₂.trans h₃) 50)
      · next hearly => exact ih hrest hp' (by omega) (Or.inr (not_le.mp hearly)) hn
    | other a =>
      have ha := hf _ List.mem_cons_self
      have hsame : beatsOf (made next (.other a :: ts)) = beatsOf (made next ts) := by
        cases a with
        | setter x => rfl
        | handleEvents nowTick tickTime sendTime => exact absurd ha id
        | onUartData clock buf => rfl
      rw [hsame]
      exact ih hrest hp hv hb hn

/-- A poll at a late time comes behind a tick that is nearly as late. -/
theorem made_late {e begun ended next T : ℤ} {ts : List Turn} (hp : Polling e begun ended ts)
    (hn : next ≤ T + TICK_TIME)
    (hlate : ∃ c n t s, .poll c n t s ∈ ts ∧ T + TICK_TIME ≤ c) :
    ∃ t ∈ beatsOf (made next ts), T < t.serve := by
  have hstep : ∀ {a : Call} {l : List Call}, (∃ t ∈ beatsOf l, T < t.serve) →
      ∃ t ∈ beatsOf (a :: l), T < t.serve := by
    rintro a l ⟨t, ht, hlt⟩
    obtain ⟨b, hb, hbeat⟩ := List.mem_filterMap.mp ht
    exact ⟨t, List.mem_filterMap.mpr ⟨b, List.mem_cons_of_mem a hb, hbeat⟩, hlt⟩
  unfold TICK_TIME at hn hlate
  induction ts generalizing begun ended next with
  | nil =>
    obtain ⟨c, n, t, s, hmem, -⟩ := hlate
    cases hmem
  | cons t ts ih =>
    cases t with
    | poll curr_tick nowTick tickTime sendTime =>
      obtain ⟨⟨h₁, h₂, h₃, h₄, h₅⟩, hp'⟩ := hp
      rw [made]
      by_cases hdue : next ≤ curr_tick
      · rw [if_pos hdue]
        by_cases hnow : T < tickTime
        · exact ⟨⟨nowTick, tickTime, sendTime⟩, List.mem_cons_self, hnow⟩
        · refine hstep (ih hp' (by unfold TICK_TIME; omega) ?_)
          obtain ⟨c, n, t, s, hmem, hc⟩ := hlate
          rcases List.mem_cons.mp hmem with he | hmem
          · cases he
            omega
          · exact ⟨c, n, t, s, hmem, hc⟩
      · rw [if_neg hdue]
        refine ih hp' hn ?_
        obtain ⟨c, n, t, s, hmem, hc⟩ := hlate
        rcases List.mem_cons.mp hmem with he | hmem
        · cases he
          omega
        · exact ⟨c, n, t, s, hmem, hc⟩
    | other a =>
      rw [made]
      refine hstep (ih hp hn ?_)
      obtain ⟨c, n, t, s, hmem, hc⟩ := hlate
      rcases List.mem_cons.mp hmem with he | hmem
      · cases he
      · exact ⟨c, n, t, s, hmem, hc⟩

/-- Every call that is made is one of a turn. -/
theorem made_mem {next : ℤ} {ts : List Turn} {a : Call} (h : a ∈ made next ts) :
    .other a ∈ ts ∨ ∃ c n t s, a = .handleEvents n t s ∧ .poll c n t s ∈ ts := by
  have hlater : ∀ {t : Turn} {ts : List Turn},
      (.other a ∈ ts ∨ ∃ c n t s, a = .handleEvents n t s ∧ .poll c n t s ∈ ts) →
      .other a ∈ t :: ts ∨ ∃ c n u s, a = .handleEvents n u s ∧ .poll c n u s ∈ t :: ts := by
    rintro t ts (h | ⟨c, n, u, s, ha, h⟩)
    · exact Or.inl (List.mem_cons_of_mem t h)
    · exact Or.inr ⟨c, n, u, s, ha, List.mem_cons_of_mem t h⟩
  induction ts generalizing next with
  | nil => cases h
  | cons t ts ih =>
    cases t with
    | poll curr_tick nowTick tickTime sendTime =>
      rw [made] at h
      split at h
      · rcases List.mem_cons.mp h with rfl | h
        · exact Or.inr ⟨_, _, _, _, rfl, List.mem_cons_self⟩
        · exact hlater (ih h)
      · exact hlater (ih h)
    | other b =>
      rw [made] at h
      rcases List.mem_cons.mp h with rfl | h
      · exact Or.inl List.mem_cons_self
      · exact hlater (ih h)

/-- The beats are polls. -/
theorem made_beats {next : ℤ} {ts : List Turn} (hf : ∀ t ∈ ts, Foreign t) {t : Beat}
    (ht : t ∈ beatsOf (made next ts)) : ∃ c, .poll c t.start t.serve t.refresh ∈ ts := by
  obtain ⟨a, ha, hbeat⟩ := List.mem_filterMap.mp ht
  rcases made_mem ha with hother | ⟨c, n, u, s, rfl, hpoll⟩
  · have hforeign := hf _ hother
    cases a with
    | setter x => cases hbeat
    | handleEvents nowTick tickTime sendTime => exact absurd hforeign id
    | onUartData clock buf => cases hbeat
  · cases hbeat
    exact ⟨c, hpoll⟩

/-- After any turns the next poll is due within one tick. -/
theorem nextAfter_le {next T : ℤ} {ts : List Turn} (hn : next ≤ T + TICK_TIME)
    (hpast : ∀ c n t s, .poll c n t s ∈ ts → c ≤ T) : nextAfter next ts ≤ T + TICK_TIME := by
  induction ts generalizing next with
  | nil => exact hn
  | cons t ts ih =>
    have hrest : ∀ c n u s, .poll c n u s ∈ ts → c ≤ T :=
      fun c n u s hm => hpast c n u s (List.mem_cons_of_mem t hm)
    cases t with
    | poll curr_tick nowTick tickTime sendTime =>
      rw [nextAfter]
      split
      · exact ih (Int.add_le_add_right (hpast _ _ _ _ List.mem_cons_self) TICK_TIME) hrest
      · exact ih hn hrest
    | other a => exact ih hn hrest

/-! ## From a setter call to the line -/

/-- Behind the last setter call, in an event loop whose polls follow one
another within `e` milliseconds, the last frame transmitted carries the current
command as soon as a poll comes `1300 + 3 * e + k * (150 + e)` milliseconds
later, where `k` frames were in the queue, whatever has been called and dropped
since `init`. -/
theorem polled_commands_arrive {as bs : List Turn} {t₁ t₀ e : ℤ} {s : Polled} {es : List Event}
    (h : turns (init initial t₁) as = some (s, es)) (h₁ : 0 ≤ t₁) (h₀ : t₁ + 450 ≤ t₀)
    (has : ∀ t ∈ as, Foreign t) (hpast : ∀ c n t s, .poll c n t s ∈ as →
      c ≤ t₀ ∧ 0 ≤ t ∧ t ≤ t₀ ∧ s ≤ t₀)
    (hbs : ∀ t ∈ bs, Foreign t) (hno : ∀ x, .other (.setter x) ∉ bs) (he : 0 ≤ e)
    (hp : Polling e t₀ t₀ bs) (hlate : ∃ c n t u, .poll c n t u ∈ bs ∧
      t₀ + 1300 + 3 * e + s.m.mUartMCU.mSendQueue.length * (150 + e) ≤ c) :
    ∃ s' gs, turns s bs = some (s', gs) ∧
      ∃ x, (sentOut gs).getLast? = some x ∧ commandBytes x.2 = command s.m.mSndData := by
  have hnext₀ : (init initial t₁).mNextEventTime ≤ t₀ + TICK_TIME := by
    change t₁ + TICK_TIME * 10 ≤ t₀ + TICK_TIME
    unfold TICK_TIME
    omega
  rw [turns_made] at h
  obtain ⟨⟨m, gs⟩, hcalls, hs⟩ := Option.map_eq_some_iff.mp h
  cases hs
  have hbefore : ∀ t ∈ beatsOf (made (init initial t₁).mNextEventTime as),
      0 ≤ t.serve ∧ t.serve ≤ t₀ ∧ t.refresh ≤ t₀ := by
    intro t ht
    obtain ⟨c, hc⟩ := made_beats has ht
    exact (hpast _ _ _ _ hc).2
  obtain ⟨hk, hpst⟩ := kept_calls hcalls (by omega) hbefore
  have hnext : nextAfter (init initial t₁).mNextEventTime as ≤ t₀ + TICK_TIME :=
    nextAfter_le hnext₀ fun c n t s hc => (hpast c n t s hc).1
  have hno' : ∀ x, .setter x ∉ made (nextAfter (init initial t₁).mNextEventTime as) bs := by
    intro x hx
    rcases made_mem hx with hother | ⟨c, n, u, s, heq, -⟩
    · exact hno x hother
    · cases heq
  have htimely := made_timely hbs hp (le_refl t₀) (Or.inl (le_refl t₀)) hnext
  obtain ⟨c, n, t, u, hmem, hc⟩ := hlate
  have htick : TICK_TIME = 50 := rfl
  have hgap : (100 : ℤ) + (TICK_TIME + e) = 150 + e := by omega
  have hwait : 0 ≤ (m.mUartMCU.mSendQueue.length : ℤ) * (100 + (TICK_TIME + e)) :=
    Int.mul_nonneg (Int.natCast_nonneg _) (by omega)
  have hlong : ∃ t ∈ beatsOf (made (nextAfter (init initial t₁).mNextEventTime as) bs),
      t₀ + 1100 + 3 * (TICK_TIME + e) +
        m.mUartMCU.mSendQueue.length * (100 + (TICK_TIME + e)) < t.serve := by
    refine made_late hp (hnext.trans (by omega)) ⟨c, n, t, u, hmem, ?_⟩
    rw [hgap, htick]
    dsimp only at hc
    omega
  obtain ⟨m', gs', hcalls', hx⟩ := hk.arrives hpst hno' (by omega) htimely hlong
  refine ⟨⟨m', nextAfter (nextAfter (init initial t₁).mNextEventTime as) bs⟩, gs', ?_, hx⟩
  rw [turns_made, hcalls']
  rfl

/-- Polls of the manager. -/
def pollsAt : List ℤ → List Turn := List.map fun t => .poll t t t t

/-- Hot water is switched on and off twice between polls, 50 ms apart. -/
def switching : List Turn :=
  pollsAt [4990, 5000] ++ [.other (.setter (.setWaterAction .hotWater))] ++ pollsAt [5050] ++
    [.other (.setter (.setWaterAction .null))] ++ pollsAt [5100] ++
    [.other (.setter (.setWaterAction .hotWater))] ++ pollsAt [5150] ++
    [.other (.setter (.setWaterAction .null))] ++ pollsAt [5200]

/-- A switched command arrives after nine polls. -/
theorem polled_commands_arrive_switching :
    ∃ s es s' gs, turns (init initial 0) switching = some (s, es) ∧
      turns s (pollsAt [5700, 6200, 6700, 7200, 7700, 8200, 8700, 9200, 9700]) = some (s', gs) ∧
      ∃ x, (sentOut gs).getLast? = some x ∧
        commandBytes x.2 = [0, 0, 0, 0, 0, 0, 0, 0, 0] := by
  have hstop : (turns (init initial 0) switching).any (fun x =>
      decide (x.1.m.mUartMCU.mSendQueue.length ≤ 2 ∧
        command x.1.m.mSndData = [0, 0, 0, 0, 0, 0, 0, 0, 0])) = true := by
    decide +kernel
  obtain ⟨⟨s, es⟩, hturns, hx⟩ := (Option.any_eq_true _ _).mp hstop
  obtain ⟨hlen, hcmd⟩ := of_decide_eq_true hx
  dsimp only at hlen hcmd
  have hforeign : ∀ ts, ∀ t ∈ pollsAt ts, Foreign t := by
    intro ts t ht
    obtain ⟨c, -, rfl⟩ := List.mem_map.mp ht
    trivial
  have has : ∀ t ∈ switching, Foreign t := by
    simp [switching, pollsAt, Foreign]
  have hpast : ∀ c n t u, .poll c n t u ∈ switching →
      c ≤ 5200 ∧ 0 ≤ t ∧ t ≤ 5200 ∧ u ≤ 5200 := by
    intro c n t u ht
    simp only [switching, pollsAt, List.map_cons, List.map_nil, List.cons_append,
      List.nil_append, List.mem_cons, Turn.poll.injEq, reduceCtorEq, List.not_mem_nil,
      false_or, or_false] at ht
    omega
  have hno : ∀ x, .other (.setter x) ∉
      pollsAt [5700, 6200, 6700, 7200, 7700, 8200, 8700, 9200, 9700] := by
    intro x hx
    obtain ⟨t, -, he⟩ := List.mem_map.mp hx
    cases he
  have hpolling : Polling 500 5200 5200
      (pollsAt [5700, 6200, 6700, 7200, 7700, 8200, 8700, 9200, 9700]) := by
    simp [pollsAt, Polling]
  obtain ⟨s', gs, hturns', x, hlast, hbytes⟩ := polled_commands_arrive hturns (by omega)
    (by omega) has hpast (hforeign _) hno (by omega) hpolling
    ⟨9700, 9700, 9700, 9700, by simp [pollsAt], by omega⟩
  exact ⟨s, es, s', gs, hturns, hturns', x, hlast, hbytes.trans hcmd⟩

end CdroidDemo.PolledManager
