import Mathlib.Data.Int.Order.Basic
import Mathlib.Data.List.Nodup
import CdroidDemo.OrderedMap

/-!
# Command handlers

`CHandlerManager` keeps a vector of handlers for each command in a map.
Received packets are passed to the handlers of their type. The registry is an
ordered set of handlers for every command: a handler is appended once, and
removed from all commands together.
-/

namespace CdroidDemo.HandlerRegistry

variable {H : Type*} [DecidableEq H]

/-- `RECV_TIMEOUT_TIME`: silence reported as a timeout, in milliseconds. -/
def recvTimeoutTime : ℤ := 3000

/-- `CHandlerManager`; handlers are known by their address. -/
structure CHandlerManager (H : Type*) where
  /-- When a packet was received last. -/
  mLastRecvTime : ℤ
  /-- Timeouts reported since then. -/
  mRecvTimeout : ℕ
  /-- The handlers of each command. -/
  mHandlers : OrderedMap ℤ (List H)

namespace CHandlerManager

/-! ## The code -/

/-- The constructor, called at time `now`. -/
def new (now : ℤ) : CHandlerManager H := ⟨now, 0, OrderedMap.empty⟩

/-- `onCommand` for a packet of the given type: the handlers called, in order. -/
def onCommand (m : CHandlerManager H) (now : ℤ) (type : ℤ) : CHandlerManager H × List H :=
  let m := {m with mRecvTimeout := 0, mLastRecvTime := now}
  match m.mHandlers.find type with
  | none => (m, [])
  | some hds => if hds.isEmpty then (m, []) else (m, hds)

/-- `onTick`. -/
def onTick (m : CHandlerManager H) (now : ℤ) : CHandlerManager H :=
  if m.mRecvTimeout = 0 ∧ now - m.mLastRecvTime ≥ recvTimeoutTime then
    {m with mRecvTimeout := m.mRecvTimeout + 1}
  else m

/-- `addHandler`. -/
def addHandler (m : CHandlerManager H) (cmd : ℤ) (hd : H) : CHandlerManager H × Bool :=
  match m.mHandlers.find cmd with
  | none => ({m with mHandlers := m.mHandlers.insert cmd [hd]}, true)
  | some hds =>
    if hd ∈ hds then (m, false)
    else ({m with mHandlers := m.mHandlers.insert cmd (hds ++ [hd])}, true)

/-- What one round of the loop of `removeHandler` leaves of a command: the
first match is erased, and the command with it when no handler remains. -/
def removeFrom (hd : H) (hds : List H) : Option (List H) :=
  if hd ∈ hds then
    if (hds.erase hd).isEmpty then none else some (hds.erase hd)
  else some hds

/-- `removeHandler`. -/
def removeHandler (m : CHandlerManager H) (hd : H) : CHandlerManager H :=
  {m with mHandlers := m.mHandlers.filterMap (removeFrom hd)}

/-! ## Handlers of a command -/

/-- The handlers registered under a command. -/
def handlers (m : CHandlerManager H) (cmd : ℤ) : List H := (m.mHandlers.find cmd).getD []

omit [DecidableEq H] in

/-- A new manager has no handlers. -/
theorem handlers_new (now cmd : ℤ) : (new now : CHandlerManager H).handlers cmd = [] := rfl

omit [DecidableEq H] in
/-- A packet goes to all handlers of its type. -/
theorem onCommand_snd (m : CHandlerManager H) (now type : ℤ) :
    (m.onCommand now type).2 = m.handlers type := by
  unfold onCommand handlers
  dsimp only
  cases m.mHandlers.find type with
  | none => rfl
  | some hds => cases hds <;> rfl

omit [DecidableEq H] in

/-- A command registers nothing, -/
theorem handlers_onCommand (m : CHandlerManager H) (now type cmd : ℤ) :
    (m.onCommand now type).1.handlers cmd = m.handlers cmd := by
  unfold onCommand
  dsimp only
  cases m.mHandlers.find type with
  | none => rfl
  | some hds => cases hds <;> rfl

omit [DecidableEq H] in

/-- and neither does a tick. -/
theorem handlers_onTick (m : CHandlerManager H) (now cmd : ℤ) :
    (m.onTick now).handlers cmd = m.handlers cmd := by
  unfold onTick
  split <;> rfl

/-- Addition succeeds exactly when the handler is not registered yet. -/
theorem addHandler_snd (m : CHandlerManager H) (cmd : ℤ) (hd : H) :
    (m.addHandler cmd hd).2 = true ↔ hd ∉ m.handlers cmd := by
  unfold addHandler handlers
  cases m.mHandlers.find cmd with
  | none => simp
  | some hds => by_cases h : hd ∈ hds <;> simp [h]

/-- A handler that is new to the command comes last in it. -/
theorem handlers_addHandler (m : CHandlerManager H) (cmd c : ℤ) (hd : H) :
    (m.addHandler cmd hd).1.handlers c =
      if c = cmd ∧ hd ∉ m.handlers cmd then m.handlers c ++ [hd] else m.handlers c := by
  unfold addHandler handlers
  cases hf : m.mHandlers.find cmd with
  | none =>
    simp only [OrderedMap.find_insert, Option.getD_none, List.not_mem_nil, not_false_eq_true,
      and_true]
    by_cases hc : c = cmd
    · simp [hc, hf]
    · simp [hc]
  | some hds =>
    by_cases h : hd ∈ hds
    · simp [h]
    · by_cases hc : c = cmd
      · simp [h, hc, hf]
      · simp [h, hc]

/-- What `removeFrom` leaves, an erased command counted as one without handlers. -/
theorem getD_removeFrom (hd : H) (hds : List H) : (removeFrom hd hds).getD [] = hds.erase hd := by
  unfold removeFrom
  by_cases h : hd ∈ hds
  · rw [if_pos h]
    split
    · rename_i he
      rw [List.isEmpty_iff.mp he, Option.getD_none]
    · rfl
  · rw [if_neg h, Option.getD_some, List.erase_of_not_mem h]

/-- Where no handler occurs twice, erasing one occurrence takes it out. -/
theorem erase_eq_filter {hds : List H} (h : hds.Nodup) (hd : H) :
    hds.erase hd = hds.filter (· ≠ hd) := by
  rw [h.erase_eq_filter hd]
  refine List.filter_congr fun x _ => ?_
  rw [bne, beq_eq_decide, decide_not]

/-- Removal erases one occurrence under every command. -/
theorem handlers_removeHandler (m : CHandlerManager H) (hd : H) (cmd : ℤ) :
    (m.removeHandler hd).handlers cmd = (m.handlers cmd).erase hd := by
  unfold removeHandler handlers
  rw [OrderedMap.find_filterMap]
  cases m.mHandlers.find cmd with
  | none => rfl
  | some hds => exact getD_removeFrom hd hds

end CHandlerManager

/-! ## Ordered sets of handlers -/

/-- An ordered set of handlers for every command. -/
structure Registry (H : Type*) where
  /-- The handlers of a command, in the order of their registration. -/
  under : ℤ → List H
  /-- No handler is registered twice under a command. -/
  nodup : ∀ cmd, (under cmd).Nodup

namespace Registry

/-- Nothing is registered. -/
def empty : Registry H := ⟨fun _ => [], fun _ => List.nodup_nil⟩

/-- The handler comes last under the command, unless it is registered there. -/
def add (r : Registry H) (cmd : ℤ) (hd : H) : Registry H where
  under c := if c = cmd ∧ hd ∉ r.under cmd then r.under c ++ [hd] else r.under c
  nodup c := by
    split
    · rename_i h
      obtain ⟨rfl, hn⟩ := h
      rw [← List.concat_eq_append]
      exact (r.nodup c).concat hn
    · exact r.nodup c

/-- The handler leaves every command. -/
def remove (r : Registry H) (hd : H) : Registry H where
  under c := (r.under c).filter (· ≠ hd)
  nodup c := (r.nodup c).filter _

end Registry

/-! ## Runs -/

/-- Calls of the manager. -/
inductive Call (H : Type*)
  /-- A handler is added for a command. -/
  | addHandler (cmd : ℤ) (hd : H)
  /-- A handler is removed. -/
  | removeHandler (hd : H)
  /-- A command comes in. -/
  | onCommand (now type : ℤ)
  /-- A tick of the manager. -/
  | onTick (now : ℤ)

/-- What a call shows to the outside. -/
inductive Outcome (H : Type*)
  /-- `addHandler` returned. -/
  | added (ok : Bool)
  /-- `onCommand` called `onRecv` of these handlers. -/
  | received (hds : List H)
  /-- Nothing to see. -/
  | done

/-- One call of the code. -/
def CHandlerManager.call (m : CHandlerManager H) : Call H → CHandlerManager H × Outcome H
  | .addHandler cmd hd => ((m.addHandler cmd hd).1, .added (m.addHandler cmd hd).2)
  | .removeHandler hd => (m.removeHandler hd, .done)
  | .onCommand now type => ((m.onCommand now type).1, .received (m.onCommand now type).2)
  | .onTick now => (m.onTick now, .done)

/-- The same call on ordered sets. -/
def Registry.call (r : Registry H) : Call H → Registry H × Outcome H
  | .addHandler cmd hd => (r.add cmd hd, .added (decide (hd ∉ r.under cmd)))
  | .removeHandler hd => (r.remove hd, .done)
  | .onCommand _ type => (r, .received (r.under type))
  | .onTick _ => (r, .done)

/-- A sequence of calls with everything it shows. -/
def CHandlerManager.run (m : CHandlerManager H) :
    List (Call H) → CHandlerManager H × List (Outcome H)
  | [] => (m, [])
  | c :: cs => (((m.call c).1.run cs).1, (m.call c).2 :: ((m.call c).1.run cs).2)

/-- The same sequence on ordered sets. -/
def Registry.run (r : Registry H) : List (Call H) → Registry H × List (Outcome H)
  | [] => (r, [])
  | c :: cs => (((r.call c).1.run cs).1, (r.call c).2 :: ((r.call c).1.run cs).2)

/-- The manager holds the registrations of the ordered sets. -/
def Refines (m : CHandlerManager H) (r : Registry H) : Prop := ∀ cmd, m.handlers cmd = r.under cmd

omit [DecidableEq H] in

/-- A new manager stands for the empty registry. -/
theorem refines_new (now : ℤ) : Refines (CHandlerManager.new now : CHandlerManager H) Registry.empty :=
  CHandlerManager.handlers_new now

/-- A call keeps the refinement and shows the same. -/
theorem Refines.call {m : CHandlerManager H} {r : Registry H} (h : Refines m r) (c : Call H) :
    Refines (m.call c).1 (r.call c).1 ∧ (m.call c).2 = (r.call c).2 := by
  cases c with
  | addHandler cmd hd =>
    refine ⟨fun c => ?_, congrArg Outcome.added ?_⟩
    · exact (m.handlers_addHandler cmd c hd).trans (by rw [h c, h cmd]; rfl)
    · rw [Bool.eq_iff_iff, m.addHandler_snd cmd hd, h cmd, decide_eq_true_iff]
  | removeHandler hd =>
    refine ⟨fun c => ?_, rfl⟩
    have he := CHandlerManager.erase_eq_filter (r.nodup c) hd
    exact (m.handlers_removeHandler hd c).trans (by rw [h c, he]; rfl)
  | onCommand now type =>
    refine ⟨fun c => (m.handlers_onCommand now type c).trans (h c), congrArg Outcome.received ?_⟩
    exact (m.onCommand_snd now type).trans (h type)
  | onTick now => exact ⟨fun c => (m.handlers_onTick now c).trans (h c), rfl⟩

/-- A run keeps the refinement and shows the same. -/
theorem Refines.run {m : CHandlerManager H} {r : Registry H} (h : Refines m r) (cs : List (Call H)) :
    Refines (m.run cs).1 (r.run cs).1 ∧ (m.run cs).2 = (r.run cs).2 := by
  induction cs generalizing m r with
  | nil => exact ⟨h, rfl⟩
  | cons c cs ih =>
    have hc := h.call c
    have ht := ih hc.1
    exact ⟨ht.1, congrArg₂ List.cons hc.2 ht.2⟩

/-- The registrations that a sequence of calls leaves, from the calls alone. -/
def registered (calls : List (Call H)) : Registry H := (Registry.empty.run calls).1

/-- The manager after a sequence of calls. -/
def reached (now : ℤ) (calls : List (Call H)) : CHandlerManager H :=
  ((CHandlerManager.new now).run calls).1

/-- After any sequence of calls the registry is an ordered set of handlers for
each command: it shows what ordered sets show, addition succeeds for new
handlers and puts them last, removal takes a handler from all commands and
keeps the rest in order, and a packet reaches the handlers of its type once
each in the order of registration. -/
theorem registry_refines_ordered_sets (now₀ : ℤ) (calls : List (Call H)) :
    let m := reached now₀ calls
    ((CHandlerManager.new now₀).run calls).2 = (Registry.empty.run calls).2 ∧
    (∀ c, m.handlers c = (registered calls).under c ∧ (m.handlers c).Nodup) ∧
    (∀ c hd, ((m.addHandler c hd).2 = true ↔ hd ∉ m.handlers c) ∧
      ∀ d, (m.addHandler c hd).1.handlers d =
        if d = c ∧ hd ∉ m.handlers c then m.handlers d ++ [hd] else m.handlers d) ∧
    (∀ hd c, hd ∉ (m.removeHandler hd).handlers c ∧
      (m.removeHandler hd).handlers c = (m.handlers c).filter (· ≠ hd)) ∧
    (∀ now c, (m.onCommand now c).2 = m.handlers c) ∧
    ∀ hd now c, ((m.removeHandler hd).onCommand now c).2 = (m.handlers c).filter (· ≠ hd) := by
  intro m
  have hr := (refines_new now₀).run calls
  have hn : ∀ c, (m.handlers c).Nodup := fun c => hr.1 c ▸ (registered calls).nodup c
  have he : ∀ hd c, (m.removeHandler hd).handlers c = (m.handlers c).filter (· ≠ hd) := by
    intro hd c
    rw [m.handlers_removeHandler hd c, CHandlerManager.erase_eq_filter (hn c)]
  refine ⟨hr.2, fun c => ⟨hr.1 c, hn c⟩, fun c hd => ⟨m.addHandler_snd c hd, fun d => ?_⟩,
    fun hd c => ⟨?_, he hd c⟩, m.onCommand_snd, fun hd now c => ?_⟩
  · exact m.handlers_addHandler c d hd
  · rw [he hd c]
    simp
  · rw [CHandlerManager.onCommand_snd, he hd c]

end CdroidDemo.HandlerRegistry
