import Mathlib.Data.List.Forall2

/-!
# First-in first-out queues

A queue delivers what it has accepted in the same order, once each, possibly
changed on the way out; what it has not delivered yet is waiting in it. A
queue that drops a request follows its requests as long as it drops only
repeats of what it accepted last.
-/

namespace CdroidDemo.FifoQueue

variable {α β : Type*} {R : α → β → Prop}

/-- What has been accepted is what has been delivered, related one by one,
followed by what is waiting. -/
def Fifo (R : α → β → Prop) (accepted : List α) (delivered : List β) (waiting : List α) : Prop :=
  ∃ sent, accepted = sent ++ waiting ∧ List.Forall₂ R sent delivered

/-- An empty queue has no history. -/
theorem fifo_nil : Fifo R [] [] [] := ⟨[], rfl, List.Forall₂.nil⟩

/-- A newly accepted item waits behind the others. -/
theorem Fifo.push {acc : List α} {del : List β} {wait : List α} (h : Fifo R acc del wait) (a : α) :
    Fifo R (acc ++ [a]) del (wait ++ [a]) := by
  obtain ⟨sent, rfl, hf⟩ := h
  exact ⟨sent, List.append_assoc _ _ _, hf⟩

/-- The item that has waited longest is delivered next. -/
theorem Fifo.pop {acc : List α} {del : List β} {wait : List α} {a : α} {b : β}
    (h : Fifo R acc del (a :: wait)) (hr : R a b) : Fifo R acc (del ++ [b]) wait := by
  obtain ⟨sent, rfl, hf⟩ := h
  exact ⟨sent ++ [a], List.append_cons _ _ _,
    List.rel_append hf (List.Forall₂.cons hr List.Forall₂.nil)⟩

/-- The last items of lists that are related one by one are related. -/
theorem forall₂_getLast? {l : List α} {m : List β} (h : List.Forall₂ R l m) {a : α}
    (ha : l.getLast? = some a) : ∃ b, m.getLast? = some b ∧ R a b := by
  have hr := List.forall₂_reverse_iff.mpr h
  rw [← List.head?_reverse] at ha ⊢
  generalize l.reverse = xs at hr ha
  generalize m.reverse = ys at hr ⊢
  cases hr with
  | nil => cases ha
  | cons hab _ =>
    cases ha
    exact ⟨_, rfl, hab⟩

/-- Once nothing is waiting the last delivered item is the last accepted one. -/
theorem Fifo.last {acc : List α} {del : List β} (h : Fifo R acc del []) {a : α}
    (ha : acc.getLast? = some a) : ∃ b, del.getLast? = some b ∧ R a b := by
  obtain ⟨sent, rfl, hf⟩ := h
  rw [List.append_nil] at ha
  exact forall₂_getLast? hf ha

/-- Once more items are delivered than were accepted first, the last delivered
item is one that was accepted later. -/
theorem Fifo.last_new {first later wait : List α} {del : List β}
    (h : Fifo R (first ++ later) del wait) (hlen : first.length < del.length) :
    ∃ a ∈ later, ∃ b, del.getLast? = some b ∧ R a b := by
  obtain ⟨sent, heq, hf⟩ := h
  have hsent : sent.length = del.length := hf.length_eq
  rcases List.append_eq_append_iff.mp heq with ⟨mid, hmid, hlater⟩ | ⟨mid, hmid, -⟩
  · have hne : mid ≠ [] := by
      rintro rfl
      rw [hmid, List.append_nil] at hsent
      omega
    obtain ⟨a, ha⟩ := Option.isSome_iff_exists.mp (List.getLast?_isSome.mpr hne)
    have hlast : sent.getLast? = some a := by
      rw [hmid, List.getLast?_append, ha]
      rfl
    have hmem : a ∈ later := by
      rw [hlater]
      exact List.mem_append_left wait (List.mem_of_getLast? ha)
    exact ⟨a, hmem, forall₂_getLast? hf hlast⟩
  · have hle := congrArg List.length hmid
    rw [List.length_append] at hle
    omega

/-- The accepted items follow the requests: a request was dropped only when
it repeats, under `key`, the item accepted last before it. -/
inductive Follows {κ : Type*} (key : α → κ) : List α → List α → Prop
  /-- Nothing is asked for. -/
  | nil : Follows key [] []
  /-- A request is accepted. -/
  | accept {reqs acc : List α} (h : Follows key reqs acc) (a : α) :
      Follows key (reqs ++ [a]) (acc ++ [a])
  /-- A request that repeats the last accepted item is dropped. -/
  | drop {reqs acc : List α} (h : Follows key reqs acc) {a b : α} (hl : acc.getLast? = some b)
      (he : key b = key a) : Follows key (reqs ++ [a]) acc

/-- Only the keys of requests and accepted items matter. -/
theorem Follows.map {κ : Type*} {key : α → κ} {reqs acc : List α} (h : Follows key reqs acc) :
    Follows id (reqs.map key) (acc.map key) := by
  induction h with
  | nil => exact Follows.nil
  | accept _ a ih =>
    rw [List.map_append, List.map_append]
    exact ih.accept (key a)
  | drop _ hl he ih =>
    rw [List.map_append]
    refine ih.drop ?_ he
    rw [List.getLast?_map, hl, Option.map_some]

/-- The last accepted item carries the last request. -/
theorem Follows.last {κ : Type*} {key : α → κ} {reqs acc : List α} (h : Follows key reqs acc) :
    reqs.getLast?.map key = acc.getLast?.map key := by
  cases h with
  | nil => rfl
  | accept h a => rw [List.getLast?_concat, List.getLast?_concat]
  | drop h hl he => rw [List.getLast?_concat, hl, Option.map_some, Option.map_some, he]

end CdroidDemo.FifoQueue
