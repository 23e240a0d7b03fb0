import Mathlib.Data.List.Basic

/-!
# Messages behind a head of fixed size

A head tells how long the body behind it is. A stream of such messages is taken
apart again without knowing where they end.
-/

namespace CdroidDemo.SizedMessages

variable {α : Type*} (headLen : ℕ) (bodyLen : List α → ℕ)

/-- A head and the body that it announces. -/
def Announces (m : List α × List α) : Prop := m.1.length = headLen ∧ bodyLen m.1 = m.2.length

/-- What goes onto the stream. -/
def bytes (m : List α × List α) : List α := m.1 ++ m.2

/-- The message in front of a stream, and what is behind it. -/
def takeOne (l : List α) : Option ((List α × List α) × List α) :=
  let n := bodyLen (l.take headLen)
  if headLen + n ≤ l.length then
    some ((l.take headLen, (l.drop headLen).take n), (l.drop headLen).drop n)
  else none

/-- Up to a number of messages in front of a stream, and what is behind them. -/
def takeAll : ℕ → List α → List (List α × List α) × List α
  | 0, l => ([], l)
  | k + 1, l =>
    match takeOne headLen bodyLen l with
    | none => ([], l)
    | some (m, rest) => (m :: (takeAll k rest).1, (takeAll k rest).2)

variable {headLen bodyLen} {m : List α × List α} {ms : List (List α × List α)}

/-- A message that announces its length is taken from the front. -/
theorem takeOne_bytes (h : Announces headLen bodyLen m) (rest : List α) :
    takeOne headLen bodyLen (bytes m ++ rest) = some (m, rest) := by
  obtain ⟨head, body⟩ := m
  obtain ⟨hhead, hbody⟩ := h
  dsimp only at hhead hbody
  have htake : (head ++ body ++ rest).take headLen = head := by
    rw [List.append_assoc]
    exact List.take_left' hhead
  have hdrop : (head ++ body ++ rest).drop headLen = body ++ rest := by
    rw [List.append_assoc]
    exact List.drop_left' hhead
  have hlen : headLen + body.length ≤ (head ++ body ++ rest).length := by
    rw [List.length_append, List.length_append, hhead]
    exact Nat.le_add_right _ _
  unfold takeOne bytes
  dsimp only
  rw [htake, hdrop, hbody, if_pos hlen, List.take_left, List.drop_left]

/-- Messages are found again on the stream, and what is behind them stays. -/
theorem takeAll_bytes (h : ∀ m ∈ ms, Announces headLen bodyLen m) (rest : List α) :
    takeAll headLen bodyLen ms.length (ms.flatMap bytes ++ rest) = (ms, rest) := by
  induction ms with
  | nil => rfl
  | cons m ms ih =>
    have hrest := ih fun x hx => h x (List.mem_cons_of_mem m hx)
    rw [List.flatMap_cons, List.append_assoc, List.length_cons, takeAll,
      takeOne_bytes (h m List.mem_cons_self)]
    dsimp only
    rw [hrest]

end CdroidDemo.SizedMessages
