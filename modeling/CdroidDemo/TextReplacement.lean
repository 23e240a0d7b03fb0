import CdroidDemo.BoundedText

/-!
# What replacing leaves

The loop of `replace_all` searches a string that it changes behind its back.
Before each search the string is a finished part and a part of the original
one, and the position is where they meet. A string that gets too long throws,
and then the replaced text is too long as well.
-/

namespace CdroidDemo.TextReplacement

open Occurrences BoundedText CommFunc

variable {old_value new_value : StdString}

/-- A search from the end of the finished part searches the rest. -/
theorem find_append (done rest old_value : List UInt8) :
    find (done ++ rest) old_value done.length =
      (firstIndex old_value rest).map (done.length + ·) := by
  rw [find, List.length_append, if_pos (Nat.le_add_right _ _), List.drop_left]

/-- Replacing an occurrence in the rest lengthens the finished part. -/
theorem replace_append (done p q old_value new_value : List UInt8) :
    CommFunc.replace (done ++ (p ++ old_value ++ q)) (done.length + p.length) old_value.length
        new_value =
      (done ++ p ++ new_value) ++ q := by
  have hs : done ++ (p ++ old_value ++ q) = (done ++ p) ++ (old_value ++ q) := by
    simp only [List.append_assoc]
  rw [CommFunc.replace, hs, ← List.length_append, List.take_left, ← List.drop_drop, List.drop_left,
    List.drop_left]

/-- From the end of the finished part on the loop replaces in the rest. -/
theorem replaceLoop_replaced (ho : old_value.1 ≠ []) {rest r : List UInt8}
    (h : Replaced old_value.1 new_value.1 rest r) {n : ℕ} {done : List UInt8} {src : StdString}
    (hs : src.1 = done ++ rest) (hn : rest.length < n) :
    replaceLoop old_value new_value n src done.length = some (ofBytes (done ++ r)) := by
  have hpos := List.length_pos_iff.mpr ho
  induction h generalizing n done src with
  | rest hno =>
    obtain ⟨n, rfl⟩ : ∃ m, n = m + 1 := ⟨n - 1, by omega⟩
    rw [replaceLoop, hs, find_append, firstIndex_of_not_infix hno, ← hs, ofBytes_val]
    rfl
  | @next rest p q r hrest hfirst hq ih =>
    obtain ⟨n, rfl⟩ : ∃ m, n = m + 1 := ⟨n - 1, by omega⟩
    subst hrest
    have hshort : q.length < n := by
      simp only [List.length_append] at hn
      omega
    have hfound : find src.1 old_value.1 done.length = some (done.length + p.length) := by
      rw [hs, find_append, hfirst.firstIndex_eq]
      rfl
    have hreplace : BoundedText.replace src (done.length + p.length) old_value.1.length new_value =
        ofBytes ((done ++ p ++ new_value.1) ++ q) := by
      rw [BoundedText.replace, hs, replace_append]
    have hall : done ++ (p ++ new_value.1 ++ r) = (done ++ p ++ new_value.1) ++ r := by
      simp only [List.append_assoc]
    rw [replaceLoop, hfound, hall]
    dsimp only
    rw [hreplace]
    rcases Nat.lt_or_ge MAX_SIZE ((done ++ p ++ new_value.1) ++ q).length with hlong | hfits
    · have hlen := hq.length_le
      have hsrc := src.2
      rw [hs] at hsrc
      simp only [List.length_append] at hlong hsrc hlen
      rw [ofBytes_error (by simp only [List.length_append]; omega),
        ofBytes_error (by simp only [List.length_append]; omega)]
    · have hnext := @ih n (done ++ p ++ new_value.1) ⟨_, hfits⟩ rfl hshort
      rw [List.length_append, List.length_append] at hnext
      rw [ofBytes_ok hfits]
      exact hnext

/-- `replace_all` ends with the text in which the leftmost occurrences that do
not overlap are replaced, and throws where this is longer than a string. -/
theorem replaceAll_spec (ho : old_value.1 ≠ []) (src new_value : StdString) : ∃ r,
    Replaced old_value.1 new_value.1 src.1 r ∧
      ∀ n, src.1.length < n → replaceAll n src old_value new_value = some (ofBytes r) := by
  obtain ⟨r, hr⟩ : ∃ r, Replaced old_value.1 new_value.1 src.1 r := exists_replaced ho src.1
  refine ⟨r, hr, fun n hn => ?_⟩
  have hloop := replaceLoop_replaced ho hr (List.nil_append src.1).symm hn
  rw [List.nil_append] at hloop
  exact hloop

/-- `replace_all` ends, and leaves the text in which the leftmost occurrences
that do not overlap are replaced. Only a text of more than `max_size` bytes,
which is no string, makes it throw. -/
theorem replaceAll_replaces (ho : old_value.1 ≠ []) (src new_value : StdString) :
    ∃ r, (∀ n, src.1.length < n →
        replaceAll n src old_value new_value = if h : r.length ≤ MAX_SIZE then some (.ok ⟨r, h⟩)
          else some (.error .length_error)) ∧
      Replaced old_value.1 new_value.1 src.1 r ∧
      ∀ r', Replaced old_value.1 new_value.1 src.1 r' → r' = r := by
  obtain ⟨r, hr, hall⟩ := replaceAll_spec ho src new_value
  refine ⟨r, fun n hn => ?_, hr, fun r' hr' => hr'.unique hr⟩
  rw [hall n hn, ofBytes]
  split <;> rfl

/-- Some letters. -/
def letters (n : ℕ) (h : n ≤ MAX_SIZE) : StdString :=
  ⟨List.replicate n 0x61, by rw [List.length_replicate]; exact h⟩

/-- Both letters are replaced by themselves and another one, which is not
searched. -/
theorem replaceAll_replaces_doubled :
    replaceAll 3 (letters 2 (by decide)) (letters 1 (by decide)) (letters 2 (by decide)) =
        some (.ok (letters 4 (by decide))) ∧
      Replaced [(0x61 : UInt8)] [0x61, 0x61] [0x61, 0x61] [0x61, 0x61, 0x61, 0x61] := by
  obtain ⟨r, hl, hr, -⟩ := replaceAll_replaces 
    (show (letters 1 (by decide)).1 ≠ [] from List.cons_ne_nil 0x61 []) (letters 2 (by decide)) (letters 2 (by decide))
  have he : replaceAll 3 (letters 2 (by decide)) (letters 1 (by decide)) (letters 2 (by decide)) =
      some (.ok (letters 4 (by decide))) := by
    decide +kernel
  refine ⟨he, ?_⟩
  rw [hl 3 (Nat.lt_succ_self 2)] at he
  split at he
  · cases he
    exact hr
  · cases he

end CdroidDemo.TextReplacement
