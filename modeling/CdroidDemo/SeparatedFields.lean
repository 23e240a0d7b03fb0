import Mathlib.Algebra.Order.Ring.Nat
import Mathlib.Data.List.Perm.Basic

/-!
# Fields of a separated list

A field is a piece of a list without separators that cannot be extended and is
not empty. The fields in their order are determined by the list, and a
separator anywhere cuts the list into two whose fields do not mix.
-/

namespace CdroidDemo.SeparatedFields

variable {α : Type*} {sep : α} {s x y : List α} {fs gs : List (List α)}

/-- The elements from position `i` up to position `j`. -/
def slice (s : List α) (i j : ℕ) : List α := (s.take j).drop i

/-- The positions from `i` up to `j` are a field. -/
structure IsField (sep : α) (s : List α) (i j : ℕ) : Prop where
  /-- The field is not empty. -/
  nonempty : i < j
  /-- It lies inside the list. -/
  bounded : j ≤ s.length
  /-- It contains no separator. -/
  free : ∀ k, i ≤ k → k < j → s[k]? ≠ some sep
  /-- In front of it is a separator or nothing. -/
  front : ∀ k, k + 1 = i → s[k]? = some sep
  /-- Behind it is a separator or nothing. -/
  behind : j < s.length → s[j]? = some sep

/-- `fs` are all the fields of `s` in their order. -/
def IsFields (sep : α) (s : List α) (fs : List (List α)) : Prop :=
  ∃ spans : List (ℕ × ℕ), spans.Pairwise (·.1 < ·.1) ∧
    (∀ i j, (i, j) ∈ spans ↔ IsField sep s i j) ∧ fs = spans.map fun e => slice s e.1 e.2

/-- The fields of `s`, computed. -/
def fields [DecidableEq α] (sep : α) (s : List α) : List (List α) :=
  (s.splitOn sep).filter (· ≠ [])

/-! ## Fields are determined -/

/-- A list has one list of fields. -/
theorem IsFields.unique (hf : IsFields sep s fs) (hg : IsFields sep s gs) : fs = gs := by
  obtain ⟨a, ha, hamem, rfl⟩ := hf
  obtain ⟨b, hb, hbmem, rfl⟩ := hg
  have hnodup : ∀ {l : List (ℕ × ℕ)}, l.Pairwise (·.1 < ·.1) → l.Nodup := fun hl =>
    hl.imp fun hlt he => absurd (congrArg Prod.fst he) hlt.ne
  have hperm : a.Perm b := (List.perm_ext_iff_of_nodup (hnodup ha) (hnodup hb)).mpr
    fun e => (hamem e.1 e.2).trans (hbmem e.1 e.2).symm
  rw [hperm.eq_of_pairwise (fun e e' _ _ hlt hgt => absurd hlt hgt.asymm) ha hb]

/-! ## Cutting at a separator -/

/-- Without a separator the only field is the whole list. -/
theorem isField_iff_of_not_mem (hs : sep ∉ s) {i j : ℕ} :
    IsField sep s i j ↔ i = 0 ∧ j = s.length ∧ s ≠ [] := by
  constructor
  · intro h
    have hi : i = 0 := by
      cases i with
      | zero => rfl
      | succ k => exact absurd (List.mem_of_getElem? (h.front k rfl)) hs
    have hj : j = s.length := by
      by_contra hne
      exact hs (List.mem_of_getElem? (h.behind (lt_of_le_of_ne h.bounded hne)))
    refine ⟨hi, hj, List.length_pos_iff.mp ?_⟩
    have := h.nonempty
    omega
  · rintro ⟨rfl, rfl, hne⟩
    refine ⟨List.length_pos_iff.mpr hne, le_rfl, fun k _ _ he => hs (List.mem_of_getElem? he),
      fun k hk => absurd hk k.succ_ne_zero, fun hlt => absurd hlt (lt_irrefl _)⟩

/-- A list without separators is its only field, unless it is empty. -/
theorem isFields_of_not_mem (hs : sep ∉ s) (hne : s ≠ []) : IsFields sep s [s] := by
  refine ⟨[(0, s.length)], List.pairwise_singleton _ _, fun i j => ?_, ?_⟩
  · rw [isField_iff_of_not_mem hs, List.mem_singleton, Prod.mk.injEq]
    exact ⟨fun h => ⟨h.1, h.2, hne⟩, fun h => ⟨h.1, h.2.1⟩⟩
  · rw [List.map_singleton, slice, List.take_length, List.drop_zero]

/-- The empty list has no field. -/
theorem isFields_nil : IsFields sep ([] : List α) [] := by
  refine ⟨[], List.Pairwise.nil, fun i j => ?_, rfl⟩
  rw [isField_iff_of_not_mem List.not_mem_nil]
  exact iff_of_false List.not_mem_nil fun h => h.2.2 rfl

/-- Left of the separator stands the first part. -/
theorem getElem?_cut_left (sep : α) (y : List α) {k : ℕ} (h : k < x.length) :
    (x ++ sep :: y)[k]? = x[k]? :=
  List.getElem?_append_left h

/-- The separator stands behind the first part. -/
theorem getElem?_cut_at : (x ++ sep :: y)[x.length]? = some sep := by
  rw [List.getElem?_append_right le_rfl, Nat.sub_self]
  rfl

/-- Right of the separator stands the second part. -/
theorem getElem?_cut_right (sep : α) (x y : List α) (k : ℕ) :
    (x ++ sep :: y)[k + (x.length + 1)]? = y[k]? := by
  rw [List.getElem?_append_right (by omega)]
  have he : k + (x.length + 1) - x.length = k + 1 := by omega
  rw [he, List.getElem?_cons_succ]

/-- The length of a list with a separator in it. -/
theorem length_cut : (x ++ sep :: y).length = x.length + 1 + y.length := by
  rw [List.length_append, List.length_cons]
  omega

/-- The fields left of a separator are those of the first part. -/
theorem isField_cut_left {i j : ℕ} (hj : j ≤ x.length) :
    IsField sep (x ++ sep :: y) i j ↔ IsField sep x i j := by
  have hbehind : (j < (x ++ sep :: y).length → (x ++ sep :: y)[j]? = some sep) ↔
      (j < x.length → x[j]? = some sep) := by
    rcases hj.lt_or_eq with hlt | rfl
    · rw [getElem?_cut_left sep y hlt, length_cut]
      exact ⟨fun h _ => h (by omega), fun h _ => h hlt⟩
    · exact iff_of_true (fun _ => getElem?_cut_at) fun hlt => absurd hlt (lt_irrefl _)
  constructor
  · intro h
    have hij := h.nonempty
    refine ⟨hij, hj, fun k hi hk => ?_, fun k hk => ?_, hbehind.mp h.behind⟩
    · rw [← getElem?_cut_left sep y (by omega)]
      exact h.free k hi hk
    · rw [← getElem?_cut_left sep y (by omega)]
      exact h.front k hk
  · intro h
    have hij := h.nonempty
    refine ⟨hij, ?_, fun k hi hk => ?_, fun k hk => ?_, hbehind.mpr h.behind⟩
    · rw [length_cut]
      omega
    · rw [getElem?_cut_left sep y (by omega)]
      exact h.free k hi hk
    · rw [getElem?_cut_left sep y (by omega)]
      exact h.front k hk

/-- The fields right of a separator are those of the second part. -/
theorem isField_cut_right {i j : ℕ} :
    IsField sep (x ++ sep :: y) (i + (x.length + 1)) (j + (x.length + 1)) ↔ IsField sep y i j := by
  constructor
  · intro h
    have hij := h.nonempty
    have hle := h.bounded
    rw [length_cut] at hle
    refine ⟨by omega, by omega, fun k hi hk => ?_, fun k hk => ?_, fun hlt => ?_⟩
    · rw [← getElem?_cut_right sep x]
      exact h.free _ (by omega) (by omega)
    · rw [← getElem?_cut_right sep x]
      exact h.front _ (by omega)
    · rw [← getElem?_cut_right sep x]
      refine h.behind ?_
      rw [length_cut]
      omega
  · intro h
    have hij := h.nonempty
    have hle := h.bounded
    refine ⟨by omega, ?_, fun k hi hk => ?_, fun k hk => ?_, fun hlt => ?_⟩
    · rw [length_cut]
      omega
    · obtain ⟨k, rfl⟩ := Nat.exists_eq_add_of_le' (show x.length + 1 ≤ k by omega)
      rw [getElem?_cut_right]
      exact h.free k (by omega) (by omega)
    · rcases Nat.lt_or_ge x.length k with hlt | hge
      · obtain ⟨k, rfl⟩ := Nat.exists_eq_add_of_le' hlt
        rw [getElem?_cut_right]
        exact h.front k (by omega)
      · obtain rfl : k = x.length := by omega
        exact getElem?_cut_at
    · rw [getElem?_cut_right]
      rw [length_cut] at hlt
      exact h.behind (by omega)

/-- A field lies on one side of a separator. -/
theorem isField_cut {i j : ℕ} : IsField sep (x ++ sep :: y) i j ↔
    IsField sep x i j ∨
      ∃ i' j', IsField sep y i' j' ∧ i' + (x.length + 1) = i ∧ j' + (x.length + 1) = j := by
  constructor
  · intro h
    have hij := h.nonempty
    rcases Nat.lt_or_ge x.length j with hlt | hle
    · have hi : x.length + 1 ≤ i := by
        by_contra hi
        exact h.free x.length (by omega) hlt getElem?_cut_at
      obtain ⟨i, rfl⟩ := Nat.exists_eq_add_of_le' hi
      obtain ⟨j, rfl⟩ := Nat.exists_eq_add_of_le' (hi.trans hij.le)
      exact Or.inr ⟨i, j, isField_cut_right.mp h, rfl, rfl⟩
    · exact Or.inl ((isField_cut_left hle).mp h)
  · rintro (h | ⟨i', j', h, rfl, rfl⟩)
    · exact (isField_cut_left h.bounded).mpr h
    · exact isField_cut_right.mpr h

/-- A slice left of the separator is one of the first part. -/
theorem slice_cut_left {i j : ℕ} (hj : j ≤ x.length) : slice (x ++ sep :: y) i j = slice x i j := by
  rw [slice, List.take_append_of_le_length hj]
  rfl

/-- A slice right of the separator is one of the second part. -/
theorem slice_cut_right (i j : ℕ) :
    slice (x ++ sep :: y) (i + (x.length + 1)) (j + (x.length + 1)) = slice y i j := by
  have hd : (x ++ sep :: y).drop (x.length + 1) = y := by
    rw [List.drop_length_add_append]
    rfl
  rw [slice, slice, List.drop_take, List.drop_take, Nat.add_comm i, ← List.drop_drop, hd]
  congr 1
  omega

/-- The fields on both sides of a separator, one after the other. -/
theorem IsFields.cut (hf : IsFields sep x fs) (hg : IsFields sep y gs) :
    IsFields sep (x ++ sep :: y) (fs ++ gs) := by
  obtain ⟨a, ha, hamem, rfl⟩ := hf
  obtain ⟨b, hb, hbmem, rfl⟩ := hg
  have hmemb : ∀ e ∈ b.map (fun e => (e.1 + (x.length + 1), e.2 + (x.length + 1))),
      x.length < e.1 := by
    intro e he
    obtain ⟨e, -, rfl⟩ := List.mem_map.mp he
    dsimp only
    omega
  refine ⟨a ++ b.map (fun e => (e.1 + (x.length + 1), e.2 + (x.length + 1))), ?_, ?_, ?_⟩
  · refine List.pairwise_append.mpr ⟨ha, ?_, fun e he e' he' => ?_⟩
    · exact List.pairwise_map.mpr (hb.imp fun hlt => Nat.add_lt_add_right hlt _)
    · have hfield := (hamem e.1 e.2).mp he
      exact (hfield.nonempty.trans_le hfield.bounded).trans (hmemb e' he')
  · intro i j
    rw [isField_cut, List.mem_append, hamem, List.mem_map]
    refine or_congr_right ⟨?_, ?_⟩
    · rintro ⟨e, he, heq⟩
      obtain ⟨hi, hj⟩ := Prod.mk.injEq .. ▸ heq
      exact ⟨e.1, e.2, (hbmem e.1 e.2).mp he, hi, hj⟩
    · rintro ⟨i', j', h, rfl, rfl⟩
      exact ⟨(i', j'), (hbmem i' j').mpr h, rfl⟩
  · rw [List.map_append, List.map_map]
    congr 1
    · exact List.map_congr_left fun e he =>
        (slice_cut_left ((hamem e.1 e.2).mp he).bounded).symm
    · exact List.map_congr_left fun e _ => (slice_cut_right e.1 e.2).symm

/-! ## Computing the fields -/

variable [DecidableEq α]

/-- The empty list has no fields. -/
theorem fields_nil : fields sep ([] : List α) = [] := rfl

/-- Without a separator the list itself is the only field. -/
theorem fields_of_not_mem (hs : sep ∉ s) (hne : s ≠ []) : fields sep s = [s] := by
  have hsplit : s.splitOn sep = [s] :=
    List.splitOnP_eq_singleton fun a ha => beq_eq_false_iff_ne.mpr fun he => hs (he ▸ ha)
  rw [fields, hsplit]
  exact List.filter_cons_of_pos (decide_eq_true hne)

/-- A separator cuts the fields. -/
theorem fields_cut (sep : α) (x y : List α) :
    fields sep (x ++ sep :: y) = fields sep x ++ fields sep y := by
  have hsplit : (x ++ sep :: y).splitOn sep = x.splitOn sep ++ y.splitOn sep :=
    List.splitOnP_append_cons x y (beq_self_eq_true sep)
  rw [fields, hsplit, List.filter_append]
  rfl

/-- Only separators are without fields. -/
theorem fields_eq_nil_iff (sep : α) (s : List α) : fields sep s = [] ↔ ∀ a ∈ s, a = sep := by
  by_cases hs : sep ∈ s
  · obtain ⟨x, y, hcut, -⟩ := List.eq_append_cons_of_mem hs
    have hlen : x.length + 1 + y.length = s.length := by rw [hcut, length_cut]
    rw [hcut, fields_cut, List.append_eq_nil_iff, fields_eq_nil_iff sep x, fields_eq_nil_iff sep y,
      List.forall_mem_append, List.forall_mem_cons, and_iff_right rfl]
  · cases s with
    | nil => exact iff_of_true fields_nil fun a ha => absurd ha List.not_mem_nil
    | cons a s =>
      rw [fields_of_not_mem hs (List.cons_ne_nil a s)]
      refine iff_of_false (List.cons_ne_nil _ _) fun h => hs ?_
      exact List.mem_cons.mpr (Or.inl (h a List.mem_cons_self).symm)
termination_by s.length

/-- What is computed are the fields. -/
theorem isFields_fields (sep : α) (s : List α) : IsFields sep s (fields sep s) := by
  by_cases hs : sep ∈ s
  · obtain ⟨x, y, hcut, -⟩ := List.eq_append_cons_of_mem hs
    have hlen : x.length + 1 + y.length = s.length := by rw [hcut, length_cut]
    rw [hcut, fields_cut]
    exact (isFields_fields sep x).cut (isFields_fields sep y)
  · by_cases hne : s = []
    · rw [hne, fields_nil]
      exact isFields_nil
    · rw [fields_of_not_mem hs hne]
      exact isFields_of_not_mem hs hne
termination_by s.length

end CdroidDemo.SeparatedFields
