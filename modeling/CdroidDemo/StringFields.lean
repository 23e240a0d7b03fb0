import CdroidDemo.BoundedText
import CdroidDemo.SeparatedFields
import CdroidDemo.TurnLimits

/-!
# Splitting a string

`stringSplit` appends the fields of the string as long as the offset behind a
separator fits an `int`. Behind the first separator that is too far the offset
wraps around: to a negative one, and the loop ends there, or to an earlier
one, and the loop never ends.
-/

namespace CdroidDemo.StringFields

open BoundedText TextHelpers SeparatedFields TurnLimits

/-- From offset `k` on, the offsets behind the separators of `s` fit an `int`. -/
def Near (ch : UInt8) (k : ℕ) (s : List UInt8) : Prop :=
  ∀ x y, s = x ++ ch :: y → k + x.length + 1 < 2 ^ 31

/-- `stringSplit` returns, it returns the size of `out`, and to `out` it has
appended the fields of the string. -/
def Splits (str : StdString) (out : List (List UInt8)) (ch : UInt8) : Prop :=
  ∃ n size out', stringSplit n str out ch = some (size, out') ∧ size.toInt = out'.length ∧
    ∃ fs, IsFields ch str.1 fs ∧ out' = out ++ fs

/-- Behind the first separator whose offset does not fit an `int` there are
only separators, and the offset wraps to a negative one. -/
def FarIsEmpty (str : StdString) (ch : UInt8) : Prop :=
  ∀ x y, str.1 = x ++ ch :: y → Near ch 0 x → 2 ^ 31 ≤ x.length + 1 →
    2 ^ 31 ≤ (x.length + 1) % 2 ^ 32 ∧ ∀ b ∈ y, b = ch

/-! ## Offsets -/

/-- A negative offset is behind the end of every string. -/
theorem le_sizeT_ofNat {m : ℕ} (h : 2 ^ 31 ≤ m % 2 ^ 32) : MAX_SIZE < sizeT (Int32.ofNat m) := by
  rw [sizeT_ofNat_of_ge h, MAX_SIZE]
  omega

/-! ## One turn -/

variable {ch : UInt8} {done x y rest : List UInt8} {offset : Int32} {out : List (List UInt8)}

/-- The first separator stands behind the first part. -/
theorem idxOf?_cut (hx : ch ∉ x) (y : List UInt8) : (x ++ ch :: y).idxOf? ch = some x.length := by
  induction x with
  | nil => rw [List.nil_append, List.idxOf?_cons, if_pos (beq_self_eq_true ch), List.length_nil]
  | cons a x ih =>
    obtain ⟨ha, hx⟩ := not_or.mp (List.mem_cons.not.mp hx)
    rw [List.cons_append, List.idxOf?_cons, if_neg fun he => ha (beq_iff_eq.mp he).symm, ih hx,
      Option.map_some, List.length_cons]

/-- The search finds the separator behind the current field. -/
theorem findChar_cut (hx : ch ∉ x) :
    findChar (done ++ (x ++ ch :: y)) ch done.length = some (done.length + x.length) := by
  rw [findChar, List.drop_left, idxOf?_cut hx, Option.map_some]

/-- The search fails in the last field. -/
theorem findChar_none (hrest : ch ∉ rest) : findChar (done ++ rest) ch done.length = none := by
  rw [findChar, List.drop_left, List.idxOf?_eq_none_iff.mpr hrest, Option.map_none]

/-- A turn of the loop appends the field in front of a separator. -/
theorem stringSplitLoop_cut (ho : sizeT offset = done.length) (hx : ch ∉ x) (n : ℕ)
    (out : List (List UInt8)) :
    stringSplitLoop (done ++ (x ++ ch :: y)) ch (n + 1) offset out =
      stringSplitLoop (done ++ (x ++ ch :: y)) ch n (Int32.ofNat (done.length + x.length + 1))
        (out ++ fields ch x) := by
  rw [stringSplitLoop, ho, findChar_cut hx]
  dsimp only
  congr 1
  by_cases hne : x = []
  · rw [hne, fields_nil, List.append_nil, if_neg (by rw [List.length_nil]; omega)]
  · have hpos := List.length_pos_iff.mpr hne
    rw [fields_of_not_mem hx hne, if_pos (by omega), substr, List.drop_left,
      Nat.add_sub_cancel_left, List.take_left]

/-- Without a separator in the rest the loop ends. -/
theorem stringSplitLoop_rest (ho : sizeT offset = done.length) (hrest : ch ∉ rest) (n : ℕ)
    (out : List (List UInt8)) :
    stringSplitLoop (done ++ rest) ch (n + 1) offset out = some (offset, out) := by
  rw [stringSplitLoop, ho, findChar_none hrest]

/-- The rest without a separator is the last field. -/
theorem splitRest_rest (ho : sizeT offset = done.length) (hrest : ch ∉ rest)
    (out : List (List UInt8)) :
    splitRest (done ++ rest) (offset, out) = out ++ fields ch rest := by
  rw [splitRest, ho, List.length_append, List.drop_left]
  by_cases hne : rest = []
  · rw [hne, fields_nil, List.append_nil, if_neg (by rw [List.length_nil]; omega)]
  · have hpos := List.length_pos_iff.mpr hne
    rw [fields_of_not_mem hrest hne, if_pos (by omega)]

/-- The loop ends where the offset is behind the end. -/
theorem stringSplitLoop_behind {str : List UInt8} (ch : UInt8) (ho : str.length < sizeT offset)
    (n : ℕ) (out : List (List UInt8)) :
    stringSplitLoop str ch (n + 1) offset out = some (offset, out) ∧
      splitRest str (offset, out) = out := by
  constructor
  · rw [stringSplitLoop, findChar, List.drop_eq_nil_of_le ho.le, List.idxOf?_nil, Option.map_none]
  · rw [splitRest, if_neg (by omega)]

/-- More turns change nothing. -/
theorem stringSplitLoop_keeps (str : List UInt8) (ch : UInt8) (offset : Int32)
    (out : List (List UInt8)) : Keeps fun n => stringSplitLoop str ch n offset out := by
  intro n r h
  induction n generalizing offset out with
  | zero => cases h
  | succ n ih =>
    simp only [stringSplitLoop] at h ⊢
    cases hf : findChar str ch (sizeT offset) with
    | none =>
      rw [hf] at h
      exact h
    | some pos =>
      rw [hf] at h
      exact ih _ _ h

/-- More fuel keeps the result. -/
theorem stringSplit_keeps (str : StdString) (out : List (List UInt8)) (ch : UInt8) :
    Keeps fun n => stringSplit n str out ch :=
  (stringSplitLoop_keeps str.1 ch 0 out).map _

/-! ## Runs over near separators -/

/-- Behind a separator the offsets fit as well. -/
theorem Near.cut {k : ℕ} (h : Near ch k (x ++ ch :: y)) :
    k + x.length + 1 < 2 ^ 31 ∧ Near ch (k + x.length + 1) y := by
  refine ⟨h x y rfl, fun a b hy => ?_⟩
  have := h (x ++ ch :: a) b (by rw [hy, List.append_assoc, List.cons_append])
  rw [List.length_append, List.length_cons] at this
  omega

/-- The loop works through near separators, until what is left of the piece
has none. -/
theorem stringSplitLoop_near {done x : List UInt8} {offset : Int32}
    (ho : sizeT offset = done.length) (h : Near ch done.length x) (z : List UInt8) :
    ∃ k offset' done' x' fs, ch ∉ x' ∧ done ++ x = done' ++ x' ∧
      sizeT offset' = done'.length ∧ fields ch x = fs ++ fields ch x' ∧
      ∀ n out, stringSplitLoop (done ++ (x ++ z)) ch (n + k) offset out =
        stringSplitLoop (done' ++ (x' ++ z)) ch n offset' (out ++ fs) := by
  by_cases hx : ch ∈ x
  · obtain ⟨a, b, hcut, ha⟩ := List.eq_append_cons_of_mem hx
    have hlen : a.length + 1 + b.length = x.length := by rw [hcut, length_cut]
    rw [hcut] at h ⊢
    obtain ⟨hlt, hnear⟩ := h.cut
    have hd : (done ++ (a ++ [ch])).length = done.length + a.length + 1 := by
      simp only [List.length_append, List.length_singleton]
      omega
    have ho' : sizeT (Int32.ofNat (done.length + a.length + 1)) =
        (done ++ (a ++ [ch])).length := by
      rw [hd, sizeT_ofNat_of_lt (by omega)]
      omega
    rw [← hd] at hnear
    obtain ⟨k, offset', done', x', fs, hx', hd', ho'', hfs, hrun⟩ :=
      stringSplitLoop_near ho' hnear z
    have hstr : ∀ w, done ++ (a ++ [ch]) ++ w = done ++ (a ++ ch :: w) := fun w => by
      simp only [List.append_assoc, List.singleton_append]
    refine ⟨k + 1, offset', done', x', fields ch a ++ fs, hx', ?_, ho'', ?_, fun n out => ?_⟩
    · rw [← hd', hstr]
    · rw [fields_cut, hfs, List.append_assoc]
    · have hz : done ++ (a ++ ch :: b ++ z) = done ++ (a ++ ch :: (b ++ z)) := by
        simp only [List.append_assoc, List.cons_append]
      rw [hz, ← Nat.add_assoc, stringSplitLoop_cut ho ha, ← hstr, hrun, List.append_assoc]
  · exact ⟨0, offset, done, x, [], hx, rfl, ho, rfl, fun n out => by
      rw [List.append_nil, Nat.add_zero]⟩
termination_by x.length

/-- The loop reaches the separator behind a piece with near ones. -/
theorem stringSplitLoop_reach (ho : sizeT offset = done.length) (h : Near ch done.length x)
    (y : List UInt8) : ∃ k, ∀ n out,
      stringSplitLoop (done ++ (x ++ ch :: y)) ch (n + (k + 1)) offset out =
        stringSplitLoop (done ++ (x ++ ch :: y)) ch n (Int32.ofNat (done.length + x.length + 1))
          (out ++ fields ch x) := by
  obtain ⟨k, offset', done', x', fs, hx', hd, ho', hfs, hrun⟩ :=
    stringSplitLoop_near ho h (ch :: y)
  have hstr : done' ++ (x' ++ ch :: y) = done ++ (x ++ ch :: y) := by
    rw [← List.append_assoc, ← hd, List.append_assoc]
  have hlen : done'.length + x'.length = done.length + x.length := by
    rw [← List.length_append, ← hd, List.length_append]
  refine ⟨k, fun n out => ?_⟩
  have hn : n + (k + 1) = n + 1 + k := by omega
  rw [hn, hrun, stringSplitLoop_cut ho' hx', hstr, hlen, hfs, List.append_assoc]

/-! ## What the split gives -/

variable {str : StdString} {fs : List (List UInt8)}

/-- `stringSplit` returns and has appended `fs`. -/
def Gives (str : StdString) (out : List (List UInt8)) (ch : UInt8) (fs : List (List UInt8)) :
    Prop :=
  ∃ n, stringSplit n str out ch = some (Int32.ofNat (out ++ fs).length, out ++ fs)

/-- `stringSplit` gives what its loop leaves, with the rest. -/
theorem gives_of_loop {n : ℕ} {out' : List (List UInt8)}
    (h : stringSplitLoop str.1 ch n 0 out = some (offset, out'))
    (hr : splitRest str.1 (offset, out') = out ++ fs) : Gives str out ch fs := by
  refine ⟨n, ?_⟩
  rw [stringSplit, h, Option.map_some, hr]

/-- What is given is right when it is the fields and their number fits an
`int`. -/
theorem Gives.splits_iff_fields (h : Gives str out ch fs) :
    Splits str out ch ↔ fields ch str.1 = fs ∧ (out ++ fs).length < 2 ^ 31 := by
  obtain ⟨n, hn⟩ := h
  constructor
  · rintro ⟨m, size, out', hm, hsize, gs, hgs, rfl⟩
    obtain ⟨rfl, he⟩ := Prod.mk.inj ((stringSplit_keeps str out ch).unique hm hn)
    obtain rfl := List.append_cancel_left he
    exact ⟨(isFields_fields ch str.1).unique hgs, toInt_ofNat_eq_iff.mp hsize⟩
  · rintro ⟨rfl, hlt⟩
    exact ⟨n, _, _, hn, toInt_ofNat_eq_iff.mpr hlt, _, isFields_fields ch str.1, rfl⟩

/-- With near separators only, the fields are given. -/
theorem gives_of_near (h : Near ch 0 str.1) : Gives str out ch (fields ch str.1) := by
  have ho : sizeT 0 = ([] : List UInt8).length := rfl
  obtain ⟨k, offset', done', x', fs, hx', hd, ho', hfs, hrun⟩ := stringSplitLoop_near ho h []
  rw [List.append_nil, List.append_nil, ← hd, List.nil_append] at hrun
  have hstr : str.1 = done' ++ x' := hd
  have hend : stringSplitLoop str.1 ch 1 offset' (out ++ fs) = some (offset', out ++ fs) := by
    rw [hstr]
    exact stringSplitLoop_rest ho' hx' 0 (out ++ fs)
  refine gives_of_loop ((hrun 1 out).trans hend) ?_
  rw [hfs, hstr, splitRest_rest ho' hx', List.append_assoc]

/-- The loop reaches the first separator that is not near. -/
theorem stringSplitLoop_reach_far {s : List UInt8} (hs : s = x ++ ch :: y) (h : Near ch 0 x) :
    ∃ k, ∀ n out, stringSplitLoop s ch (n + (k + 1)) 0 out =
      stringSplitLoop s ch n (Int32.ofNat (x.length + 1)) (out ++ fields ch x) := by
  have ho : sizeT 0 = ([] : List UInt8).length := rfl
  obtain ⟨k, hrun⟩ := stringSplitLoop_reach ho h y
  rw [List.nil_append, ← hs, List.length_nil, Nat.zero_add] at hrun
  exact ⟨k, hrun⟩

/-- Behind a far separator with a negative offset nothing is given. -/
theorem gives_of_far (hs : str.1 = x ++ ch :: y) (h : Near ch 0 x)
    (hneg : 2 ^ 31 ≤ (x.length + 1) % 2 ^ 32) : Gives str out ch (fields ch x) := by
  obtain ⟨k, hrun⟩ := stringSplitLoop_reach_far hs h
  have hbehind := stringSplitLoop_behind ch (str.2.trans_lt (le_sizeT_ofNat hneg)) 0
    (out ++ fields ch x)
  exact gives_of_loop ((hrun 1 out).trans hbehind.1) hbehind.2

/-- A far separator whose offset wraps to an earlier one is found again and
again. -/
theorem stringSplit_far_never (hs : str.1 = x ++ ch :: y) (h : Near ch 0 x)
    (hfar : 2 ^ 31 ≤ x.length + 1) (hpos : (x.length + 1) % 2 ^ 32 < 2 ^ 31) (n : ℕ) :
    stringSplit n str out ch = none := by
  obtain ⟨a, b, hx, ha⟩ : ∃ a b, x = a ++ b ∧ a.length = (x.length + 1) % 2 ^ 32 :=
    ⟨_, _, (List.take_append_drop ((x.length + 1) % 2 ^ 32) x).symm, by
      rw [List.length_take]
      omega⟩
  have hnear : Near ch a.length b := by
    intro p q hb
    have := h (a ++ p) q (by rw [hx, hb, List.append_assoc])
    rw [List.length_append] at this
    omega
  have hstr : str.1 = a ++ (b ++ ch :: y) := by rw [hs, hx, List.append_assoc]
  have hlen : a.length + b.length + 1 = x.length + 1 := by rw [hx, List.length_append]
  have hback : sizeT (Int32.ofNat (x.length + 1)) = a.length :=
    (sizeT_ofNat_of_lt hpos).trans ha.symm
  obtain ⟨k, hround⟩ := stringSplitLoop_reach hback hnear y
  rw [hlen, ← hstr] at hround
  have hnever := never_of_rounds
    (fun out => stringSplitLoop_keeps str.1 ch (Int32.ofNat (x.length + 1)) out) (fun _ => rfl)
    fun out => ⟨k, out ++ fields ch b, fun n => hround n out⟩
  obtain ⟨j, hreach⟩ := stringSplitLoop_reach_far hs h
  rw [stringSplit, Option.map_eq_none_iff]
  by_contra hne
  obtain ⟨r, hr⟩ := Option.ne_none_iff_exists'.mp hne
  have hmore := (stringSplitLoop_keeps str.1 ch 0 out).add hr (j + 1)
  rw [hreach n out, hnever] at hmore
  cases hmore

/-! ## When it splits -/

/-- All separators are near, or there is a first one that is not. -/
theorem near_or_far (ch : UInt8) (s : List UInt8) :
    Near ch 0 s ∨ ∃ x y, s = x ++ ch :: y ∧ Near ch 0 x ∧ 2 ^ 31 ≤ x.length + 1 := by
  by_cases hn : Near ch 0 s
  · exact Or.inl hn
  · refine Or.inr ?_
    simp only [Near, not_forall, not_lt] at hn
    obtain ⟨x, y, hs, hfar⟩ := hn
    have hlen : x.length + 1 + y.length = s.length := by rw [hs, length_cut]
    rcases near_or_far ch x with hx | ⟨a, b, hx, ha, hfar'⟩
    · exact ⟨x, y, hs, hx, by omega⟩
    · exact ⟨a, b ++ ch :: y, by rw [hs, hx, List.append_assoc, List.cons_append], ha, hfar'⟩
termination_by s.length

/-- The first separator that is not near is determined. -/
theorem far_unique {x y a b : List UInt8} (heq : x ++ ch :: y = a ++ ch :: b)
    (hx : Near ch 0 x) (hfx : 2 ^ 31 ≤ x.length + 1) (ha : Near ch 0 a)
    (hfa : 2 ^ 31 ≤ a.length + 1) : x = a ∧ y = b := by
  rcases List.append_eq_append_iff.mp heq with ⟨c, rfl, hc⟩ | ⟨c, rfl, hc⟩
  · cases c with
    | nil =>
      rw [List.nil_append, List.cons.injEq] at hc
      exact ⟨(List.append_nil x).symm, hc.2⟩
    | cons d c =>
      obtain ⟨rfl, -⟩ := List.cons.inj hc
      have := ha x c rfl
      omega
  · cases c with
    | nil =>
      rw [List.nil_append, List.cons.injEq] at hc
      exact ⟨List.append_nil a, hc.2.symm⟩
    | cons d c =>
      obtain ⟨rfl, -⟩ := List.cons.inj hc
      have := hx a c rfl
      omega

/-- `stringSplit` appends exactly the fields of the string and returns the
size of `out` if and only if the size fits an `int` and so do the offsets
behind the separators, up to a first one that no field follows. -/
theorem splits_iff (str : StdString) (out : List (List UInt8)) (ch : UInt8) :
    Splits str out ch ↔
      FarIsEmpty str ch ∧ out.length + (fields ch str.1).length < 2 ^ 31 := by
  rw [← List.length_append]
  rcases near_or_far ch str.1 with hnear | ⟨x, y, hs, hx, hfar⟩
  · have hempty : FarIsEmpty str ch := by
      intro x y hs _ hfar
      have := hnear x y hs
      omega
    rw [(gives_of_near hnear).splits_iff_fields, and_iff_right rfl, and_iff_right hempty]
  · have hempty : FarIsEmpty str ch ↔
        2 ^ 31 ≤ (x.length + 1) % 2 ^ 32 ∧ ∀ b ∈ y, b = ch := by
      refine ⟨fun h => h x y hs hx hfar, fun h a b ha hna hfa => ?_⟩
      obtain ⟨rfl, rfl⟩ := far_unique (hs.symm.trans ha) hx hfar hna hfa
      exact h
    rw [hempty]
    by_cases hneg : 2 ^ 31 ≤ (x.length + 1) % 2 ^ 32
    · rw [(gives_of_far hs hx hneg).splits_iff_fields, and_iff_right hneg,
        ← fields_eq_nil_iff ch y, hs, fields_cut, List.append_right_eq_self]
      refine and_congr_right fun hy => ?_
      rw [hy, List.append_nil]
    · refine iff_of_false ?_ fun h => hneg h.1.1
      rintro ⟨n, size, out', hn, -⟩
      rw [stringSplit_far_never hs hx hfar (not_le.mp hneg)] at hn
      cases hn

/-- Behind a separator at position `2 ^ 31 - 1` a field is lost. -/
theorem not_splits_of_far {b : UInt8} (hs : str.1 = x ++ ch :: [b]) (hx : ch ∉ x)
    (hlen : x.length = 2 ^ 31 - 1) (hb : b ≠ ch) (out : List (List UInt8)) :
    ¬Splits str out ch := by
  have hnear : Near ch 0 x := fun p q hp =>
    absurd (hp ▸ List.mem_append_right p List.mem_cons_self) hx
  have hlost : fields ch [b] ≠ [] := by
    rw [Ne, fields_eq_nil_iff]
    exact fun h => hb (h b List.mem_cons_self)
  rw [(gives_of_far hs hnear (by rw [hlen]; decide)).splits_iff_fields, hs, fields_cut,
    List.append_right_eq_self]
  exact fun h => hlost h.1

/-- A string of `2 ^ 31 - 1` letters a, a comma and the letter b is split
without the b. -/
theorem splits_fails_on_long_string : ¬ ∀ (str : StdString) (out : List (List UInt8)) (ch : UInt8),
    Splits str out ch := by
  intro h
  have hlen : (List.replicate (2 ^ 31 - 1) (0x61 : UInt8) ++ 0x2C :: [0x62]).length ≤ MAX_SIZE := by
    rw [List.length_append, List.length_replicate]
    decide
  refine not_splits_of_far (x := List.replicate (2 ^ 31 - 1) 0x61) rfl ?_ List.length_replicate ?_
    [] (h ⟨_, hlen⟩ [] 0x2C)
  · exact fun hmem => absurd (List.eq_of_mem_replicate hmem) (by decide)
  · decide

end CdroidDemo.StringFields
