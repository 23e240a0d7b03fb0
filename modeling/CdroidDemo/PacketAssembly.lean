import CdroidDemo.FramedReceiver
import CdroidDemo.PacketMemory

/-!
# The fill loop of the packet receivers

`MCU2UI::add` and `TUYA2UI::add` run one loop that differs only in the
capacity, the length of the header and the header search. The loop is stated
once over these; a search that reports the first position where the header
can begin makes it a fill of the framed receiver, inside the payload.
-/

namespace CdroidDemo.PacketAssembly

open HeaderResync FramedReceiver PacketMemory BuffData

/-- The copy of one turn: all remaining input, or as much as fits. Returns
the buffer and the new `rlen`. -/
def fillOnce (bufLen : ℕ) (b : BuffData) (bf : List UInt8) (rlen : ℕ) : Option (BuffData × ℕ) :=
  if bf.length - rlen ≤ bufLen - b.len then do
    let b' ← b.memcpy b.len (bf.drop rlen)
    return (b'.setLen (b.len + (bf.length - rlen)), bf.length)
  else do
    let b' ← b.memcpy b.len ((bf.drop rlen).take (bufLen - b.len))
    return (b'.setLen bufLen, rlen + (bufLen - b.len))

/-- Drop what stands before `j`; the absent position `-1` drops everything. -/
def dropBefore (b : BuffData) : Option ℕ → Option BuffData
  | none => some (b.setLen 0)
  | some j =>
    if 0 < j then do
      let b' ← b.memmove j (b.len - j)
      return b'.setLen (b.len - j)
    else some b

/-- The while loop of `add`. The first argument bounds the number of turns;
`found` is `find_head` and the result is the buffer with the bytes consumed. -/
def addLoop (bufLen headLen : ℕ) (findHead : BuffData → Option (Option ℕ × Bool)) :
    ℕ → BuffData → List UInt8 → ℕ → Bool → Option (BuffData × ℕ)
  | 0, _, _, _, _ => none
  | fuel + 1, b, bf, rlen, found =>
    if b.len < bufLen ∧ rlen < bf.length then do
      let (b, rlen) ← fillOnce bufLen b bf rlen
      if found = false ∧ headLen < b.len then do
        let (j, found) ← findHead b
        let b ← dropBefore b j
        addLoop bufLen headLen findHead fuel b bf rlen found
      else addLoop bufLen headLen findHead fuel b bf rlen found
    else some (b, rlen)

/-- `add` of a receiver with the given capacity, header length and search. -/
def add (bufLen headLen : ℕ) (findHead : BuffData → Option (Option ℕ × Bool)) (b : BuffData)
    (bf : List UInt8) : Option (BuffData × ℕ) :=
  addLoop bufLen headLen findHead (bf.length + 1) b bf 0 false

/-- `i < mDlen - n && mBuf[i + n] == v`, the second test only after the first. -/
def nextIs (b : BuffData) (i n : ℕ) (v : UInt8) : Option Bool :=
  if i < b.len - n then do return decide ((← b.read (i + n)) = v) else some false

/-- The result of a header search: the first position where the header can
begin, if any, and whether all of it is there. -/
def located (hdr l : List UInt8) : Option ℕ × Bool :=
  (if resync hdr l = [] then none else some (l.length - (resync hdr l).length),
    decide (hdr <+: resync hdr l))

/-- A search that stays inside the valid bytes and locates the header. -/
def Locates (hdr : List UInt8) (findHead : BuffData → Option (Option ℕ × Bool)) : Prop :=
  ∀ b : BuffData, b.Fits → findHead b = some (located hdr b.content)

/-- Positions counted from the start of a tail of the content. -/
theorem getElem?_suffix {b : BuffData} (hf : b.Fits) {t : List UInt8} (h : t <:+ b.content)
    (n : ℕ) : b.content[b.len - t.length + n]? = t[n]? := by
  obtain ⟨pre, hp⟩ := h
  have hlen := content_length hf
  have hpre : b.len - t.length = pre.length := by
    rw [← hlen, ← hp, List.length_append]
    omega
  rw [hpre, ← hp, List.getElem?_append_right (by omega)]
  congr 1
  omega

/-- The guarded test looks only at valid bytes. -/
theorem nextIs_eq {b : BuffData} (hf : b.Fits) (i n : ℕ) (v : UInt8) :
    nextIs b i n v = some (decide (b.content[i + n]? = some v)) := by
  have hlen := content_length hf
  by_cases hi : i < b.len - n
  · rw [nextIs, if_pos hi, read_content (by omega), List.getElem?_eq_getElem (by omega)]
    simp
  · rw [nextIs, if_neg hi, List.getElem?_eq_none (by omega)]
    simp

section Tails

variable {hdr : List UInt8} {b : BuffData} {x : UInt8} {t : List UInt8}

/-- What a search that has reached the tail `t` of `n` valid bytes reports. -/
def locatedFrom (hdr : List UInt8) (n : ℕ) (t : List UInt8) : Option ℕ × Bool :=
  (if resync hdr t = [] then none else some (n - (resync hdr t).length),
    decide (hdr <+: resync hdr t))

/-- `located` looks from the whole length on. -/
theorem located_eq (hdr l : List UInt8) : located hdr l = locatedFrom hdr l.length l := rfl

/-- A whole header is found. -/
theorem locatedFrom_header (h : hdr <+: x :: t) (n : ℕ) :
    locatedFrom hdr n (x :: t) = (some (n - (t.length + 1)), true) := by
  rw [locatedFrom, resync_of_header h, if_neg (List.cons_ne_nil x t), decide_eq_true h,
    List.length_cons]

/-- A live tail without the whole header is a candidate. -/
theorem locatedFrom_candidate (hl : Live hdr (x :: t)) (hn : ¬hdr <+: x :: t) (n : ℕ) :
    locatedFrom hdr n (x :: t) = (some (n - (t.length + 1)), false) := by
  rw [locatedFrom, resync_of_live hl, if_neg (List.cons_ne_nil x t), decide_eq_false hn,
    List.length_cons]

/-- Behind a dead byte the search goes on. -/
theorem locatedFrom_dead (hd : ¬Live hdr (x :: t)) (n : ℕ) :
    locatedFrom hdr n (x :: t) = locatedFrom hdr n t := by
  rw [locatedFrom, resync_of_dead hd, locatedFrom]

/-- A tail of the content is no longer than the length field says. -/
theorem tail_length (hf : b.Fits) (ht : x :: t <:+ b.content) : t.length + 1 ≤ b.len := by
  have hle := ht.length_le
  rwa [content_length hf, List.length_cons] at hle

/-- The byte a tail begins with. -/
theorem read_tail (hf : b.Fits) (ht : x :: t <:+ b.content) :
    b.read (b.len - (t.length + 1)) = some x := by
  have hle := tail_length hf ht
  rw [read_content (by omega)]
  exact getElem?_suffix hf ht 0

/-- The guarded test at a later byte of a tail. -/
theorem nextIs_tail (hf : b.Fits) (ht : x :: t <:+ b.content) (n : ℕ) (v : UInt8) :
    nextIs b (b.len - (t.length + 1)) (n + 1) v = some (decide (t[n]? = some v)) := by
  have hget := getElem?_suffix hf ht (n + 1)
  rw [List.length_cons, List.getElem?_cons_succ] at hget
  rw [nextIs_eq hf, hget]

/-- The position behind a tail's head is one further. -/
theorem next_tail (hf : b.Fits) (ht : x :: t <:+ b.content) :
    b.len - (t.length + 1) + 1 = b.len - t.length := by
  have hle := tail_length hf ht
  omega

end Tails

/-- One copy appends as much input as fits. -/
theorem fillOnce_eq {bufLen : ℕ} {b : BuffData} {bf : List UInt8} {rlen : ℕ}
    (hs : b.slen = bufLen) (hl : b.len < bufLen) (hr : rlen < bf.length) :
    ∃ b' n, fillOnce bufLen b bf rlen = some (b', rlen + n) ∧ 0 < n ∧ rlen + n ≤ bf.length ∧
      b'.type = b.type ∧ b'.slen = b.slen ∧ b'.len = b.len + n ∧ b'.Fits ∧
      b'.content = b.content ++ (bf.drop rlen).take n ∧
      (b'.len = bufLen ∨ rlen + n = bf.length) := by
  by_cases hfit : bf.length - rlen ≤ bufLen - b.len
  · have hd : (bf.drop rlen).length = bf.length - rlen := List.length_drop
    obtain ⟨b', hb, ht, hsl, hbuf⟩ := memcpy_append b (bf.drop rlen) (by omega)
    refine ⟨b'.setLen (b.len + (bf.length - rlen)), bf.length - rlen, ?_, by omega, by omega, ht,
      hsl, rfl, ?_, ?_, Or.inr (by omega)⟩
    · rw [fillOnce, if_pos hfit, hb]
      simp only [Option.bind_eq_bind, Option.bind_some, Option.pure_def, Option.some.injEq,
        Prod.mk.injEq, true_and]
      omega
    · show b.len + (bf.length - rlen) ≤ b'.slen
      omega
    · rw [content_setLen, ← hd, hbuf, List.take_length]
  · have hd : ((bf.drop rlen).take (bufLen - b.len)).length = bufLen - b.len := by
      rw [List.length_take, List.length_drop]
      omega
    obtain ⟨b', hb, ht, hsl, hbuf⟩ := memcpy_append b
      ((bf.drop rlen).take (bufLen - b.len)) (by omega)
    refine ⟨b'.setLen bufLen, bufLen - b.len, ?_, by omega, by omega, ht, hsl, ?_, ?_, ?_,
      Or.inl rfl⟩
    · rw [fillOnce, if_neg hfit, hb]
      rfl
    · show bufLen = b.len + (bufLen - b.len)
      omega
    · show bufLen ≤ b'.slen
      omega
    · rw [hd] at hbuf
      have he : b.len + (bufLen - b.len) = bufLen := by omega
      rw [content_setLen, ← hbuf, he]

/-- Dropping to a located position resynchronises the content. -/
theorem dropBefore_located (hdr : List UInt8) {b : BuffData} (hf : b.Fits) :
    ∃ b', dropBefore b (located hdr b.content).1 = some b' ∧ b'.type = b.type ∧
      b'.slen = b.slen ∧ b'.Fits ∧ b'.content = resync hdr b.content := by
  have hlen := content_length hf
  have hle := resync_length_le hdr b.content
  have hdrop : b.content.drop (b.content.length - (resync hdr b.content).length) =
      resync hdr b.content := (List.suffix_iff_eq_drop.mp (resync_suffix hdr b.content)).symm
  by_cases hnil : resync hdr b.content = []
  · refine ⟨b.setLen 0, ?_, rfl, rfl, Nat.zero_le _, ?_⟩
    · rw [located, if_pos hnil]
      rfl
    · rw [content_setLen_zero, hnil]
  · have hpos := List.length_pos_iff.mpr hnil
    by_cases hj : 0 < b.content.length - (resync hdr b.content).length
    · obtain ⟨b', hb, ht, hsl, hbuf⟩ := memmove_content
        (j := b.content.length - (resync hdr b.content).length) hf (by omega)
      refine ⟨b'.setLen (b.len - (b.content.length - (resync hdr b.content).length)), ?_, ht, hsl,
        ?_, ?_⟩
      · rw [located, if_neg hnil]
        simp only [dropBefore, if_pos hj, hb]
        rfl
      · show b.len - _ ≤ b'.slen
        have : b.len ≤ b.slen := hf
        omega
      · rw [content_setLen, hbuf, hdrop]
    · refine ⟨b, ?_, rfl, rfl, hf, ?_⟩
      · rw [located, if_neg hnil]
        simp only [dropBefore, if_neg hj]
      · rw [← hdrop, show b.content.length - (resync hdr b.content).length = 0 by omega,
          List.drop_zero]

/-- The fill loop ends, stays inside the payload and performs a fill of the
framed receiver on the bytes that are available. -/
theorem addLoop_synced {F : Framing UInt8} {findHead : BuffData → Option (Option ℕ × Bool)}
    (hfind : Locates F.hdr findHead) {fuel : ℕ} {b : BuffData} {bf : List UInt8} {rlen : ℕ}
    {found : Bool} (hs : b.slen = F.cap) (hf : b.Fits) (hr : rlen ≤ bf.length)
    (hfuel : bf.length - rlen < fuel) (hfound : found = true → F.hdr <+: b.content)
    (halign : Aligned F b.content) :
    ∃ b' rest, addLoop F.cap F.hdr.length findHead fuel b bf rlen found =
        some (b', bf.length - rest.length) ∧ b'.type = b.type ∧ b'.slen = b.slen ∧ b'.Fits ∧
      rest <:+ bf ∧ Synced F (b.content ++ bf.drop rlen) b'.content rest := by
  induction fuel generalizing b rlen found with
  | zero => omega
  | succ fuel ih =>
    have hlen := content_length hf
    by_cases hgo : b.len < F.cap ∧ rlen < bf.length
    · obtain ⟨w, n, hw, hn, hle, ht, hsl, hwl, hwf, hwc, hend⟩ := fillOnce_eq hs hgo.1 hgo.2
      have hinp : b.content ++ bf.drop rlen = w.content ++ bf.drop (rlen + n) := by
        rw [hwc, List.append_assoc, ← List.drop_drop, List.take_append_drop]
      have hwlen := content_length hwf
      rw [addLoop, if_pos hgo, hw]
      simp only [Option.bind_eq_bind, Option.bind_some]
      by_cases hscan : found = false ∧ F.hdr.length < w.len
      · obtain ⟨d, hd, hdt, hds, hdf, hdc⟩ := dropBefore_located F.hdr hwf
        have hda : Aligned F d.content := by
          rw [hdc]
          by_cases hh : F.hdr <+: resync F.hdr w.content
          · exact Or.inr hh
          · exact Or.inl (resync_length_lt hh).le
        have hdfound : (located F.hdr w.content).2 = true → F.hdr <+: d.content := fun h => by
          rw [hdc]
          exact of_decide_eq_true h
        obtain ⟨b', rest, hb, hbt, hbs, hbf, hsuf, hsync⟩ := ih (by omega) hdf hle (by omega) hdfound hda
        refine ⟨b', rest, ?_, by rw [hbt, hdt, ht], by omega, hbf, hsuf, ?_⟩
        · rw [if_pos hscan, hfind w hwf]
          simp only [Option.bind_some, hd, hb]
        · rw [hdc] at hsync
          rw [hinp]
          exact hsync.of_resync
      · have hfound' : found = true → F.hdr <+: w.content := fun h =>
          hwc ▸ (hfound h).trans (List.prefix_append _ _)
        have hwa : Aligned F w.content := by
          cases found with
          | true => exact Or.inr (hfound' rfl)
          | false =>
            have hshort : ¬F.hdr.length < w.len := fun h => hscan ⟨rfl, h⟩
            exact Or.inl (by omega)
        obtain ⟨b', rest, hb, hbt, hbs, hbf, hsuf, hsync⟩ := ih (by omega) hwf hle (by omega) hfound' hwa
        refine ⟨b', rest, ?_, by rw [hbt, ht], by omega, hbf, hsuf, ?_⟩
        · rw [if_neg hscan, hb]
        · rw [hinp]
          exact hsync
    · have hcap : b.len ≤ F.cap := hs ▸ hf
      refine ⟨b, bf.drop rlen, ?_, rfl, rfl, hf, List.drop_suffix _ _, ?_⟩
      · rw [addLoop, if_neg hgo, List.length_drop]
        simp only [Option.some.injEq, Prod.mk.injEq, true_and]
        omega
      · refine Synced.of_aligned (by omega) halign ?_
        by_cases hfull : b.len = F.cap
        · exact Or.inl (by omega)
        · exact Or.inr (List.drop_eq_nil_of_le (by omega))

/-- `add` on an aligned buffer is a fill of the framed receiver. -/
theorem add_synced {F : Framing UInt8} {findHead : BuffData → Option (Option ℕ × Bool)}
    (hfind : Locates F.hdr findHead) {b : BuffData} (bf : List UInt8) (hs : b.slen = F.cap)
    (hf : b.Fits) (ha : Aligned F b.content) :
    ∃ b' rest, add F.cap F.hdr.length findHead b bf = some (b', bf.length - rest.length) ∧
      b'.type = b.type ∧ b'.slen = b.slen ∧ b'.Fits ∧ rest <:+ bf ∧
      Synced F (b.content ++ bf) b'.content rest :=
  addLoop_synced hfind hs hf (Nat.zero_le bf.length) (Nat.lt_succ_self _)
    (fun h => by cases h) ha

end CdroidDemo.PacketAssembly
