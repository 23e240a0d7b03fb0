import CdroidDemo.OrderedMap
import Mathlib.Algebra.Order.Group.Int
import Mathlib.Data.List.Forall2
import Mathlib.Data.List.TakeWhile
import Mathlib.Data.Rat.Floor
import Mathlib.Tactic.Linarith
import Mathlib.Tactic.Ring

/-!
# The text of the clock

`TimeTextView` draws hours and minutes in cells of one width, so that the text
does not move when its digits change or the colon blinks. The sizes of the
characters are measured once, and their maxima are kept in bytes. What a
character covers is its ink as it was measured, with the bearings of the font.
-/

namespace CdroidDemo.TimeText

/-! ## Sizes -/

/-- `Point`. -/
structure Point where
  /-- The width. -/
  x : ℤ
  /-- The height. -/
  y : ℤ

/-- `cairo_text_extents_t`: the box of the ink, seen from where the pen stands
on the baseline, with `y` downwards. -/
structure TextExtents where
  /-- From the pen to the left of the ink. -/
  x_bearing : ℚ
  /-- From the pen to the top of the ink. -/
  y_bearing : ℚ
  /-- The width of the ink. -/
  width : ℚ
  /-- The height of the ink. -/
  height : ℚ

/-- What is kept of a measured character. -/
def measure (extents : TextExtents) : Point :=
  ⟨⌈extents.width + extents.x_bearing⌉, ⌈extents.height⌉⟩

/-- The measured sizes and their maxima. -/
structure TimeTextView where
  /-- The sizes of the measured characters. -/
  mCharWidthHeight : OrderedMap ℕ Point
  /-- The width of the widest digit. -/
  mNumWidth : UInt8
  /-- The height of the highest digit. -/
  mNumHeight : UInt8
  /-- The width of the widest other character. -/
  mCharWidth : UInt8
  /-- The height of the highest other character. -/
  mCharHeight : UInt8

/-- `"-0123456789: "`. -/
def chars : List ℕ := [45, 48, 49, 50, 51, 52, 53, 54, 55, 56, 57, 58, 32]

/-- `calcCharWidthHeight` with the extents that are measured. -/
def calcCharWidthHeight (s : TimeTextView) (extents : ℕ → TextExtents) : TimeTextView :=
  if s.mCharWidthHeight.entries.isEmpty then
    { mCharWidthHeight :=
        chars.foldl (fun m ch => m.insert ch (measure (extents ch))) s.mCharWidthHeight
      mNumWidth := 0
      mNumHeight := 0
      mCharWidth := 0
      mCharHeight := 0 }
  else s

/-- `if (v > m) { m = v; }` for a byte. -/
def grow (m : UInt8) (v : ℤ) : UInt8 :=
  if (m.toNat : ℤ) < v then UInt8.ofInt v else m

/-- `ch == '-' || (ch >= '0' && ch <= '9')`. -/
def isNum (ch : ℕ) : Bool := ch = 45 ∨ (48 ≤ ch ∧ ch ≤ 57)

/-- The body of the loop of `getConnMax`. -/
def takeMax (s : TimeTextView) (kv : ℕ × Point) : TimeTextView :=
  if isNum kv.1 then
    {s with mNumWidth := grow s.mNumWidth kv.2.x, mNumHeight := grow s.mNumHeight kv.2.y}
  else {s with mCharWidth := grow s.mCharWidth kv.2.x, mCharHeight := grow s.mCharHeight kv.2.y}

/-- `getConnMax` with the two sizes that it returns. -/
def getConnMax (s : TimeTextView) : TimeTextView × ℤ × ℤ :=
  let s := if s.mNumWidth = 0 then s.mCharWidthHeight.entries.foldl takeMax s else s
  (s, s.mNumWidth.toNat * 4 + s.mCharWidth.toNat, max (s.mNumHeight.toNat : ℤ) s.mCharHeight.toNat)

/-- `getCharWH`. -/
def getCharWH (s : TimeTextView) (ch : ℕ) : Point := (s.mCharWidthHeight.find ch).getD ⟨0, 0⟩

/-! ## Drawing -/

/-- The box of the view. -/
structure Box where
  /-- `getWidth`. -/
  width : ℤ
  /-- `getHeight`. -/
  height : ℤ
  /-- `getPaddingLeft`. -/
  paddingLeft : ℤ
  /-- `getPaddingTop`. -/
  paddingTop : ℤ
  /-- `getPaddingRight`. -/
  paddingRight : ℤ
  /-- `getPaddingBottom`. -/
  paddingBottom : ℤ
  /-- The gravity has `CENTER_HORIZONTAL`. -/
  centerHorizontal : Bool
  /-- The gravity has `CENTER_VERTICAL`. -/
  centerVertical : Bool

/-- A character that is shown, with twice the coordinates of the pen. -/
structure Shown where
  /-- The character. -/
  ch : ℕ
  /-- Twice the horizontal place of the pen. -/
  x0 : ℤ
  /-- Twice the vertical place of the pen. -/
  y0 : ℤ

/-- The hours are in front of the first colon, the minutes behind it. -/
def splitTime (txt : List ℕ) : List ℕ × List ℕ :=
  (txt.takeWhile (· ≠ 58), (txt.dropWhile (· ≠ 58)).filter (· ≠ 58))

/-- The loops over hours and minutes, with `x_offset`. -/
def drawNums (s : TimeTextView) (x y mh : ℤ) : ℤ → List ℕ → List Shown
  | _, [] => []
  | x_offset, ch :: txt =>
    let pt := getCharWH s ch
    let y0 := if ch = 45 then 2 * (y + mh) - pt.y else 2 * (y + mh) - (mh - pt.y)
    ⟨ch, 2 * (x + x_offset) + (s.mNumWidth.toNat - pt.x), y0⟩ ::
      drawNums s x y mh (x_offset + s.mNumWidth.toNat) txt

/-- The colon between them. -/
def drawDot (s : TimeTextView) (x y mh x_offset : ℤ) (mIsDot : Bool) : List Shown :=
  if mIsDot then
    let pt := getCharWH s 58
    [⟨58, 2 * (x + x_offset) + (s.mCharWidth.toNat - pt.x), 2 * (y + mh) - (mh - pt.y)⟩]
  else []

/-- `onDraw`. -/
def onDraw (s : TimeTextView) (b : Box) (txt : List ℕ) (mIsDot : Bool) :
    TimeTextView × List Shown :=
  if txt.isEmpty then (s, [])
  else
    let w := b.width - b.paddingLeft - b.paddingRight
    let h := b.height - b.paddingTop - b.paddingBottom
    let (s, mw, mh) := getConnMax s
    let x := b.paddingLeft + if mw < w ∧ b.centerHorizontal = true then (w - mw) / 2 else 0
    let y := b.paddingTop + if mh < h ∧ b.centerVertical = true then (h - mh) / 2 else 0
    let (hour, min) := splitTime txt
    let x_min := hour.length * s.mNumWidth.toNat
    (s, drawNums s x y mh 0 hour ++ drawDot s x y mh x_min mIsDot ++
      drawNums s x y mh (x_min + s.mCharWidth.toNat) min)

/-! ## The maxima -/

/-- A size that a byte holds. -/
def Small (p : Point) : Prop := 0 ≤ p.x ∧ p.x ≤ 255 ∧ 0 ≤ p.y ∧ p.y ≤ 255

instance (p : Point) : Decidable (Small p) := inferInstanceAs (Decidable (_ ∧ _ ∧ _ ∧ _))

/-- A measure grown to a value covers the old measure and the value. -/
theorem grow_spec {m : UInt8} {v : ℤ} (hv : v ≤ 255) :
    (m.toNat : ℤ) ≤ (grow m v).toNat ∧ v ≤ (grow m v).toNat := by
  unfold grow
  split
  · next hlt =>
    have hmod : (UInt8.ofInt v).toNat = v := by
      unfold UInt8.ofInt
      rw [UInt8.toNat_ofNat', Nat.mod_eq_of_lt (by omega)]
      omega
    rw [hmod]
    exact ⟨hlt.le, le_refl v⟩
  · next hle => exact ⟨le_refl _, not_lt.mp hle⟩

/-- A character fits the maxima of its kind. -/
def Fits (s : TimeTextView) (kv : ℕ × Point) : Prop :=
  if isNum kv.1 then kv.2.x ≤ s.mNumWidth.toNat ∧ kv.2.y ≤ s.mNumHeight.toNat
  else kv.2.x ≤ s.mCharWidth.toNat ∧ kv.2.y ≤ s.mCharHeight.toNat

/-- The maxima do not shrink. -/
structure Grows (s s' : TimeTextView) : Prop where
  /-- The measured characters stay. -/
  sizes : s'.mCharWidthHeight = s.mCharWidthHeight
  /-- The digits do not get narrower. -/
  mNumWidth : (s.mNumWidth.toNat : ℤ) ≤ s'.mNumWidth.toNat
  /-- They do not get lower. -/
  mNumHeight : (s.mNumHeight.toNat : ℤ) ≤ s'.mNumHeight.toNat
  /-- The colon does not get narrower. -/
  mCharWidth : (s.mCharWidth.toNat : ℤ) ≤ s'.mCharWidth.toNat
  /-- It does not get lower. -/
  mCharHeight : (s.mCharHeight.toNat : ℤ) ≤ s'.mCharHeight.toNat

variable {s s' s'' : TimeTextView} {kv : ℕ × Point}

/-- No measure shrinks when nothing happens. -/
theorem Grows.refl (s : TimeTextView) : Grows s s :=
  ⟨rfl, le_refl _, le_refl _, le_refl _, le_refl _⟩

/-- Measures grow one after the other. -/
theorem Grows.trans (h : Grows s s') (h' : Grows s' s'') : Grows s s'' :=
  ⟨h'.sizes.trans h.sizes, h.mNumWidth.trans h'.mNumWidth, h.mNumHeight.trans h'.mNumHeight,
    h.mCharWidth.trans h'.mCharWidth, h.mCharHeight.trans h'.mCharHeight⟩

/-- What fits keeps fitting while the measures grow. -/
theorem Fits.grows (h : Fits s kv) (hg : Grows s s') : Fits s' kv := by
  unfold Fits at h ⊢
  split at h
  · next hn =>
    rw [if_pos hn]
    exact ⟨h.1.trans hg.mNumWidth, h.2.trans hg.mNumHeight⟩
  · next hn =>
    rw [if_neg hn]
    exact ⟨h.1.trans hg.mCharWidth, h.2.trans hg.mCharHeight⟩

/-- Taking a small character into the measures makes it fit. -/
theorem takeMax_spec (s : TimeTextView) (h : Small kv.2) :
    Grows s (takeMax s kv) ∧ Fits (takeMax s kv) kv := by
  obtain ⟨-, hx, -, hy⟩ := h
  unfold takeMax Fits
  by_cases hn : isNum kv.1 = true
  · simp only [if_pos hn]
    exact ⟨⟨rfl, (grow_spec hx).1, (grow_spec hy).1, le_refl _, le_refl _⟩, (grow_spec hx).2,
      (grow_spec hy).2⟩
  · simp only [if_neg hn]
    exact ⟨⟨rfl, le_refl _, le_refl _, (grow_spec hx).1, (grow_spec hy).1⟩, (grow_spec hx).2,
      (grow_spec hy).2⟩

/-- Taking in a list of small characters makes them all fit. -/
theorem foldl_takeMax {l : List (ℕ × Point)} (hl : ∀ kv ∈ l, Small kv.2) (s : TimeTextView) :
    Grows s (l.foldl takeMax s) ∧ ∀ kv ∈ l, Fits (l.foldl takeMax s) kv := by
  induction l generalizing s with
  | nil => exact ⟨Grows.refl s, fun kv hkv => absurd hkv List.not_mem_nil⟩
  | cons e l ih =>
    obtain ⟨hgrow, hfit⟩ := takeMax_spec s (hl e List.mem_cons_self)
    obtain ⟨hrest, hfits⟩ := ih (fun kv hkv => hl kv (List.mem_cons_of_mem e hkv)) (takeMax s e)
    refine ⟨hgrow.trans hrest, fun kv hkv => ?_⟩
    rcases List.mem_cons.mp hkv with rfl | hkv
    · exact hfit.grows hrest
    · exact hfits kv hkv

/-! ## From the first measuring on -/

/-- The states from the first measuring on. Later ones measure nothing. -/
inductive Reached (extents : ℕ → TextExtents) : TimeTextView → Prop
  /-- The characters are measured. -/
  | measured {s : TimeTextView} (h : s.mCharWidthHeight.entries = []) :
    Reached extents (calcCharWidthHeight s extents)
  /-- They are to be measured again. -/
  | again {s : TimeTextView} (later : ℕ → TextExtents) (h : Reached extents s) :
    Reached extents (calcCharWidthHeight s later)
  /-- The greatest measures are taken. -/
  | maxima {s : TimeTextView} (h : Reached extents s) : Reached extents (getConnMax s).1

/-- The sizes are those that were measured and fit into bytes, and the maxima
have not been taken yet or are. -/
structure Sized (extents : ℕ → TextExtents) (s : TimeTextView) : Prop where
  /-- Every character has the size that was measured. -/
  table : ∀ ch ∈ chars, s.mCharWidthHeight.find ch = some (measure (extents ch))
  /-- Every size fits into bytes. -/
  small : ∀ kv ∈ s.mCharWidthHeight.entries, Small kv.2
  /-- The maxima have not been taken yet or are. -/
  fits : s.mNumWidth = 0 ∨ ∀ kv ∈ s.mCharWidthHeight.entries, Fits s kv

variable {extents : ℕ → TextExtents}

/-- A character that was measured is an entry of its size. -/
theorem Sized.entry (h : Sized extents s) (ch : ℕ) (hch : ch ∈ chars) :
    (ch, measure (extents ch)) ∈ s.mCharWidthHeight.entries :=
  (OrderedMap.mem_entries_iff _).mpr (h.table ch hch)

/-- A sized view has measured its characters. -/
theorem Sized.nonempty (h : Sized extents s) : s.mCharWidthHeight.entries ≠ [] :=
  List.ne_nil_of_mem (h.entry 45 (by decide))

/-- Taking the maxima makes every character fit them. -/
theorem getConnMax_spec (h : Sized extents s) :
    Sized extents (getConnMax s).1 ∧
      ∀ kv ∈ (getConnMax s).1.mCharWidthHeight.entries, Fits (getConnMax s).1 kv := by
  unfold getConnMax
  by_cases hz : s.mNumWidth = 0
  · simp only [if_pos hz]
    obtain ⟨hgrow, hfits⟩ := foldl_takeMax h.small s
    have hsizes := hgrow.sizes
    refine ⟨⟨?_, ?_, Or.inr ?_⟩, ?_⟩ <;> rw [hsizes]
    · exact h.table
    · exact h.small
    · exact hfits
    · exact hfits
  · simp only [if_neg hz]
    exact ⟨h, h.fits.resolve_left hz⟩

/-- A table filled from a list has the list's entries. -/
theorem find_foldl_insert (size : ℕ → Point) (l : List ℕ) (m : OrderedMap ℕ Point) (k : ℕ) :
    (l.foldl (fun m ch => m.insert ch (size ch)) m).find k =
      if k ∈ l then some (size k) else m.find k := by
  induction l generalizing m with
  | nil => rfl
  | cons ch l ih =>
    rw [List.foldl_cons, ih, OrderedMap.find_insert]
    by_cases hk : k ∈ l
    · rw [if_pos hk, if_pos (List.mem_cons_of_mem ch hk)]
    · rw [if_neg hk]
      by_cases hch : k = ch
      · rw [if_pos hch, if_pos (hch ▸ List.mem_cons_self), hch]
      · rw [if_neg hch, if_neg (fun h => (List.mem_cons.mp h).elim hch hk)]

/-- The first measuring keeps a size for every character, and no other one. -/
theorem measured_find (h : s.mCharWidthHeight.entries = []) (k : ℕ) :
    (calcCharWidthHeight s extents).mCharWidthHeight.find k =
      if k ∈ chars then some (measure (extents k)) else none := by
  have hempty : s.mCharWidthHeight.find k = none := by
    unfold OrderedMap.find
    rw [h]
    rfl
  unfold calcCharWidthHeight
  rw [h, List.isEmpty_nil, if_pos rfl]
  dsimp only
  rw [find_foldl_insert fun ch => measure (extents ch), hempty]

/-- Measuring small characters makes the view sized. -/
theorem measured_sized (he : ∀ ch ∈ chars, Small (measure (extents ch)))
    (h : s.mCharWidthHeight.entries = []) : Sized extents (calcCharWidthHeight s extents) := by
  refine ⟨fun ch hch => ?_, fun kv hkv => ?_, Or.inl ?_⟩
  · rw [measured_find h, if_pos hch]
  · obtain ⟨k, p⟩ := kv
    rw [OrderedMap.mem_entries_iff, measured_find h] at hkv
    split at hkv
    · next hk =>
      cases hkv
      exact he k hk
    · cases hkv
  · unfold calcCharWidthHeight
    rw [h, List.isEmpty_nil, if_pos rfl]

/-- A view that is reached is sized. -/
theorem Reached.sized (he : ∀ ch ∈ chars, Small (measure (extents ch)))
    (h : Reached extents s) : Sized extents s := by
  induction h with
  | measured hempty => exact measured_sized he hempty
  | again later _ ih =>
    unfold calcCharWidthHeight
    rw [if_neg (fun hnil => ih.nonempty (List.isEmpty_iff.mp hnil))]
    exact ih
  | maxima _ ih => exact (getConnMax_spec ih).1

/-! ## Cells -/

/-- Cells of one width beside each other. -/
def numCells (width : ℤ) : ℤ → ℕ → List (ℤ × ℤ)
  | _, 0 => []
  | left, n + 1 => (left, left + width) :: numCells width (left + width) n

/-- The cells of a text: one for each hour, one for the colon, and one for each
minute. -/
def cells (left num char : ℤ) (hours : ℕ) (dot : Bool) (minutes : ℕ) : List (ℤ × ℤ) :=
  numCells num left hours ++
    (if dot then [(left + hours * num, left + hours * num + char)] else []) ++
    numCells num (left + hours * num + char) minutes

/-- The cells of a number lie between its borders. -/
theorem numCells_bounds {width left : ℤ} (hw : 0 ≤ width) {n : ℕ} {cell : ℤ × ℤ}
    (h : cell ∈ numCells width left n) : left ≤ cell.1 ∧ cell.2 ≤ left + n * width := by
  induction n generalizing left with
  | zero => cases h
  | succ n ih =>
    have hn : ((n + 1 : ℕ) : ℤ) * width = n * width + width := by
      push_cast
      ring
    have hpos : 0 ≤ (n : ℤ) * width := Int.mul_nonneg (Int.natCast_nonneg n) hw
    rw [hn]
    rcases List.mem_cons.mp h with rfl | h
    · exact ⟨le_refl _, by dsimp only; omega⟩
    · have hrest := ih h
      omega

/-- The cells of a number stand one behind the other. -/
theorem numCells_apart {width : ℤ} (hw : 0 ≤ width) (left : ℤ) (n : ℕ) :
    (numCells width left n).Pairwise (fun a b => a.2 ≤ b.1) := by
  induction n generalizing left with
  | zero => exact List.Pairwise.nil
  | succ n ih =>
    refine List.pairwise_cons.mpr ⟨fun cell hcell => ?_, ih (left + width)⟩
    exact (numCells_bounds hw hcell).1

/-- No two characters of the text share a place. -/
theorem cells_apart {num char : ℤ} (hn : 0 ≤ num) (hc : 0 ≤ char) (left : ℤ) (hours minutes : ℕ)
    (dot : Bool) :
    (cells left num char hours dot minutes).Pairwise (fun a b => a.2 ≤ b.1) := by
  refine List.pairwise_append.mpr ⟨List.pairwise_append.mpr ⟨numCells_apart hn _ _, ?_, ?_⟩,
    numCells_apart hn _ _, ?_⟩
  · cases dot with
    | false => exact List.Pairwise.nil
    | true => exact List.pairwise_singleton _ _
  · intro a ha b hb
    have hleft := (numCells_bounds hn ha).2
    cases dot with
    | false => cases hb
    | true =>
      cases List.mem_singleton.mp hb
      exact hleft
  · intro a ha b hb
    have hright := (numCells_bounds hn hb).1
    rcases List.mem_append.mp ha with ha | ha
    · have hleft := (numCells_bounds hn ha).2
      omega
    · cases dot with
      | false => cases ha
      | true =>
        cases List.mem_singleton.mp ha
        exact hright

/-- The cells reach from `left` over the widths of all characters. -/
theorem cells_bounds {left num char : ℤ} (hn : 0 ≤ num) (hc : 0 ≤ char) {hours minutes : ℕ}
    {dot : Bool} {cell : ℤ × ℤ} (h : cell ∈ cells left num char hours dot minutes) :
    left ≤ cell.1 ∧ cell.2 ≤ left + (hours + minutes) * num + char := by
  have hh : 0 ≤ (hours : ℤ) * num := Int.mul_nonneg (Int.natCast_nonneg _) hn
  have hm : 0 ≤ (minutes : ℤ) * num := Int.mul_nonneg (Int.natCast_nonneg _) hn
  rw [add_mul]
  rcases List.mem_append.mp h with h | h
  · rcases List.mem_append.mp h with h | h
    · have hb := numCells_bounds hn h
      omega
    · cases dot with
      | false => cases h
      | true =>
        cases List.mem_singleton.mp h
        dsimp only
        omega
  · have hb := numCells_bounds hn h
    omega

/-- The ink of a character lies inside of a cell: it does not go beyond the
right of the cell, nor beyond the left if it does not begin in front of the
pen; and the ink of one that stands on the baseline is within the height of
the line, unless it is the dash. -/
def InCell (extents : ℕ → TextExtents) (top mh : ℤ) (cell : ℤ × ℤ) (g : Shown) : Prop :=
  (0 ≤ (extents g.ch).x_bearing → (cell.1 : ℚ) ≤ g.x0 / 2 + (extents g.ch).x_bearing) ∧
    g.x0 / 2 + (extents g.ch).x_bearing + (extents g.ch).width ≤ cell.2 ∧
    (g.ch ≠ 45 → (extents g.ch).y_bearing = -(extents g.ch).height →
      (top : ℚ) ≤ g.y0 / 2 + (extents g.ch).y_bearing ∧
        g.y0 / 2 + (extents g.ch).y_bearing + (extents g.ch).height ≤ top + mh)

/-- In the middle of a cell that is wide enough the ink does not leave it. -/
theorem ink_across {e : TextExtents} {left width : ℤ} (hx : (measure e).x ≤ width) :
    (0 ≤ e.x_bearing →
        (left : ℚ) ≤ (2 * left + (width - (measure e).x) : ℤ) / 2 + e.x_bearing) ∧
      ((2 * left + (width - (measure e).x) : ℤ) : ℚ) / 2 + e.x_bearing + e.width ≤
        (left + width : ℤ) := by
  have hink : e.width + e.x_bearing ≤ (measure e).x := Int.le_ceil _
  have hroom : ((measure e).x : ℚ) ≤ width := by exact_mod_cast hx
  push_cast
  constructor
  · intro hb
    linarith
  · linarith

/-- In the middle of a line that is high enough the ink on the baseline does
not leave it. -/
theorem ink_up {e : TextExtents} {top mh : ℤ} (hy : (measure e).y ≤ mh)
    (hb : e.y_bearing = -e.height) :
    (top : ℚ) ≤ (2 * (top + mh) - (mh - (measure e).y) : ℤ) / 2 + e.y_bearing ∧
      ((2 * (top + mh) - (mh - (measure e).y) : ℤ) : ℚ) / 2 + e.y_bearing + e.height ≤
        top + mh := by
  have hink : e.height ≤ (measure e).y := Int.le_ceil _
  have hroom : ((measure e).y : ℚ) ≤ mh := by exact_mod_cast hy
  rw [hb]
  push_cast
  constructor <;> linarith

/-- A character with its measured size, no larger than a cell. -/
structure Measured (extents : ℕ → TextExtents) (s : TimeTextView) (width mh : ℤ) (ch : ℕ) :
    Prop where
  /-- The table has the size that was measured. -/
  size : getCharWH s ch = measure (extents ch)
  /-- The character is no wider than the cell. -/
  x : (measure (extents ch)).x ≤ width
  /-- The character is no higher than the line. -/
  y : (measure (extents ch)).y ≤ mh

/-- The digits of a number are drawn in its cells. -/
theorem drawNums_inCells {x y mh : ℤ} {txt : List ℕ}
    (h : ∀ ch ∈ txt, Measured extents s s.mNumWidth.toNat mh ch) (x_offset : ℤ) :
    List.Forall₂ (InCell extents y mh) (numCells s.mNumWidth.toNat (x + x_offset) txt.length)
        (drawNums s x y mh x_offset txt) ∧
      (drawNums s x y mh x_offset txt).map Shown.ch = txt := by
  induction txt generalizing x_offset with
  | nil => exact ⟨List.Forall₂.nil, rfl⟩
  | cons ch txt ih =>
    obtain ⟨hsize, hx, hy⟩ := h ch List.mem_cons_self
    obtain ⟨hcells, hchars⟩ := ih (fun c hc => h c (List.mem_cons_of_mem ch hc))
      (x_offset + s.mNumWidth.toNat)
    rw [← add_assoc] at hcells
    refine ⟨List.Forall₂.cons ?_ hcells, congrArg (List.cons ch) hchars⟩
    unfold InCell
    dsimp only
    rw [hsize]
    refine ⟨(ink_across hx).1, (ink_across hx).2, fun hdash hb => ?_⟩
    rw [if_neg hdash]
    exact ink_up hy hb

/-! ## The text in its cells -/

/-- Digits and dashes fit the cells of the text. -/
theorem num_measured (h : Sized extents s)
    (hf : ∀ kv ∈ s.mCharWidthHeight.entries, Fits s kv) {ch : ℕ} (hch : ch ∈ chars)
    (h58 : ch ≠ 58) (h32 : ch ≠ 32) :
    Measured extents s s.mNumWidth.toNat (max (s.mNumHeight.toNat : ℤ) s.mCharHeight.toNat) ch := by
  have hall : ∀ ch ∈ chars, ch ≠ 58 → ch ≠ 32 → isNum ch = true := by decide
  have hfit := hf _ (h.entry ch hch)
  unfold Fits at hfit
  rw [if_pos (hall ch hch h58 h32)] at hfit
  refine ⟨?_, hfit.1, hfit.2.trans (le_max_left _ _)⟩
  rw [getCharWH, h.table ch hch]
  rfl

/-- So does the colon fit its own. -/
theorem colon_measured (h : Sized extents s)
    (hf : ∀ kv ∈ s.mCharWidthHeight.entries, Fits s kv) :
    Measured extents s s.mCharWidth.toNat
      (max (s.mNumHeight.toNat : ℤ) s.mCharHeight.toNat) 58 := by
  have hfit := hf _ (h.entry 58 (by decide))
  have hnum : ¬isNum 58 = true := by decide
  unfold Fits at hfit
  rw [if_neg hnum] at hfit
  refine ⟨?_, hfit.1, hfit.2.trans (le_max_right _ _)⟩
  rw [getCharWH, h.table 58 (by decide)]
  rfl

/-- The colon is drawn in its cell. -/
theorem drawDot_inCells {mh : ℤ} (h : Measured extents s s.mCharWidth.toNat mh 58)
    (x y x_offset : ℤ) (dot : Bool) :
    List.Forall₂ (InCell extents y mh)
        (if dot then [(x + x_offset, x + x_offset + s.mCharWidth.toNat)] else [])
        (drawDot s x y mh x_offset dot) ∧
      (drawDot s x y mh x_offset dot).map Shown.ch = if dot then [58] else [] := by
  cases dot with
  | false => exact ⟨List.Forall₂.nil, rfl⟩
  | true =>
    obtain ⟨hsize, hx, hy⟩ := h
    refine ⟨List.Forall₂.cons ?_ List.Forall₂.nil, rfl⟩
    unfold InCell
    dsimp only
    rw [hsize]
    exact ⟨(ink_across hx).1, (ink_across hx).2, fun _ hb => ink_up hy hb⟩

/-- What is shown for a text. -/
structure Laid (extents : ℕ → TextExtents) (s : TimeTextView) (left top : ℤ) (txt : List ℕ)
    (dot : Bool) (shown : List Shown) : Prop where
  /-- The hours, the colon unless it is hidden, and the minutes are shown. -/
  chars : shown.map Shown.ch = (splitTime txt).1 ++ (if dot then [58] else []) ++ (splitTime txt).2
  /-- Each of them lies in its cell. -/
  inCells : List.Forall₂ (InCell extents top (max (s.mNumHeight.toNat : ℤ) s.mCharHeight.toNat))
    (cells left s.mNumWidth.toNat s.mCharWidth.toNat (splitTime txt).1.length dot
      (splitTime txt).2.length) shown

/-- Hours and minutes are characters of the text other than colons. -/
theorem mem_splitTime {txt : List ℕ} {ch : ℕ}
    (h : ch ∈ (splitTime txt).1 ∨ ch ∈ (splitTime txt).2) : ch ∈ txt ∧ ch ≠ 58 := by
  rcases h with h | h
  · have hne := List.mem_takeWhile_imp h
    exact ⟨List.takeWhile_subset _ h, of_decide_eq_true hne⟩
  · obtain ⟨hmem, hne⟩ := List.mem_filter.mp h
    exact ⟨List.dropWhile_subset _ hmem, of_decide_eq_true hne⟩

/-- Wherever the text is drawn to, its characters lie in their cells. -/
theorem draw_laid (h : Sized extents s) (hf : ∀ kv ∈ s.mCharWidthHeight.entries, Fits s kv)
    (x y : ℤ) {txt : List ℕ} (htxt : ∀ ch ∈ txt, ch ∈ chars ∧ ch ≠ 32) (dot : Bool) :
    Laid extents s x y txt dot
      (drawNums s x y (max (s.mNumHeight.toNat : ℤ) s.mCharHeight.toNat) 0 (splitTime txt).1 ++
        drawDot s x y (max (s.mNumHeight.toNat : ℤ) s.mCharHeight.toNat)
          ((splitTime txt).1.length * s.mNumWidth.toNat) dot ++
        drawNums s x y (max (s.mNumHeight.toNat : ℤ) s.mCharHeight.toNat)
          ((splitTime txt).1.length * s.mNumWidth.toNat + s.mCharWidth.toNat) (splitTime txt).2) := by
  have hnum : ∀ ch, ch ∈ (splitTime txt).1 ∨ ch ∈ (splitTime txt).2 →
      Measured extents s s.mNumWidth.toNat
        (max (s.mNumHeight.toNat : ℤ) s.mCharHeight.toNat) ch := by
    intro ch hch
    obtain ⟨hmem, h58⟩ := mem_splitTime hch
    exact num_measured h hf (htxt ch hmem).1 h58 (htxt ch hmem).2
  obtain ⟨hcells₁, hchars₁⟩ := drawNums_inCells (x := x) (y := y)
    (fun ch hch => hnum ch (Or.inl hch)) 0
  obtain ⟨hcells₂, hchars₂⟩ := drawDot_inCells (colon_measured h hf) x y
    ((splitTime txt).1.length * s.mNumWidth.toNat) dot
  obtain ⟨hcells₃, hchars₃⟩ := drawNums_inCells (x := x) (y := y)
    (fun ch hch => hnum ch (Or.inr hch))
    ((splitTime txt).1.length * s.mNumWidth.toNat + s.mCharWidth.toNat)
  rw [add_zero] at hcells₁
  rw [← add_assoc] at hcells₃
  refine ⟨?_, ?_⟩
  · rw [List.map_append, List.map_append, hchars₁, hchars₂, hchars₃]
  · exact List.rel_append (List.rel_append hcells₁ hcells₂) hcells₃

/-! ## One place for all texts -/

/-- A character that fits changes no measure. -/
theorem takeMax_of_fits (h : Fits s kv) : takeMax s kv = s := by
  unfold Fits at h
  unfold takeMax grow
  by_cases hn : isNum kv.1 = true
  · rw [if_pos hn] at h
    rw [if_pos hn, if_neg (not_lt.mpr h.1), if_neg (not_lt.mpr h.2)]
  · rw [if_neg hn] at h
    rw [if_neg hn, if_neg (not_lt.mpr h.1), if_neg (not_lt.mpr h.2)]

/-- Characters that fit change no measure. -/
theorem foldl_takeMax_of_fits {l : List (ℕ × Point)} (h : ∀ kv ∈ l, Fits s kv) :
    l.foldl takeMax s = s := by
  induction l with
  | nil => rfl
  | cons e l ih =>
    rw [List.foldl_cons, takeMax_of_fits (h e List.mem_cons_self)]
    exact ih fun kv hkv => h kv (List.mem_cons_of_mem e hkv)

/-- When every measured character fits, the measures stay. -/
theorem getConnMax_of_fits (h : ∀ kv ∈ s.mCharWidthHeight.entries, Fits s kv) :
    (getConnMax s).1 = s := by
  unfold getConnMax
  dsimp only
  split
  · exact foldl_takeMax_of_fits h
  · rfl

/-- The maxima of the first measuring. -/
def firstMax (extents : ℕ → TextExtents) : TimeTextView :=
  (getConnMax (calcCharWidthHeight ⟨OrderedMap.empty, 0, 0, 0, 0⟩ extents)).1

/-- The maxima stay those of the first measuring. -/
theorem Reached.firstMax (he : ∀ ch ∈ chars, Small (measure (extents ch)))
    (h : Reached extents s) : (getConnMax s).1 = firstMax extents := by
  induction h with
  | @measured s hempty =>
    obtain ⟨⟨entries, hasc⟩, nw, nh, cw, ch⟩ := s
    cases hempty
    rfl
  | again later h ih =>
    unfold calcCharWidthHeight
    rw [if_neg (fun hnil => (h.sized he).nonempty (List.isEmpty_iff.mp hnil))]
    exact ih
  | maxima h ih => rw [getConnMax_of_fits (getConnMax_spec (h.sized he)).2, ih]

/-! ## The text of the pages -/

/-- `%02d`. -/
def twoDigits (v : ℕ) : List ℕ :=
  let digits := (Nat.toDigits 10 v).map Char.toNat
  List.replicate (2 - digits.length) 48 ++ digits

/-- `getTimeStr` with the fields of the local time; its buffer holds 15 characters. -/
def getTimeStr (tm_hour tm_min : ℕ) : List ℕ :=
  (twoDigits tm_hour ++ [58] ++ twoDigits tm_min).take 15

/-- Two characters that are measured, and no colon among them. -/
theorem twoDigits_spec {v : ℕ} (h : v < 100) : (twoDigits v).length = 2 ∧
    ∀ ch ∈ twoDigits v, ch ∈ chars ∧ ch ≠ 58 ∧ ch ≠ 32 := by
  have hall : ∀ v ∈ List.range 100, (twoDigits v).length = 2 ∧
      ∀ ch ∈ twoDigits v, ch ∈ chars ∧ ch ≠ 58 ∧ ch ≠ 32 := by decide
  exact hall v (List.mem_range.mpr h)

/-- The text of a page is one of digits and a colon, two digits on either side. -/
theorem getTimeStr_spec {tm_hour tm_min : ℕ} (hh : tm_hour < 24) (hm : tm_min < 60) :
    getTimeStr tm_hour tm_min ≠ [] ∧
      (∀ ch ∈ getTimeStr tm_hour tm_min, ch ∈ chars ∧ ch ≠ 32) ∧
      splitTime (getTimeStr tm_hour tm_min) = (twoDigits tm_hour, twoDigits tm_min) ∧
      (splitTime (getTimeStr tm_hour tm_min)).1.length +
        (splitTime (getTimeStr tm_hour tm_min)).2.length ≤ 4 := by
  obtain ⟨hhour, hhourDigits⟩ := twoDigits_spec (show tm_hour < 100 by omega)
  obtain ⟨hmin, hminDigits⟩ := twoDigits_spec (show tm_min < 100 by omega)
  have htxt : getTimeStr tm_hour tm_min = twoDigits tm_hour ++ 58 :: twoDigits tm_min := by
    unfold getTimeStr
    rw [List.append_assoc, List.singleton_append]
    refine List.take_of_length_le ?_
    rw [List.length_append, List.length_cons, hhour, hmin]
    decide
  have hbefore : ∀ ch ∈ twoDigits tm_hour, decide (ch ≠ 58) = true := fun ch hch =>
    decide_eq_true (hhourDigits ch hch).2.1
  have hbehind : ∀ ch ∈ twoDigits tm_min, decide (ch ≠ 58) = true := fun ch hch =>
    decide_eq_true (hminDigits ch hch).2.1
  have hsplit : splitTime (getTimeStr tm_hour tm_min) = (twoDigits tm_hour, twoDigits tm_min) := by
    unfold splitTime
    rw [htxt, List.takeWhile_append_of_pos hbefore, List.dropWhile_append_of_pos hbefore,
      List.takeWhile_cons_of_neg (by decide), List.dropWhile_cons_of_neg (by decide),
      List.append_nil, List.filter_cons_of_neg (by decide), List.filter_eq_self.mpr hbehind]
  refine ⟨?_, fun ch hch => ?_, hsplit, ?_⟩
  · rw [htxt]
    exact List.append_ne_nil_of_right_ne_nil _ (List.cons_ne_nil _ _)
  · rw [htxt] at hch
    rcases List.mem_append.mp hch with h | h
    · exact (hhourDigits ch h).imp_right And.right
    · rcases List.mem_cons.mp h with rfl | h
      · decide
      · exact (hminDigits ch h).imp_right And.right
  · rw [hsplit]
    dsimp only
    omega

/-- With sizes that fit into bytes there is one place for the text, from the
first measuring on: whatever hours and minutes are shown, with the colon or
without, the measured ink of each character lies in its cell, no two cells
overlap, and they depend on the number of hours and minutes only. With at most
four digits the text lies within the width that the maxima ask for, and this
in the padded box if it has the room; the texts of the pages are of this kind. -/
theorem text_in_cells (he : ∀ ch ∈ chars, Small (measure (extents ch))) (b : Box) :
    (∃ m left top, b.paddingLeft ≤ left ∧
      (m.mNumWidth.toNat * 4 + m.mCharWidth.toNat ≤ b.width - b.paddingLeft - b.paddingRight →
        left + (m.mNumWidth.toNat * 4 + m.mCharWidth.toNat) ≤ b.width - b.paddingRight) ∧
      ∀ s, Reached extents s → (getConnMax s).1 = m ∧
        ∀ txt dot, txt ≠ [] → (∀ ch ∈ txt, ch ∈ chars ∧ ch ≠ 32) →
          Laid extents m left top txt dot (onDraw s b txt dot).2 ∧
          (cells left m.mNumWidth.toNat m.mCharWidth.toNat (splitTime txt).1.length dot
            (splitTime txt).2.length).Pairwise (fun c d => c.2 ≤ d.1) ∧
          ((splitTime txt).1.length + (splitTime txt).2.length ≤ 4 →
            ∀ cell ∈ cells left m.mNumWidth.toNat m.mCharWidth.toNat (splitTime txt).1.length dot
              (splitTime txt).2.length,
              left ≤ cell.1 ∧
                cell.2 ≤ left + (m.mNumWidth.toNat * 4 + m.mCharWidth.toNat))) ∧
      ∀ tm_hour tm_min, tm_hour < 24 → tm_min < 60 → getTimeStr tm_hour tm_min ≠ [] ∧
        (∀ ch ∈ getTimeStr tm_hour tm_min, ch ∈ chars ∧ ch ≠ 32) ∧
        (splitTime (getTimeStr tm_hour tm_min)).1.length +
          (splitTime (getTimeStr tm_hour tm_min)).2.length ≤ 4 := by
  refine ⟨⟨firstMax extents, b.paddingLeft + if ((firstMax extents).mNumWidth.toNat : ℤ) * 4 +
      (firstMax extents).mCharWidth.toNat < b.width - b.paddingLeft - b.paddingRight ∧
      b.centerHorizontal = true then
      (b.width - b.paddingLeft - b.paddingRight - ((firstMax extents).mNumWidth.toNat * 4 +
        (firstMax extents).mCharWidth.toNat)) / 2 else 0,
    b.paddingTop + if max ((firstMax extents).mNumHeight.toNat : ℤ)
      (firstMax extents).mCharHeight.toNat < b.height - b.paddingTop - b.paddingBottom ∧
      b.centerVertical = true then
      (b.height - b.paddingTop - b.paddingBottom - max ((firstMax extents).mNumHeight.toNat : ℤ)
        (firstMax extents).mCharHeight.toNat) / 2 else 0, ?_, ?_, ?_⟩, fun tm_hour tm_min hh hm => ?_⟩
  · split <;> omega
  · intro hroom
    split <;> omega
  · intro s hs
    have hmax := hs.firstMax he
    refine ⟨hmax, fun txt dot hne htxt => ⟨?_, cells_apart (Int.natCast_nonneg _)
      (Int.natCast_nonneg _) _ _ _ _, fun hfour cell hcell => ?_⟩⟩
    · rw [← hmax]
      unfold onDraw
      rw [if_neg (fun hnil => hne (List.isEmpty_iff.mp hnil))]
      obtain ⟨hsized, hfits⟩ := getConnMax_spec (hs.sized he)
      exact draw_laid hsized hfits _ _ htxt dot
    · have hb := cells_bounds (Int.natCast_nonneg _) (Int.natCast_nonneg _) hcell
      have hwidth : (((splitTime txt).1.length : ℤ) + (splitTime txt).2.length) *
          (firstMax extents).mNumWidth.toNat ≤ 4 * (firstMax extents).mNumWidth.toNat :=
        Int.mul_le_mul_of_nonneg_right (by omega) (Int.natCast_nonneg _)
      omega
  · obtain ⟨hne, htxt, -, hfour⟩ := getTimeStr_spec hh hm
    exact ⟨hne, htxt, hfour⟩

/-- A font with a narrow colon and a lower dash. -/
def someExtents (ch : ℕ) : TextExtents :=
  if ch = 58 then ⟨1, -12, 3, 12⟩ else if ch = 45 then ⟨1, -8, 7, 2⟩
  else if ch = 32 then ⟨0, 0, 0, 0⟩ else ⟨1 / 2, -20, 9, 20⟩

/-- A time in a box of 100 to 40. -/
theorem text_in_cells_box :
    ∃ m left top, (8 : ℤ) ≤ left ∧
      ((m.mNumWidth.toNat : ℤ) * 4 + m.mCharWidth.toNat ≤ 100 - 8 - 8 →
        left + (m.mNumWidth.toNat * 4 + m.mCharWidth.toNat) ≤ 100 - 8) ∧
      ∀ s, Reached someExtents s → (getConnMax s).1 = m ∧
        ∀ dot, Laid someExtents m left top [49, 50, 58, 51, 52] dot
          (onDraw s ⟨100, 40, 8, 0, 8, 0, true, true⟩ [49, 50, 58, 51, 52] dot).2 := by
  have he : ∀ ch ∈ chars, Small (measure (someExtents ch)) := by decide +kernel
  obtain ⟨⟨m, left, top, hleft, hroom, hall⟩, -⟩ :=
    text_in_cells he ⟨100, 40, 8, 0, 8, 0, true, true⟩
  refine ⟨m, left, top, hleft, hroom, fun s hs => ⟨(hall s hs).1, fun dot => ?_⟩⟩
  exact ((hall s hs).2 [49, 50, 58, 51, 52] dot (by decide) (by decide)).1

end CdroidDemo.TimeText
