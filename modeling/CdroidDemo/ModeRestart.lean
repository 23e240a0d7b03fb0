import CdroidDemo.ModeEncoding

/-!
# The list of modes after a restart

As long as every save succeeds, the positions of the modes are their places in
the list, and loading the file gives the same list again.
-/

namespace CdroidDemo.ModeRestart

open JsonText JsonWriter JsonPaste JsonFunc ModeStore ModeEncoding

variable {j : JsonCpp}

/-! ## Numbered lists -/

/-- Positions count the entries from 1. -/
def Numbered (l : List ModeData) : Prop := ∀ (i : ℕ) (m : ModeData), l[i]? = some m → m.dataPos.toInt = i + 1

/-- One less than a positive number does not wrap. -/
theorem toInt_sub_one {x : Int32} (h : 0 < x.toInt) : (x - 1).toInt = x.toInt - 1 := by
  have hone : (1 : Int32).toInt = 1 := rfl
  rw [Int32.toInt_sub_of_le x 1 (by decide) (Int32.le_iff_toInt_le.mpr (by omega)), hone]

/-- The modes are in order, and a position tells the mode. -/
theorem Numbered.sorted {l : List ModeData} (h : Numbered l) :
    l.Pairwise fun x y => compareByPos y x = false := by
  refine List.pairwise_iff_getElem.mpr fun i k hi hk hik => ?_
  have h₁ := h i l[i] (List.getElem?_eq_getElem hi)
  have h₂ := h k l[k] (List.getElem?_eq_getElem hk)
  have hn : ¬ l[k].dataPos < l[i].dataPos := by
    rw [Int32.lt_iff_toInt_lt]
    omega
  exact decide_eq_false hn

/-- A numbered list has every position once. -/
theorem Numbered.inj {l : List ModeData} (h : Numbered l) {x y : ModeData} (hx : x ∈ l) (hy : y ∈ l)
    (he : x.dataPos = y.dataPos) : x = y := by
  obtain ⟨i, hi⟩ := List.mem_iff_getElem?.mp hx
  obtain ⟨k, hk⟩ := List.mem_iff_getElem?.mp hy
  have h₁ := h i x hi
  have h₂ := h k y hk
  rw [he] at h₁
  have hik : i = k := by omega
  rw [hik, hk] at hi
  exact (Option.some.inj hi).symm

/-- A numbered list has no other order by positions. -/
theorem Numbered.sort_eq {sort : List ModeData → List ModeData} (hsort : Sorts compareByPos sort)
    {l : List ModeData} (h : Numbered l) : sort l = l := by
  obtain ⟨hp, hs⟩ := hsort l
  refine List.Perm.eq_of_pairwise ?_ hs h.sorted hp
  intro x y hx hy hxy hyx
  refine h.inj (hp.subset hx) hy ?_
  have h₁ : ¬ y.dataPos < x.dataPos := of_decide_eq_false hxy
  have h₂ : ¬ x.dataPos < y.dataPos := of_decide_eq_false hyx
  rw [Int32.lt_iff_toInt_lt] at h₁ h₂
  exact Int32.toInt_inj.mp (by omega)

/-- Positions that are 1 to `n` in some order are counted after the sort. -/
theorem numbered_of_perm {l : List ModeData} (hs : l.Pairwise fun x y => compareByPos y x = false)
    (hp : (l.map fun m => m.dataPos.toInt).Perm ((List.range l.length).map fun i : ℕ => (i : ℤ) + 1)) :
    Numbered l := by
  have hsorted : (l.map fun m => m.dataPos.toInt).Pairwise (· ≤ ·) := by
    refine List.pairwise_map.mpr (hs.imp fun {x y} h => ?_)
    have hn : ¬ y.dataPos < x.dataPos := of_decide_eq_false h
    rw [Int32.lt_iff_toInt_lt] at hn
    omega
  have hrange : ((List.range l.length).map fun i : ℕ => (i : ℤ) + 1).Pairwise (· ≤ ·) := by
    refine List.pairwise_map.mpr (List.pairwise_lt_range.imp fun {x y} h => ?_)
    omega
  have he := List.Perm.eq_of_pairwise (fun _ _ _ _ => Int.le_antisymm) hsorted hrange hp
  intro i m hm
  have hi : (l.map fun m => m.dataPos.toInt)[i]? = some m.dataPos.toInt := by
    rw [List.getElem?_map, hm]
    rfl
  obtain ⟨hlt, -⟩ := List.getElem?_eq_some_iff.mp hm
  rw [he, List.getElem?_map, List.getElem?_range hlt] at hi
  exact (Option.some.inj hi).symm

/-! ## One change -/

/-- A replaced mode keeps the position, an added one fits in, and the places
are inside the list; new strings need no escape. -/
def Careful (l : List ModeData) : Change → Prop
  | .updateModeDataByPos m position =>
    CleanMode m ∧ (position = -1 ∧ l.length + 1 < 2 ^ 31 ∨
      ∃ i old, index l position = some i ∧ l[i]? = some old ∧ m.dataPos = old.dataPos)
  | .deleteModeData position => ∃ i, index l position = some i
  | .movedMode fromPos toPos => (∃ i, index l fromPos = some i) ∧ ∃ k, index l toPos = some k

/-- Appending with the next position keeps the list numbered. -/
theorem numbered_add {l : List ModeData} (h : Numbered l) (m : ModeData)
    (hlen : l.length + 1 < 2 ^ 31) :
    Numbered (l ++ [{ m with dataPos := Int32.ofNat (l.length + 1) }]) := by
  intro i x hx
  rw [List.getElem?_append] at hx
  split at hx
  · exact h i x hx
  · rename_i hi
    obtain ⟨hlt, rfl⟩ := List.getElem?_eq_some_iff.mp hx
    have hlt' : i - l.length < 1 := hlt
    have hil : i = l.length := by omega
    subst hil
    simp only [Nat.sub_self, List.getElem_cons_zero]
    rw [Int32.toInt_ofNat_of_lt hlen]
    omega

/-- Replacing a mode by one of the same position keeps the list numbered. -/
theorem numbered_set {l : List ModeData} (h : Numbered l) {i : ℕ} {m old : ModeData}
    (hold : l[i]? = some old) (hm : m.dataPos = old.dataPos) : Numbered (l.set i m) := by
  intro n x hx
  rw [List.getElem?_set] at hx
  split at hx
  · rename_i hn
    split at hx
    · cases hx
      rw [hm, h i old hold, hn]
    · cases hx
  · exact h n x hx

/-- Deleting a mode and renumbering those behind keeps the list numbered. -/
theorem numbered_delete {l : List ModeData} (h : Numbered l) (i : ℕ) :
    Numbered (renumber i (l.eraseIdx i)) := by
  intro n x hx
  unfold renumber at hx
  rw [List.getElem?_mapIdx, List.getElem?_eraseIdx] at hx
  obtain ⟨y, hy, rfl⟩ := Option.map_eq_some_iff.mp hx
  by_cases hn : n < i
  · rw [if_pos hn] at hy
    rw [if_neg (by omega)]
    exact h n y hy
  · rw [if_neg hn] at hy
    have hpos := h (n + 1) y hy
    rw [if_pos (by omega)]
    have hsub : (y.dataPos - 1).toInt = y.dataPos.toInt - 1 := toInt_sub_one (by omega)
    simp only [hsub]
    omega

/-- Swapping the modes and then their positions leaves the positions in place. -/
theorem swap_dataPos {l : List ModeData} {i k : ℕ} (hi : i < l.length) (hk : k < l.length) :
    (swapDataPos (swapModes l i k) i k).map ModeData.dataPos = l.map ModeData.dataPos := by
  have hs : swapModes l i k = (l.set i l[k]).set k l[i] := by
    unfold swapModes
    rw [List.getElem?_eq_getElem hi, List.getElem?_eq_getElem hk]
  have hsk : (swapModes l i k)[k]? = some l[i] := by
    rw [hs, List.getElem?_set_self (by simpa using hk)]
  have hsi : (swapModes l i k)[i]? = some l[k] := by
    rw [hs, List.getElem?_set]
    split
    · rename_i he
      subst he
      rw [if_pos (by simpa using hk)]
    · rw [List.getElem?_set_self hi]
  unfold swapDataPos
  rw [hsi, hsk]
  simp only [hs, List.map_set]
  refine List.ext_getElem? fun n => ?_
  simp only [List.getElem?_set, List.length_set, List.length_map, List.getElem?_map]
  split
  · rename_i hn
    subst hn
    rw [List.getElem?_eq_getElem hk]
    rfl
  · split
    · rename_i hn
      subst hn
      rw [List.getElem?_eq_getElem hi]
      rfl
    · rfl

/-- Only the positions decide whether a list is numbered. -/
theorem numbered_of_dataPos {l l' : List ModeData} (h : Numbered l)
    (he : l'.map ModeData.dataPos = l.map ModeData.dataPos) : Numbered l' := by
  intro i m hm
  have hi : (l.map ModeData.dataPos)[i]? = some m.dataPos := by
    rw [← he, List.getElem?_map, hm]
    rfl
  rw [List.getElem?_map] at hi
  obtain ⟨x, hx, hd⟩ := Option.map_eq_some_iff.mp hi
  rw [← hd]
  exact h i x hx

/-- A careful change succeeds and keeps the numbering. -/
theorem careful_modes {l : List ModeData} {c : Change} (h : Numbered l) (hc : Careful l c) :
    ∃ l', c.modes l = some l' ∧ Numbered l' := by
  cases c with
  | updateModeDataByPos m position =>
    cases hc.2 with
    | inl hadd =>
      exact ⟨_, if_pos hadd.1, numbered_add h m hadd.2⟩
    | inr hset =>
      obtain ⟨i, old, hi, hold, hm⟩ := hset
      have hne : position ≠ -1 := by
        have hp := (index_eq_some.mp hi).1
        omega
      refine ⟨l.set i m, ?_, numbered_set h hold hm⟩
      simp only [Change.modes, updatedModes, if_neg hne, hi, Option.map_some]
  | deleteModeData position =>
    obtain ⟨i, hi⟩ := hc
    refine ⟨_, ?_, numbered_delete h i⟩
    simp only [Change.modes, deletedModes, hi, Option.map_some]
  | movedMode fromPos toPos =>
    obtain ⟨⟨i, hi⟩, k, hk⟩ := hc
    refine ⟨swapDataPos (swapModes l i k) i k, ?_, numbered_of_dataPos h
      (swap_dataPos (index_eq_some.mp hi).2 (index_eq_some.mp hk).2)⟩
    simp only [Change.modes, movedModes, hi, hk]
    rfl

/-- A careful change brings clean strings only. -/
theorem careful_clean {l l' : List ModeData} {c : Change} (h : ∀ m ∈ l, CleanMode m)
    (hc : Careful l c) (hl : c.modes l = some l') : ∀ m ∈ l', CleanMode m := by
  refine (forall_modes cleanMode_unplaced hl).mpr ?_
  cases c with
  | updateModeDataByPos m position =>
    intro x hx
    simp only [Change.kept] at hx
    split at hx
    · cases List.mem_append.mp hx with
      | inl hx => exact h x hx
      | inr hx => exact List.mem_singleton.mp hx ▸ hc.1
    · cases List.mem_or_eq_of_mem_set hx with
      | inl hx => exact h x hx
      | inr hx => exact hx ▸ hc.1
  | deleteModeData position => exact fun x hx => h x (List.mem_of_mem_eraseIdx hx)
  | movedMode fromPos toPos => exact h

/-! ## Runs -/

/-- The save came through, to a file. -/
def SavedFile (r : Saved) : Prop := r.saved = some true ∧ ∃ content, r.node = .file content

/-- The file can be read. -/
def Readable (a : LoadAccess) : Prop :=
  a.statusOk = true ∧ a.openOk = true ∧ a.badRead = none

/-- Careful changes whose saves come through. -/
inductive Run (j : JsonCpp) (s₀ : CConfMgr j) (n₀ : Node) : CConfMgr j → Node → Prop
  /-- Nothing has been changed. -/
  | start : Run j s₀ n₀ s₀ n₀
  /-- One more change, and its save. -/
  | change {s s' : CConfMgr j} {n : Node} {a : SaveAccess} {c : Change} {r : Saved}
      (h : Run j s₀ n₀ s n) (hc : Careful s.modeDataList c) (hs : s.change a n c = some (s', r))
      (hr : SavedFile r) : Run j s₀ n₀ s' r.node

/-- Numbered lists of clean modes. -/
def Tidy (l : List ModeData) : Prop := Numbered l ∧ ∀ m ∈ l, CleanMode m

/-- One careful change. -/
theorem Tidy.change {s : CConfMgr j} (h : Tidy s.modeDataList) {c : Change}
    (hc : Careful s.modeDataList c) (a : SaveAccess) (n : Node) :
    ∃ l', Tidy l' ∧ s.change a n c = some ({ s with modeDataList := l' }, saveModes j a l' n) := by
  obtain ⟨l', hl, hn⟩ := careful_modes h.1 hc
  exact ⟨l', ⟨hn, careful_clean h.2 hc hl⟩, by rw [change_eq, hl, Option.map_some]⟩

/-- A run keeps the list tidy. -/
theorem Tidy.run {s₀ s : CConfMgr j} {n₀ n : Node} (h : Tidy s₀.modeDataList)
    (hr : Run j s₀ n₀ s n) : Tidy s.modeDataList := by
  induction hr with
  | start => exact h
  | @change s s' n a c r _ hc hs _ ih =>
    obtain ⟨l', hl, he⟩ := ih.change hc a n
    rw [he] at hs
    cases hs
    exact hl

/-- A list that `init` made is in order. -/
theorem init_sorted {sort : List ModeData → List ModeData} (hsort : Sorts compareByPos sort)
    {b : InitAccess} {node : Node} {s₀ s : CConfMgr j} {n : Node}
    (h : CConfMgr.init j sort b s₀ node = some (s, n)) :
    s.modeDataList.Pairwise fun x y => compareByPos y x = false := by
  obtain ⟨loaded, -, h⟩ := Option.bind_eq_some_iff.mp h
  obtain ⟨modes, -, h⟩ := Option.map_eq_some_iff.mp h
  rw [← (Prod.mk.inj h).1]
  exact (hsort _).2

/-- A file with the document of a tidy list is loaded as the list. -/
theorem init_document (hs : j.Strict) (hi : j.Inverse) {sort : List ModeData → List ModeData}
    (hsort : Sorts compareByPos sort) {l : List ModeData} (hl : Tidy l) {b : InitAccess}
    (hb : Readable b.load) {node : Node} (hn : node = .file (j.writeString (modesValue l))) :
    CConfMgr.init j sort b (.new j) node =
      some ({ modeDataList := l, data := modesValue l }, node) := by
  have hdoc : Document j.decode (modeDataJsonArray l) (modesValue l) :=
    (hs _ .null _).mp (convert_modeDataJsonArray hs hl.2 .null)
  have hload : loadLocalJson j b.load node .null = some (true, modesValue l) := by
    rw [hn, loadLocalJson_file hb.1 hb.2.1 hb.2.2]
    exact congrArg some (hi _ (denotes_canonical hdoc.1) hdoc.2 .null)
  have hdata : loadData j b .null node = some (modesValue l, node) := by
    rw [loadData, hload]
    rfl
  simp only [CConfMgr.init, CConfMgr.new, hdata, Option.bind_some, readModeDataList_modesValue,
    Option.map_some, List.nil_append, hl.1.sort_eq hsort]

/-- A save of a tidy list leaves its document. -/
theorem saveModes_document (hs : j.Strict) {l : List ModeData} (hl : Tidy l) {a : SaveAccess}
    {n : Node} (hr : SavedFile (saveModes j a l n)) :
    (saveModes j a l n).node = .file (j.writeString (modesValue l)) := by
  have hconv := convert_modeDataJsonArray hs hl.2 .null
  obtain ⟨hsaved, content, hnode⟩ := hr
  have hsave : saveLocalJson j a (modesValue l) n = (some true, .file content) := by
    simp only [saveModes, hconv] at hsaved hnode
    exact Prod.ext hsaved hnode
  rw [hnode, saveLocalJson_written hsave]

/-- After every change the positions count the modes from 1, and a new `init`
on the saved file has the same list. -/
theorem restart_reproduces (hs : j.Strict) (hi : j.Inverse) {sort : List ModeData → List ModeData}
    (hsort : Sorts compareByPos sort) {b₀ : InitAccess} {node : Node} {s₀ : CConfMgr j} {n₀ : Node}
    (hinit : CConfMgr.init j sort b₀ (.new j) node = some (s₀, n₀))
    (hpos : (s₀.modeDataList.map fun m => m.dataPos.toInt).Perm
      ((List.range s₀.modeDataList.length).map fun i : ℕ => (i : ℤ) + 1))
    (hclean : ∀ m ∈ s₀.modeDataList, CleanMode m) {s : CConfMgr j} {n : Node}
    (hrun : Run j s₀ n₀ s n) {c : Change} (hc : Careful s.modeDataList c) (a : SaveAccess) :
    ∃ s' r, s.change a n c = some (s', r) ∧ Numbered s'.modeDataList ∧
      (SavedFile r → ∀ b : InitAccess, Readable b.load →
        ∃ s'', CConfMgr.init j sort b (.new j) r.node = some (s'', r.node) ∧
          s''.modeDataList = s'.modeDataList) := by
  have htidy : Tidy s₀.modeDataList := ⟨numbered_of_perm (init_sorted hsort hinit) hpos, hclean⟩
  obtain ⟨l', hl, he⟩ := (htidy.run hrun).change hc a n
  exact ⟨_, _, he, hl.1, fun hr b hb =>
    ⟨_, init_document hs hi hsort hl hb (saveModes_document hs hl hr), rfl⟩⟩

/-- A stable sort by positions. -/
def sortByPos (l : List ModeData) : List ModeData := l.mergeSort fun x y => !compareByPos y x

/-- The example sort sorts by position. -/
theorem sorts_sortByPos : Sorts compareByPos sortByPos := by
  intro l
  refine ⟨List.mergeSort_perm l _, (List.pairwise_mergeSort ?_ ?_ l).imp fun h => ?_⟩
  · intro x y z hxy hyz
    simp only [compareByPos, Bool.not_eq_true', decide_eq_false_iff_not, Int32.not_lt] at hxy hyz ⊢
    exact Int32.le_trans hxy hyz
  · intro x y
    simp only [compareByPos, Bool.or_eq_true, Bool.not_eq_true', decide_eq_false_iff_not,
      Int32.not_lt]
    exact Int32.le_total _ _
  · exact Bool.not_eq_true' _ |>.mp h

/-- Every step of a save succeeds. -/
def okSave : SaveAccess := ⟨true, true, true⟩

/-- Every step of `init` succeeds. -/
def okInit : InitAccess := ⟨⟨true, true, none⟩, true, okSave⟩

/-- A save that goes well leaves a saved file. -/
theorem savedFile_okSave (l : List ModeData) (content : List Char) :
    SavedFile (saveModes j okSave l (.file content)) := by
  have h := saveLocalJson_file okSave
    (convertStringToJson j (modeDataJsonArray l) .null).2 content
  exact ⟨congrArg Prod.fst h, _, congrArg Prod.snd h⟩

/-- A store of one mode, and its file. -/
def plainStore : CConfMgr lexemeJson := ⟨[plainMode], modesValue [plainMode]⟩

/-- The file of one mode. -/
def plainFile : Node := .file (lexemeJson.writeString (modesValue [plainMode]))

/-- The file of one mode is loaded, a copy is added, and the two change places. -/
theorem restart_reproduces_plainMode : ∃ (s : CConfMgr lexemeJson) (n : Node) (s' : CConfMgr lexemeJson)
    (r : Saved), s.modeDataList = [plainMode, { plainMode with dataPos := 2 }] ∧
      s.change okSave n (.movedMode 0 1) = some (s', r) ∧ Numbered s'.modeDataList ∧
      (SavedFile r → ∀ b : InitAccess, Readable b.load →
        ∃ s'', CConfMgr.init lexemeJson sortByPos b (.new lexemeJson) r.node = some (s'', r.node) ∧
          s''.modeDataList = s'.modeDataList) := by
  have htidy : Tidy [plainMode] := by
    refine ⟨fun i m hm => ?_, by decide⟩
    cases i with
    | zero =>
      cases hm
      rfl
    | succ i => cases hm
  have hinit : CConfMgr.init lexemeJson sortByPos okInit (.new lexemeJson) plainFile =
      some (plainStore, plainFile) :=
    init_document lexemeJson_strict lexemeJson_inverse sorts_sortByPos htidy ⟨rfl, rfl, rfl⟩ rfl
  have hadd : Careful plainStore.modeDataList (.updateModeDataByPos plainMode (-1)) := by
    have hlen : plainStore.modeDataList.length + 1 < 2 ^ 31 := by decide
    exact ⟨by decide, Or.inl ⟨rfl, hlen⟩⟩
  have hstart : Run lexemeJson plainStore plainFile plainStore plainFile := Run.start
  have hrun := hstart.change hadd (change_eq okSave _ _ _) (savedFile_okSave _ _)
  obtain ⟨s', r, h⟩ := restart_reproduces lexemeJson_strict lexemeJson_inverse sorts_sortByPos hinit
    (by decide) (by decide) hrun (c := .movedMode 0 1) ⟨⟨0, rfl⟩, ⟨1, rfl⟩⟩ okSave
  exact ⟨_, _, s', r, rfl, h⟩

end CdroidDemo.ModeRestart
