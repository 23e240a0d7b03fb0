import Mathlib.Data.List.Basic
import CdroidDemo.JsonFunc

/-!
# The store of water modes

The list of modes, its JSON file, and the operations that change both. The
sort of the standard library is a parameter, as it may order equal positions
in any way. `none` stands for an exception or an index outside of the list.
-/

namespace CdroidDemo.ModeStore

open LocalFiles JsonText JsonFunc

/-! ## Modes -/

/-- `ModeData`. -/
structure ModeData where
  /-- Positions count from 1. -/
  dataPos : Int32
  /-- The volume of water. -/
  chuShuiLiang : Int32
  /-- Whether the mode can be deleted. -/
  canDelete : Int32
  /-- Whether it is built in. -/
  dataType : List Char
  /-- The name shown. -/
  modeName : List Char
  /-- The temperature, as a text. -/
  temperature : List Char
  /-- The picture shown. -/
  imageDir : List Char
  deriving DecidableEq

/-- `toString` of a mode: a JSON object whose values are all texts. -/
def ModeData.toString (m : ModeData) : List Char :=
  "\x7b\"dataPos\":\"".toList ++ stdToString m.dataPos ++
  "\",\"chuShuiLiang\":\"".toList ++ stdToString m.chuShuiLiang ++
  "\",\"canDelete\":\"".toList ++ stdToString m.canDelete ++
  "\",\"dataType\":\"".toList ++ m.dataType ++
  "\",\"imageDir\":\"".toList ++ m.imageDir ++
  "\",\"modeName\":\"".toList ++ m.modeName ++
  "\",\"temperature\":\"".toList ++ m.temperature ++ "\"\x7d".toList

/-- The mode that is read from an object. -/
def readModeData (j : JsonCpp) (jsonModeData : Json j.Number) : Option ModeData := do
  let dataPos ← getJsonInt j jsonModeData "dataPos".toList 0
  let dataType ← getJsonString jsonModeData "dataType".toList []
  let imageDir ← getJsonString jsonModeData "imageDir".toList []
  let modeName ← getJsonString jsonModeData "modeName".toList []
  let temperature ← getJsonString jsonModeData "temperature".toList []
  let chuShuiLiang ← getJsonInt j jsonModeData "chuShuiLiang".toList 0
  let canDelete ← getJsonInt j jsonModeData "canDelete".toList 0
  return { dataPos, chuShuiLiang, canDelete, dataType, modeName, temperature, imageDir }

/-- The modes of a document; other roots than arrays have none. -/
def readModeDataList (j : JsonCpp) : Json j.Number → Option (List ModeData)
  | .arr vs => vs.mapM (readModeData j)
  | _ => some []

/-- The text of a list of modes. -/
def modeDataJsonArray (modeDataList : List ModeData) : List Char :=
  '[' :: (List.intercalate [','] (modeDataList.map ModeData.toString) ++ [']'])

/-! ## Loading -/

/-- The modes of a new device. -/
def modeDataLocalJson : List Char :=
  ("[\x7b\"canDelete\":\"0\",\"chuShuiLiang\":\"350\",\"dataPos\":\"1\"," ++
  "\"dataType\":\"default\",\"imageDir\":\"@mipmap/pic_chushui_lengshui\"," ++
  "\"modeName\":\"冰水\",\"temperature\":\"5~12\"\x7d," ++
  "\x7b\"canDelete\":\"0\",\"chuShuiLiang\":\"350\",\"dataPos\":\"2\"," ++
  "\"dataType\":\"default\",\"imageDir\":\"@mipmap/pic_chushui_changwenshui\"," ++
  "\"modeName\":\"常温\",\"temperature\":\"实时\"\x7d," ++
  "\x7b\"canDelete\":\"0\",\"chuShuiLiang\":\"350\",\"dataPos\":\"3\"," ++
  "\"dataType\":\"default\",\"imageDir\":\"@mipmap/pic_chushui_feishui\"," ++
  "\"modeName\":\"沸水\",\"temperature\":\"98\"\x7d]").toList

/-- `CConfMgr`: the list of modes and the document it was read from. -/
structure CConfMgr (j : JsonCpp) where
  /-- The modes in order. -/
  modeDataList : List ModeData
  /-- The value parsed last. -/
  data : Json j.Number

/-- The object before `init`. -/
def CConfMgr.new (j : JsonCpp) : CConfMgr j := ⟨[], .null⟩

/-- What the steps of `init` on the path do, if they are taken. -/
structure InitAccess where
  /-- How the loading goes. -/
  load : LoadAccess
  /-- The stream that creates the file opens. -/
  createOk : Bool
  /-- How the save goes. -/
  save : SaveAccess

/-- `compareByPos`. -/
def compareByPos (a b : ModeData) : Bool := decide (a.dataPos < b.dataPos)

/-- What `std::sort` promises. -/
def Sorts (lt : ModeData → ModeData → Bool) (sort : List ModeData → List ModeData) : Prop :=
  ∀ l, (sort l).Perm l ∧ (sort l).Pairwise fun x y => lt y x = false

/-- The file of a new device. -/
def createDataFile (j : JsonCpp) (a : InitAccess) (data : Json j.Number) (node : Node) :
    Option Node :=
  match openOutput a.createOk node with
  | none => some node
  | some file =>
    match saveLocalJson j a.save data file with
    | (none, _) => none
    | (some _, file) => some file

/-- The document of the file, or the one of a new device, and what the path
names afterwards. -/
def loadData (j : JsonCpp) (a : InitAccess) (data : Json j.Number) (node : Node) :
    Option (Json j.Number × Node) :=
  (loadLocalJson j a.load node data).bind fun loaded =>
    if loaded.1 then some (loaded.2, node)
    else
      let created := (convertStringToJson j modeDataLocalJson loaded.2).2
      (createDataFile j a created node).map fun node => (created, node)

/-- The object and what the path names afterwards. -/
def CConfMgr.init (j : JsonCpp) (sort : List ModeData → List ModeData) (a : InitAccess)
    (s : CConfMgr j) (node : Node) : Option (CConfMgr j × Node) :=
  (loadData j a s.data node).bind fun loaded =>
    (readModeDataList j loaded.1).map fun modes =>
      ({ modeDataList := sort (s.modeDataList ++ modes), data := loaded.1 }, loaded.2)

/-! ## Changes -/

/-- The place of a position inside the list. -/
def index (modeDataList : List ModeData) (position : ℤ) : Option ℕ :=
  if 0 ≤ position ∧ position < modeDataList.length then some position.toNat else none

/-- The list after `updateModeDataByPos`. -/
def updatedModes (modeDataList : List ModeData) (modeData : ModeData) (position : ℤ) :
    Option (List ModeData) :=
  if position = -1 then
    some (modeDataList ++ [{ modeData with dataPos := Int32.ofNat (modeDataList.length + 1) }])
  else (index modeDataList position).map fun i => modeDataList.set i modeData

/-- Entries from `position` on move up by one. -/
def renumber (position : ℕ) (modeDataList : List ModeData) : List ModeData :=
  modeDataList.mapIdx fun i m => if position ≤ i then { m with dataPos := m.dataPos - 1 } else m

/-- The list after `deleteModeData`. -/
def deletedModes (modeDataList : List ModeData) (position : ℤ) : Option (List ModeData) :=
  (index modeDataList position).map fun i => renumber i (modeDataList.eraseIdx i)

/-- `std::swap` of two entries. -/
def swapModes (modeDataList : List ModeData) (i k : ℕ) : List ModeData :=
  match modeDataList[i]?, modeDataList[k]? with
  | some a, some b => (modeDataList.set i b).set k a
  | _, _ => modeDataList

/-- `std::swap` of the positions of two entries. -/
def swapDataPos (modeDataList : List ModeData) (i k : ℕ) : List ModeData :=
  match modeDataList[i]?, modeDataList[k]? with
  | some a, some b =>
    (modeDataList.set i { a with dataPos := b.dataPos }).set k { b with dataPos := a.dataPos }
  | _, _ => modeDataList

/-- The list after `movedMode`. -/
def movedModes (modeDataList : List ModeData) (fromPos toPos : ℤ) : Option (List ModeData) := do
  let i ← index modeDataList fromPos
  let k ← index modeDataList toPos
  return swapDataPos (swapModes modeDataList i k) i k

/-- What became of a save: the conversion, `saveLocalJson`, and what the path names. -/
structure Saved where
  /-- The text could be parsed. -/
  converted : Bool
  /-- What `saveLocalJson` returned, if it was called. -/
  saved : Option Bool
  /-- What the path names now. -/
  node : Node

/-- The end of every change: the list is converted and saved, whatever comes of it. -/
def saveModes (j : JsonCpp) (a : SaveAccess) (modeDataList : List ModeData) (node : Node) : Saved :=
  let (converted, root) := convertStringToJson j (modeDataJsonArray modeDataList) .null
  let (saved, node) := saveLocalJson j a root node
  { converted, saved, node }

variable {j : JsonCpp}

/-- `updateModeDataByPos`, with its save. -/
def CConfMgr.updateModeDataByPos (a : SaveAccess) (s : CConfMgr j) (modeData : ModeData)
    (position : ℤ) (node : Node) : Option (CConfMgr j × Saved) :=
  (updatedModes s.modeDataList modeData position).map fun l =>
    ({ s with modeDataList := l }, saveModes j a l node)

/-- `deleteModeData`, with its save. -/
def CConfMgr.deleteModeData (a : SaveAccess) (s : CConfMgr j) (position : ℤ) (node : Node) :
    Option (CConfMgr j × Saved) :=
  (deletedModes s.modeDataList position).map fun l =>
    ({ s with modeDataList := l }, saveModes j a l node)

/-- `movedMode`, with its save. -/
def CConfMgr.movedMode (a : SaveAccess) (s : CConfMgr j) (fromPos toPos : ℤ) (node : Node) :
    Option (CConfMgr j × Saved) :=
  (movedModes s.modeDataList fromPos toPos).map fun l =>
    ({ s with modeDataList := l }, saveModes j a l node)

/-- The changes of the list. -/
inductive Change
  /-- A mode is replaced, or added at the end. -/
  | updateModeDataByPos (modeData : ModeData) (position : ℤ)
  /-- A mode is deleted. -/
  | deleteModeData (position : ℤ)
  /-- A mode is exchanged with another. -/
  | movedMode (fromPos toPos : ℤ)

/-- One of the three changes. -/
def CConfMgr.change (a : SaveAccess) (s : CConfMgr j) (node : Node) :
    Change → Option (CConfMgr j × Saved)
  | .updateModeDataByPos modeData position => s.updateModeDataByPos a modeData position node
  | .deleteModeData position => s.deleteModeData a position node
  | .movedMode fromPos toPos => s.movedMode a fromPos toPos node

/-- The list after a change. -/
def Change.modes (modeDataList : List ModeData) : Change → Option (List ModeData)
  | .updateModeDataByPos modeData position => updatedModes modeDataList modeData position
  | .deleteModeData position => deletedModes modeDataList position
  | .movedMode fromPos toPos => movedModes modeDataList fromPos toPos

/-- Every change ends with a save of its list. -/
theorem change_eq (a : SaveAccess) (s : CConfMgr j) (node : Node) (c : Change) :
    s.change a node c = (c.modes s.modeDataList).map fun l =>
      ({ s with modeDataList := l }, saveModes j a l node) := by
  cases c <;> rfl

/-! ## What a change keeps -/

/-- A mode apart from its position. -/
def ModeData.unplaced (m : ModeData) : ModeData := { m with dataPos := 0 }

/-- The modes a change leaves in the list, with the positions they had. -/
def Change.kept (modeDataList : List ModeData) : Change → List ModeData
  | .updateModeDataByPos modeData position =>
    if position = -1 then modeDataList ++ [modeData] else modeDataList.set position.toNat modeData
  | .deleteModeData position => modeDataList.eraseIdx position.toNat
  | .movedMode _ _ => modeDataList

/-- A position is an index exactly when it lies inside the list. -/
theorem index_eq_some {l : List ModeData} {position : ℤ} {i : ℕ} :
    index l position = some i ↔ position = i ∧ i < l.length := by
  unfold index
  split
  · rw [Option.some_inj]
    omega
  · refine ⟨nofun, fun h => ?_⟩
    omega

/-- Renumbering changes positions only. -/
theorem renumber_unplaced (i : ℕ) (l : List ModeData) :
    (renumber i l).map ModeData.unplaced = l.map ModeData.unplaced := by
  unfold renumber
  refine List.ext_getElem (by simp) fun n h h' => ?_
  simp only [List.getElem_map, List.getElem_mapIdx]
  split <;> rfl

/-- Swapping two positions changes positions only. -/
theorem swapDataPos_unplaced (l : List ModeData) (i k : ℕ) :
    (swapDataPos l i k).map ModeData.unplaced = l.map ModeData.unplaced := by
  unfold swapDataPos
  split
  · rename_i a b ha hb
    have hset : ∀ n m, l[n]? = some m →
        (l.map ModeData.unplaced).set n m.unplaced = l.map ModeData.unplaced := by
      intro n m hm
      obtain ⟨h, rfl⟩ := List.getElem?_eq_some_iff.mp hm
      rw [← List.map_set, List.set_getElem_self]
    have ha' : ({ a with dataPos := b.dataPos } : ModeData).unplaced = a.unplaced := rfl
    have hb' : ({ b with dataPos := a.dataPos } : ModeData).unplaced = b.unplaced := rfl
    rw [List.map_set, List.map_set, ha', hb', hset i a ha, hset k b hb]
  · rfl

/-- Swapping two modes permutes the list. -/
theorem swapModes_perm {l : List ModeData} {i k : ℕ} (hi : i < l.length) (hk : k < l.length) :
    (swapModes l i k).Perm l := by
  unfold swapModes
  rw [List.getElem?_eq_getElem hi, List.getElem?_eq_getElem hk]
  exact List.set_set_perm hi hk

/-- Apart from positions and order, a change leaves the modes it keeps. -/
theorem modes_unplaced {c : Change} {l l' : List ModeData} (h : c.modes l = some l') :
    (l'.map ModeData.unplaced).Perm ((c.kept l).map ModeData.unplaced) := by
  cases c with
  | updateModeDataByPos modeData position =>
    simp only [Change.modes, updatedModes] at h
    simp only [Change.kept]
    split at h
    · rename_i hp
      cases h
      rw [if_pos hp, List.map_append, List.map_append]
      exact List.Perm.refl _
    · rename_i hp
      obtain ⟨i, hi, rfl⟩ := Option.map_eq_some_iff.mp h
      obtain ⟨rfl, -⟩ := index_eq_some.mp hi
      rw [if_neg hp]
      exact List.Perm.refl _
  | deleteModeData position =>
    obtain ⟨i, hi, rfl⟩ := Option.map_eq_some_iff.mp h
    obtain ⟨rfl, -⟩ := index_eq_some.mp hi
    rw [renumber_unplaced]
    exact List.Perm.refl _
  | movedMode fromPos toPos =>
    obtain ⟨i, hi, h⟩ := Option.bind_eq_some_iff.mp h
    obtain ⟨k, hk, h⟩ := Option.bind_eq_some_iff.mp h
    cases h
    rw [swapDataPos_unplaced]
    exact (swapModes_perm (index_eq_some.mp hi).2 (index_eq_some.mp hk).2).map _

/-- What holds of modes apart from their positions holds of the new list when
it holds of the modes kept. -/
theorem forall_modes {P : ModeData → Prop} (hP : ∀ m, P m ↔ P m.unplaced) {c : Change}
    {l l' : List ModeData} (h : c.modes l = some l') : (∀ m ∈ l', P m) ↔ ∀ m ∈ c.kept l, P m := by
  have hmap : ∀ l : List ModeData, (∀ m ∈ l, P m) ↔ ∀ m ∈ l.map ModeData.unplaced, P m := by
    intro l
    rw [List.forall_mem_map]
    exact forall₂_congr fun m _ => hP m
  rw [hmap l', hmap (c.kept l)]
  exact forall_congr' fun m => by rw [(modes_unplaced h).mem_iff]

end CdroidDemo.ModeStore
