import CdroidDemo.ModeLoading
import CdroidDemo.StepRuns

/-!
# The store over restarts

Seen from outside, the store is a shelf: the list in use, and what is kept for
the next start. A save replaces what is kept, leaves it alone, or loses it; a
restart takes what is kept, or the modes of a new device. The store with its
texts and its file follows the shelf through any changes, whatever becomes of
their saves, and any restarts that come back.
-/

namespace CdroidDemo.StoreRestarts

open ChunkedReads LocalFiles StepRuns JsonText JsonPaste JsonWriter JsonFunc ModeStore
open ModeEncoding ModeRestart

/-! ## The shelf -/

/-- The modes of a new device. -/
def newDevice : List ModeData :=
  [⟨1, 350, 0, "default".toList, "冰水".toList, "5~12".toList,
      "@mipmap/pic_chushui_lengshui".toList⟩,
    ⟨2, 350, 0, "default".toList, "常温".toList, "实时".toList,
      "@mipmap/pic_chushui_changwenshui".toList⟩,
    ⟨3, 350, 0, "default".toList, "沸水".toList, "98".toList,
      "@mipmap/pic_chushui_feishui".toList⟩]

/-- What is kept for the next start. -/
inductive Kept
  /-- The path is free. -/
  | nothing
  /-- The path is taken by a directory. -/
  | directory
  /-- The path names a file of these modes. -/
  | modes (l : List ModeData)

/-- A save removes what is kept before it writes. -/
def Kept.save (a : SaveAccess) (l : List ModeData) : Kept → Kept
  | .directory => .directory
  | .nothing => if a.statusOk ∧ a.openOk then .modes l else .nothing
  | .modes old =>
    if a.statusOk ∧ a.removeOk then if a.openOk then .modes l else .nothing else .modes old

/-- What a start leaves that found no modes. -/
def Kept.create (a : InitAccess) : Kept → Kept
  | .directory => .directory
  | .nothing =>
    if a.createOk then if a.save.openOk then .modes newDevice else .nothing else .nothing
  | .modes old =>
    if a.createOk then if a.save.openOk then .modes newDevice else .nothing else .modes old

/-- The list in use, and what is kept. -/
structure Shelf where
  /-- The modes that are in use. -/
  inUse : List ModeData
  /-- What the path names. -/
  kept : Kept

/-- Modes are found when they are kept and can be read. -/
def Kept.restart (a : InitAccess) (k : Kept) : Shelf :=
  match k with
  | .modes l => if a.load.openOk then ⟨l, .modes l⟩ else ⟨newDevice, Kept.create a (.modes l)⟩
  | k => ⟨newDevice, k.create a⟩

/-- What happens to a store. -/
inductive Happening
  /-- A change, and what the steps of its save do. -/
  | change (c : Change) (a : SaveAccess)
  /-- The program starts again. -/
  | restart (a : InitAccess)

/-- What happens on the shelf. -/
def Shelf.step (s : Shelf) : Happening → Option Shelf
  | .change c a => (c.modes s.inUse).map fun l => ⟨l, s.kept.save a l⟩
  | .restart a => some (s.kept.restart a)

/-- Changes are made with care. -/
def CarefulHappening (s : Shelf) : Happening → Prop
  | .change c _ => Careful s.inUse c
  | .restart _ => True

/-! ## The store with its file -/

variable {j : JsonCpp}

/-- What happens to the store and its file. -/
def storeStep (sort : List ModeData → List ModeData) (s : CConfMgr j × Node) :
    Happening → Option (CConfMgr j × Node)
  | .change c a => (s.1.change a s.2 c).map fun r => (r.1, r.2.node)
  | .restart a => CConfMgr.init j sort a (.new j) s.2

/-- The path names what is kept. -/
def Names (j : JsonCpp) : Node → Kept → Prop
  | n, .nothing => n = .absent
  | n, .directory => n = .directory
  | n, .modes l => n = .file (j.writeString (modesValue l)) ∧ Tidy l

/-- The store follows the shelf. -/
structure Follows (s : CConfMgr j × Node) (t : Shelf) : Prop where
  /-- The modes in use are those of the shelf. -/
  inUse : s.1.modeDataList = t.inUse
  /-- They are tidy. -/
  tidy : Tidy t.inUse
  /-- The path names what the shelf keeps. -/
  kept : Names j s.2 t.kept

/-! ## Saving -/

/-- A save of a tidy list does to the path what it does to the shelf. -/
theorem names_save (hs : j.Strict) {l : List ModeData} (hl : Tidy l) (a : SaveAccess) {n : Node}
    {k : Kept} (hk : Names j n k) : Names j (saveModes j a l n).node (k.save a l) := by
  have hnode : (saveModes j a l n).node = (saveLocalJson j a (modesValue l) n).2 := by
    simp only [saveModes, convert_modeDataJsonArray hs hl.2 .null]
  rw [hnode]
  cases k with
  | nothing =>
    obtain rfl : n = .absent := hk
    rw [saveLocalJson_absent, Kept.save]
    cases a.statusOk <;> cases a.openOk
    · exact rfl
    · exact rfl
    · exact rfl
    · exact ⟨rfl, hl⟩
  | directory =>
    obtain rfl : n = .directory := hk
    rw [saveLocalJson_directory]
    exact rfl
  | modes old =>
    obtain ⟨rfl, hold⟩ := hk
    rw [saveLocalJson_file, Kept.save]
    by_cases hgo : a.statusOk = true ∧ a.removeOk = true
    · rw [if_pos hgo, if_pos hgo]
      cases a.openOk
      · exact rfl
      · exact ⟨rfl, hl⟩
    · rw [if_neg hgo, if_neg hgo]
      exact ⟨rfl, hold⟩

/-! ## The document of a new device -/

/-- The modes of a new device are tidy. -/
theorem newDevice_tidy : Tidy newDevice := by
  refine ⟨?_, by decide⟩
  intro i m hm
  match i with
  | 0 => cases hm; rfl
  | 1 => cases hm; rfl
  | 2 => cases hm; rfl
  | i + 3 => cases hm

/-- The value of a new device is that of the built-in modes. -/
theorem newDevice_value {ν : Type} :
    (.arr (ModeLoading.builtinModes.map objectValue) : Json ν) = modesValue newDevice := rfl

/-- The text of a new device is the document of its modes. -/
theorem convert_modeDataLocalJson (hs : j.Strict) (root : Json j.Number) :
    convertStringToJson j modeDataLocalJson root = (true, modesValue newDevice) := by
  refine (hs _ _ _).mpr ?_
  rw [ModeLoading.modeDataLocalJson_eq, ← newDevice_value]
  exact document_pasteArray ModeLoading.builtinModes_clean

/-- Creating a file that can be opened is a save to an empty one. -/
theorem saved_of_createDataFile {a : InitAccess} {n n' : Node}
    (hn : openOutput a.createOk n = some (.file []))
    (h : createDataFile j a (modesValue newDevice) n = some n') :
    ∃ status, saveLocalJson j a.save (modesValue newDevice) (.file []) = (some status, n') := by
  unfold createDataFile at h
  rw [hn] at h
  cases hsave : saveLocalJson j a.save (modesValue newDevice) (.file []) with
  | mk status file =>
    dsimp only at h
    rw [hsave] at h
    cases status with
    | none => cases h
    | some status =>
      cases h
      exact ⟨status, rfl⟩

/-- The first document of a file. -/
theorem names_first {a : SaveAccess} {n' : Node} {status : Bool}
    (h : saveLocalJson j a (modesValue newDevice) (.file []) = (some status, n')) :
    Names j n' (if a.openOk then .modes newDevice else .nothing) := by
  rw [saveLocalJson_file] at h
  by_cases hgo : a.statusOk = true ∧ a.removeOk = true
  · rw [if_pos hgo] at h
    cases ho : a.openOk with
    | true =>
      rw [ho, if_pos rfl] at h
      cases h
      exact ⟨rfl, newDevice_tidy⟩
    | false =>
      rw [ho, if_neg Bool.false_ne_true] at h
      cases h
      exact rfl
  · rw [if_neg hgo] at h
    cases h

/-- Creating the file does to the path what it does to the shelf. -/
theorem names_create {a : InitAccess} {n n' : Node} {k : Kept} (hk : Names j n k)
    (h : createDataFile j a (modesValue newDevice) n = some n') : Names j n' (k.create a) := by
  cases k with
  | nothing =>
    obtain rfl : n = .absent := hk
    rw [Kept.create]
    cases hc : a.createOk with
    | true =>
      obtain ⟨status, hsave⟩ := saved_of_createDataFile (by rw [hc]; rfl) h
      exact names_first hsave
    | false =>
      unfold createDataFile openOutput at h
      rw [hc] at h
      cases h
      exact rfl
  | directory =>
    obtain rfl : n = .directory := hk
    cases h
    exact rfl
  | modes old =>
    obtain ⟨rfl, hold⟩ := hk
    rw [Kept.create]
    cases hc : a.createOk with
    | true =>
      obtain ⟨status, hsave⟩ := saved_of_createDataFile (by rw [hc]; rfl) h
      exact names_first hsave
    | false =>
      unfold createDataFile openOutput at h
      rw [hc] at h
      cases h
      exact ⟨rfl, hold⟩

/-! ## Loading -/

/-- The status of a path was found by a load that came back. -/
theorem loadLocalJson_status {a : LoadAccess} {n : Node} {root : Json j.Number}
    {r : Bool × Json j.Number} (h : loadLocalJson j a n root = some r) : a.statusOk = true := by
  unfold loadLocalJson at h
  split at h
  · assumption
  · cases h

/-- A load that comes back has found the document, or has nothing to go by. -/
theorem loadLocalJson_names (hs : j.Strict) (hi : j.Inverse) {a : LoadAccess} {n : Node}
    {k : Kept} (hk : Names j n k) {root : Json j.Number} {r : Bool × Json j.Number}
    (h : loadLocalJson j a n root = some r) :
    (∃ l, k = .modes l ∧ a.openOk = true ∧ r = (true, modesValue l)) ∨
      ((∀ l, k = .modes l → a.openOk = false) ∧ r = (false, root)) := by
  have hst := loadLocalJson_status h
  unfold loadLocalJson at h
  rw [if_pos hst] at h
  cases k with
  | nothing =>
    obtain rfl : n = .absent := hk
    cases h
    exact Or.inr ⟨nofun, rfl⟩
  | directory =>
    obtain rfl : n = .directory := hk
    cases h
    exact Or.inr ⟨nofun, rfl⟩
  | modes l =>
    obtain ⟨rfl, hl⟩ := hk
    cases ho : a.openOk with
    | false =>
      rw [ho] at h
      cases h
      exact Or.inr ⟨fun _ _ => rfl, rfl⟩
    | true =>
      rw [ho] at h
      obtain ⟨content, hread, rfl⟩ := Option.map_eq_some_iff.mp h
      have hdoc := (hs _ .null _).mp (convert_modeDataJsonArray hs hl.2 .null)
      have hwhole : content = j.writeString (modesValue l) := eq_of_readAll (by decide) hread
      refine Or.inl ⟨l, rfl, rfl, ?_⟩
      rw [hwhole]
      exact hi _ (denotes_canonical hdoc.1) hdoc.2 root

/-- A tidy document is loaded as its list. -/
theorem init_of_loadData {sort : List ModeData → List ModeData} (hsort : Sorts compareByPos sort)
    {a : InitAccess} {n n' : Node} {l : List ModeData} (hl : Tidy l)
    (h : loadData j a .null n = some (modesValue l, n')) :
    CConfMgr.init j sort a (.new j) n = some (⟨l, modesValue l⟩, n') := by
  simp only [CConfMgr.init, CConfMgr.new, h, Option.bind_some, readModeDataList_modesValue,
    Option.map_some, List.nil_append, hl.1.sort_eq hsort]

/-- A start that comes back leaves what the shelf says. -/
theorem follows_restart (hs : j.Strict) (hi : j.Inverse) {sort : List ModeData → List ModeData}
    (hsort : Sorts compareByPos sort) {a : InitAccess} {n : Node} {k : Kept} (hk : Names j n k)
    {r : CConfMgr j × Node} (h : CConfMgr.init j sort a (.new j) n = some r) :
    Follows r (k.restart a) := by
  obtain ⟨loaded, hload, -⟩ := Option.bind_eq_some_iff.mp h
  obtain ⟨q, hq, hcreate⟩ := Option.bind_eq_some_iff.mp hload
  rcases loadLocalJson_names hs hi hk hq with ⟨l, rfl, hopen, rfl⟩ | ⟨hclosed, rfl⟩
  · rw [if_pos rfl] at hcreate
    cases hcreate
    rw [init_of_loadData hsort hk.2 hload] at h
    cases h
    rw [Kept.restart, if_pos hopen]
    exact ⟨rfl, hk.2, hk⟩
  · rw [if_neg Bool.false_ne_true, convert_modeDataLocalJson hs] at hcreate
    obtain ⟨n', hn', rfl⟩ := Option.map_eq_some_iff.mp hcreate
    rw [init_of_loadData hsort newDevice_tidy hload] at h
    cases h
    have hshelf : k.restart a = ⟨newDevice, k.create a⟩ := by
      cases k with
      | modes l => rw [Kept.restart, hclosed l rfl, if_neg Bool.false_ne_true]
      | nothing => rfl
      | directory => rfl
    rw [hshelf]
    exact ⟨rfl, newDevice_tidy, names_create hk hn'⟩

/-! ## Runs -/

/-- A careful change always comes back. -/
theorem follows_change (hs : j.Strict) {sort : List ModeData → List ModeData}
    {s : CConfMgr j × Node} {t : Shelf} (h : Follows s t) {c : Change} (hc : Careful t.inUse c)
    (a : SaveAccess) :
    ∃ s' t', storeStep sort s (.change c a) = some s' ∧ t.step (.change c a) = some t' ∧
      Follows s' t' := by
  have htidy : Tidy s.1.modeDataList := h.inUse ▸ h.tidy
  obtain ⟨l, hl, hchange⟩ := htidy.change (h.inUse ▸ hc) a s.2
  have hmodes : c.modes t.inUse = some l := by
    have he := change_eq a s.1 s.2 c
    rw [hchange, h.inUse] at he
    obtain ⟨l', hl', he⟩ := Option.map_eq_some_iff.mp he.symm
    cases he
    exact hl'
  refine ⟨_, _, by rw [storeStep, hchange]; rfl, by rw [Shelf.step, hmodes]; rfl, rfl, hl, ?_⟩
  exact names_save hs hl a h.kept

/-- One happening. -/
theorem follows_step (hs : j.Strict) (hi : j.Inverse) {sort : List ModeData → List ModeData}
    (hsort : Sorts compareByPos sort) {s s' : CConfMgr j × Node} {t : Shelf} {x : Happening}
    (h : Follows s t) (hx : CarefulHappening t x) (hstep : storeStep sort s x = some s') :
    ∃ t', t.step x = some t' ∧ Follows s' t' := by
  cases x with
  | change c a =>
    obtain ⟨s₁, t', hs₁, ht', hf⟩ := follows_change hs h hx a
    rw [hs₁] at hstep
    cases hstep
    exact ⟨t', ht', hf⟩
  | restart a => exact ⟨_, rfl, follows_restart hs hi hsort h.kept hstep⟩

/-- Through any careful changes with any saves, and any restarts that come
back, the store has in use and in its file what the shelf says. -/
theorem store_follows_shelf (hs : j.Strict) (hi : j.Inverse)
    {sort : List ModeData → List ModeData} (hsort : Sorts compareByPos sort)
    {s s' : CConfMgr j × Node} {t : Shelf} (h : Follows s t) {xs : List Happening}
    (hx : Allowed Shelf.step CarefulHappening t xs) (hrun : run (storeStep sort) s xs = some s') :
    ∃ t', run Shelf.step t xs = some t' ∧ Follows s' t' :=
  run_simulates (fun _ _ _ _ => follows_step hs hi hsort) h hx hrun

/-- A mode is added; the save of the next change loses the file. -/
def lostSave : List Happening :=
  [.change (.updateModeDataByPos plainMode (-1)) okSave,
    .change (.deleteModeData 0) ⟨true, true, false⟩, .restart okInit]

/-- A plain mode alone is tidy. -/
theorem plainMode_tidy : Tidy [plainMode] := by
  refine ⟨fun i m hm => ?_, by decide⟩
  cases i with
  | zero =>
    cases hm
    rfl
  | succ i => cases hm

/-- The program starts again without a file. -/
theorem init_absent : CConfMgr.init lexemeJson sortByPos okInit (.new lexemeJson) .absent =
    some (⟨newDevice, modesValue newDevice⟩,
      .file (lexemeJson.writeString (modesValue newDevice))) := by
  have hcreate : createDataFile lexemeJson okInit (modesValue newDevice) .absent =
      some (.file (lexemeJson.writeString (modesValue newDevice))) := by
    have hopen : openOutput okInit.createOk (.absent : Node) = some (.file []) := rfl
    rw [createDataFile, hopen]
    dsimp only
    rw [saveLocalJson_file]
    rfl
  refine init_of_loadData sorts_sortByPos newDevice_tidy ?_
  have hload : loadLocalJson lexemeJson okInit.load .absent .null = some (false, .null) := rfl
  rw [loadData, hload]
  simp only [Option.bind_some, Bool.false_eq_true, if_false,
    convert_modeDataLocalJson lexemeJson_strict, hcreate, Option.map_some]

/-- After the lost save the modes of a new device are in use. -/
theorem store_follows_shelf_lostSave :
    ∃ s' t', run (storeStep sortByPos) (plainStore, plainFile) lostSave = some s' ∧
      run Shelf.step ⟨[plainMode], .modes [plainMode]⟩ lostSave = some t' ∧ Follows s' t' ∧
      t' = ⟨newDevice, .modes newDevice⟩ := by
  have hstart : Follows (plainStore, plainFile) ⟨[plainMode], .modes [plainMode]⟩ :=
    ⟨rfl, plainMode_tidy, rfl, plainMode_tidy⟩
  have hadd : Careful [plainMode] (.updateModeDataByPos plainMode (-1)) := by
    have hlen : [plainMode].length + 1 < 2 ^ 31 := by decide
    exact ⟨by decide, Or.inl ⟨rfl, hlen⟩⟩
  have hallowed : Allowed Shelf.step CarefulHappening ⟨[plainMode], .modes [plainMode]⟩
      lostSave := by
    refine ⟨hadd, fun s' h => ?_⟩
    cases h
    refine ⟨⟨0, rfl⟩, fun s' h => ?_⟩
    cases h
    exact ⟨trivial, fun _ _ => trivial⟩
  obtain ⟨s₁, t₁, hs₁, ht₁, h₁⟩ :=
    follows_change lexemeJson_strict hstart hadd okSave
  cases ht₁
  obtain ⟨s₂, t₂, hs₂, ht₂, h₂⟩ :=
    follows_change lexemeJson_strict (c := .deleteModeData 0) h₁ ⟨0, rfl⟩
      ⟨true, true, false⟩
  cases ht₂
  have hn : s₂.2 = .absent := h₂.kept
  have hs₃ : storeStep sortByPos s₂ (.restart okInit) = some (⟨newDevice, modesValue newDevice⟩,
      .file (lexemeJson.writeString (modesValue newDevice))) := by
    rw [storeStep, hn]
    exact init_absent
  obtain ⟨s', hrun⟩ :
      ∃ s', run (storeStep sortByPos) (plainStore, plainFile) lostSave = some s' :=
    ⟨_, (run_cons hs₁).trans ((run_cons hs₂).trans (run_cons hs₃))⟩
  obtain ⟨t', ht, hf⟩ := store_follows_shelf lexemeJson_strict lexemeJson_inverse sorts_sortByPos
    hstart hallowed hrun
  refine ⟨s', t', hrun, ht, hf, ?_⟩
  cases ht
  rfl

end CdroidDemo.StoreRestarts
