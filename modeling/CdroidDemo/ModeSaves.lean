import CdroidDemo.ModeRestart

/-!
# What a save leaves in the file

A change writes the file anew without a copy of the old one, and ignores the
results of the conversion and of the save. The old content survives when the
save stops before the removal; the new list is there when every step succeeds
and no string needs an escape.
-/

namespace CdroidDemo.ModeSaves

open LocalFiles JsonText JsonWriter JsonFunc ModeStore ModeEncoding ModeRestart

variable {j : JsonCpp}

/-! ## What can be promised -/

/-- The path names a document of the list. -/
def Decodes (j : JsonCpp) (node : Node) (l : List ModeData) : Prop :=
  ∃ content, node = .file content ∧ (convertStringToJson j content .null).1 = true ∧
    readModeDataList j (convertStringToJson j content .null).2 = some l

/-- After the change the path is as before or names a document of the new
list, and it is as before when one of the two results is false. -/
def Preserves (j : JsonCpp) (a : SaveAccess) (s : CConfMgr j) (c : Change) (node : Node) : Prop :=
  ∀ s' r, s.change a node c = some (s', r) →
    (r.node = node ∨ Decodes j r.node s'.modeDataList) ∧
      (r.converted = false ∨ r.saved = some false → r.node = node)

/-- Files with any contents, and other kinds of paths. -/
def SameKind : Node → Node → Prop
  | .file _, .file _ => True
  | n, n' => n = n'

/-- The save does not come to the removal of the old content, or it comes to
write, and what it writes is clean. -/
def SafeSave (a : SaveAccess) (clean : Prop) : Node → Prop
  | .file _ => a.statusOk = true → a.removeOk = true → a.openOk = true ∧ clean
  | .absent => a.statusOk = true → a.openOk = true → clean
  | .directory | .special _ => True

/-! ## One save -/

/-- The written document is the one of the list exactly when the strings are clean. -/
theorem written_decodes_iff (hs : j.Strict) (hi : j.Inverse) (l : List ModeData) :
    (convertStringToJson j (modeDataJsonArray l) .null).1 = true ∧
        Decodes j (.file (j.writeString (convertStringToJson j (modeDataJsonArray l) .null).2)) l ↔
      ∀ m ∈ l, CleanMode m := by
  rw [← encodesList_iff_clean hs]
  refine and_congr_right fun hc => ?_
  have hd := document_of_converted hs hc
  have hread := hi _ (denotes_canonical hd.1) hd.2 .null
  constructor
  · rintro ⟨content, he, -, hl⟩
    rw [← FileNode.file.inj he] at hl
    rw [convertStringToJson, hread] at hl
    exact hl
  · intro hl
    refine ⟨_, rfl, ?_, ?_⟩
    · rw [convertStringToJson, hread]
    · rw [convertStringToJson, hread]
      exact hl

/-- What a change preserves, read off the save of the changed list. -/
theorem preserves_saveModes {a : SaveAccess} {s : CConfMgr j} {c : Change} {l : List ModeData}
    (h : c.modes s.modeDataList = some l) (node : Node) :
    Preserves j a s c node ↔
      ((saveModes j a l node).node = node ∨ Decodes j (saveModes j a l node).node l) ∧
        ((saveModes j a l node).converted = false ∨ (saveModes j a l node).saved = some false →
          (saveModes j a l node).node = node) := by
  unfold Preserves
  rw [change_eq, h, Option.map_some]
  constructor
  · exact fun hp => hp _ _ rfl
  · intro hp s' r he
    cases he
    exact hp

/-- A save that leaves the path alone keeps every promise. -/
theorem preserves_same {a : SaveAccess} {s : CConfMgr j} {c : Change} {l : List ModeData}
    (h : c.modes s.modeDataList = some l) {node : Node} (hn : (saveModes j a l node).node = node) :
    Preserves j a s c node :=
  (preserves_saveModes h node).mpr ⟨Or.inl hn, fun _ => hn⟩

/-- The save of the list goes through and leaves the document of the root. -/
def Writes (j : JsonCpp) (a : SaveAccess) (l : List ModeData) (node : Node) : Prop :=
  saveLocalJson j a (convertStringToJson j (modeDataJsonArray l) .null).2 node =
    (some true, .file (j.writeString (convertStringToJson j (modeDataJsonArray l) .null).2))

/-- A save that writes clean strings keeps the promises. -/
theorem preserves_of_clean (hs : j.Strict) (hi : j.Inverse) {a : SaveAccess} {s : CConfMgr j}
    {c : Change} {l : List ModeData} (h : c.modes s.modeDataList = some l) {node : Node}
    (hw : Writes j a l node) (hl : ∀ m ∈ l, CleanMode m) : Preserves j a s c node := by
  obtain ⟨hc, hd⟩ := (written_decodes_iff hs hi l).mpr hl
  refine (preserves_saveModes h node).mpr ?_
  unfold Writes at hw
  simp only [saveModes, hw, hc]
  exact ⟨Or.inr hd, fun hor => by simp at hor⟩

/-- A save that writes something else than was there keeps them for clean strings only. -/
theorem clean_of_preserves (hs : j.Strict) (hi : j.Inverse) {a : SaveAccess} {s : CConfMgr j}
    {c : Change} {l : List ModeData} (h : c.modes s.modeDataList = some l) {node : Node}
    (hw : Writes j a l node)
    (hne : .file (j.writeString (convertStringToJson j (modeDataJsonArray l) .null).2) ≠ node)
    (hp : Preserves j a s c node) : ∀ m ∈ l, CleanMode m := by
  have hp' := (preserves_saveModes h node).mp hp
  unfold Writes at hw
  simp only [saveModes, hw] at hp'
  refine (written_decodes_iff hs hi l).mp ⟨?_, hp'.1.resolve_left hne⟩
  cases hc : (convertStringToJson j (modeDataJsonArray l) .null).1 with
  | true => rfl
  | false => exact absurd (hp'.2 (Or.inl hc)) hne

/-! ## Every kind of path -/

/-- Files: the content matters only in that it may differ from what is written. -/
theorem preserves_file (hs : j.Strict) (hi : j.Inverse) {a : SaveAccess} {s : CConfMgr j}
    {c : Change} {l : List ModeData} (h : c.modes s.modeDataList = some l) (old : List Char) :
    (∀ content, Preserves j a s c (.file content)) ↔
      SafeSave a (∀ m ∈ l, CleanMode m) (.file old) := by
  have hsave := fun content =>
    saveLocalJson_file a (convertStringToJson j (modeDataJsonArray l) .null).2 content
  unfold SafeSave
  cases hst : a.statusOk with
  | false =>
    refine ⟨fun _ hf => Bool.noConfusion hf, fun _ content => preserves_same h ?_⟩
    simp only [saveModes, hsave, hst, Bool.false_eq_true, false_and, if_false]
  | true =>
    cases hre : a.removeOk with
    | false =>
      refine ⟨fun _ _ hf => Bool.noConfusion hf, fun _ content => preserves_same h ?_⟩
      simp only [saveModes, hsave, hre, Bool.false_eq_true, and_false, if_false]
    | true =>
      cases hop : a.openOk with
      | false =>
        refine ⟨fun hp => ?_, fun hp => Bool.noConfusion (hp rfl rfl).1⟩
        have hnode := ((preserves_saveModes h (.file [])).mp (hp [])).1
        simp only [saveModes, hsave, hst, hre, hop, and_self, if_true, Bool.false_eq_true,
          if_false, reduceCtorEq, false_or] at hnode
        obtain ⟨content, he, -⟩ := hnode
        cases he
      | true =>
        have hw : ∀ content, Writes j a l (.file content) := fun content => by
          rw [Writes, hsave, if_pos ⟨hst, hre⟩, if_pos hop]
        refine ⟨fun hp _ _ => ⟨rfl, ?_⟩, fun hl content =>
          preserves_of_clean hs hi h (hw content) (hl rfl rfl).2⟩
        let text := j.writeString (convertStringToJson j (modeDataJsonArray l) .null).2
        refine clean_of_preserves hs hi h (hw ('x' :: text)) ?_ (hp ('x' :: text))
        exact fun he => List.cons_ne_self _ _ (FileNode.file.inj he).symm

/-- A change on a missing file preserves it exactly where the save is safe. -/
theorem preserves_absent (hs : j.Strict) (hi : j.Inverse) {a : SaveAccess} {s : CConfMgr j}
    {c : Change} {l : List ModeData} (h : c.modes s.modeDataList = some l) :
    Preserves j a s c .absent ↔ SafeSave a (∀ m ∈ l, CleanMode m) .absent := by
  have hsave := saveLocalJson_absent a (convertStringToJson j (modeDataJsonArray l) .null).2
  unfold SafeSave
  cases hst : a.statusOk with
  | false =>
    refine ⟨fun _ hf => Bool.noConfusion hf, fun _ => preserves_same h ?_⟩
    simp only [saveModes, hsave, hst, Bool.false_eq_true, if_false]
  | true =>
    cases hop : a.openOk with
    | false =>
      refine ⟨fun _ _ hf => Bool.noConfusion hf, fun _ => preserves_same h ?_⟩
      simp only [saveModes, hsave, hst, hop, Bool.false_eq_true, if_false, if_true]
    | true =>
      have hw : Writes j a l .absent := by rw [Writes, hsave, if_pos hst, if_pos hop]
      exact ⟨fun hp _ _ => clean_of_preserves hs hi h hw (fun he => by cases he) hp,
        fun hl => preserves_of_clean hs hi h hw (hl rfl rfl)⟩

/-- Whatever the file held, a change leaves the old content or a document of
the new list exactly when its save is safe for clean strings. -/
theorem preserves_iff (hs : j.Strict) (hi : j.Inverse) (a : SaveAccess) (s : CConfMgr j) (c : Change)
    {l : List ModeData} (h : c.modes s.modeDataList = some l) (node : Node) :
    (∀ node', SameKind node node' → Preserves j a s c node') ↔
      SafeSave a (∀ m ∈ c.kept s.modeDataList, CleanMode m) node := by
  rw [← forall_modes cleanMode_unplaced h]
  cases node with
  | absent =>
    rw [← preserves_absent hs hi h]
    exact ⟨fun hp => hp _ rfl, fun hp n' hn => hn ▸ hp⟩
  | file old =>
    rw [← preserves_file hs hi h old]
    refine ⟨fun hp content => hp _ trivial, fun hp n' hn => ?_⟩
    cases n' with
    | file content => exact hp content
    | _ => cases hn
  | directory =>
    refine ⟨fun _ => trivial, fun _ n' hn => ?_⟩
    obtain rfl : (.directory : Node) = n' := hn
    refine preserves_same h ?_
    simp only [saveModes, saveLocalJson_directory]
  | special input =>
    refine ⟨fun _ => trivial, fun _ n' hn => ?_⟩
    obtain rfl : (.special input : Node) = n' := hn
    refine preserves_same h ?_
    simp only [saveModes, saveLocalJson_special]

/-- A save that goes well preserves a file of plain modes. -/
theorem preserves_plainStore :
    Preserves lexemeJson okSave plainStore (.updateModeDataByPos plainMode (-1)) plainFile := by
  have h := preserves_iff lexemeJson_strict lexemeJson_inverse okSave plainStore
    (.updateModeDataByPos plainMode (-1)) rfl plainFile
  exact h.mpr (fun _ _ => ⟨rfl, by decide⟩) plainFile trivial

/-- A second mode, whose name stands in quotes. -/
def quotedList : List ModeData := [plainMode, { quotedMode with dataPos := 2 }]

/-- A save that cannot open the file loses it, and a name in quotes replaces
it by something else. -/
theorem not_preserves_plainStore :
    ¬ Preserves lexemeJson ⟨true, true, false⟩ plainStore (.deleteModeData 0) plainFile ∧
      ¬ Preserves lexemeJson okSave plainStore (.updateModeDataByPos quotedMode (-1)) plainFile := by
  refine ⟨fun h => ?_, fun h => ?_⟩
  · obtain ⟨hor, -⟩ := h _ _ rfl
    cases hor with
    | inl he => cases he
    | inr hd =>
      obtain ⟨content, he, -⟩ := hd
      cases he
  · have hw : Writes lexemeJson okSave quotedList plainFile := saveLocalJson_file okSave _ _
    have hne : lexemeJson.writeString
        (convertStringToJson lexemeJson (modeDataJsonArray quotedList) .null).2 ≠
          lexemeJson.writeString (modesValue [plainMode]) := by decide +kernel
    have hclean := clean_of_preserves lexemeJson_strict lexemeJson_inverse rfl hw
      (fun he => hne (FileNode.file.inj he)) h
    exact absurd hclean (by decide)

end CdroidDemo.ModeSaves
