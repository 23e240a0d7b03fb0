import CdroidDemo.JsonPaste
import CdroidDemo.ModeStore

/-!
# Texts of modes

The text of a mode is read back as the mode exactly when none of its strings
needs an escape, and the same goes for the text of a list of modes.
-/

namespace CdroidDemo.ModeEncoding

open OrderedMap JsonText JsonWeight JsonPaste JsonFunc ModeStore

variable {j : JsonCpp}

/-! ## The text as an object of fields -/

/-- The members of the text, in its order. -/
def fields (m : ModeData) : List Field :=
  [("dataPos".toList, stdToString m.dataPos), ("chuShuiLiang".toList, stdToString m.chuShuiLiang),
    ("canDelete".toList, stdToString m.canDelete), ("dataType".toList, m.dataType),
    ("imageDir".toList, m.imageDir), ("modeName".toList, m.modeName),
    ("temperature".toList, m.temperature)]

/-- `toString` pastes the object of the seven fields. -/
theorem toString_eq (m : ModeData) : m.toString = pasteObject (fields m) := by
  unfold ModeData.toString
  simp only [pasteObject, fields, pasteMember, List.map_cons, List.map_nil, commas_cons,
    commas_singleton, String.reduceToList]
  simp only [List.append_assoc, List.cons_append, List.nil_append]

/-- `modeDataJsonArray` pastes the array of the modes' objects. -/
theorem modeDataJsonArray_eq (l : List ModeData) :
    modeDataJsonArray l = pasteArray (l.map fields) := by
  unfold modeDataJsonArray pasteArray commas
  rw [List.map_map, List.map_congr_left fun m _ => toString_eq m]
  rfl

/-! ## Reading the members -/

/-- The seven field names are distinct. -/
theorem fields_nodup (m : ModeData) : ((fields m).map Prod.fst).Nodup := by
  have h : ["dataPos".toList, "chuShuiLiang".toList, "canDelete".toList, "dataType".toList,
      "imageDir".toList, "modeName".toList, "temperature".toList].Nodup := by decide
  exact h

/-- A member of the text is found under its name. -/
theorem member_objectValue {ν : Type} {m : ModeData} {f : Field} (hf : f ∈ fields m) :
    member (objectValue (fields m) : Json ν) f.1 = some (some (.str f.2)) :=
  congrArg some (findEntry_collect_field (fields_nodup m) hf)

/-- The object of the members is read as the mode, whatever its strings are. -/
theorem readModeData_objectValue (j : JsonCpp) (m : ModeData) :
    readModeData j (objectValue (fields m)) = some m := by
  have hi : ∀ (k : List Char) (x : Int32), (k, stdToString x) ∈ fields m →
      getJsonInt j (objectValue (fields m)) k 0 = some x := by
    intro k x hf
    rw [getJsonInt, member_objectValue hf]
    exact congrArg some (ofInt_atoll_stdToString x)
  have hs : ∀ k s : List Char, (k, s) ∈ fields m →
      getJsonString (objectValue (fields m) : Json j.Number) k [] = some s := by
    intro k s hf
    rw [getJsonString, member_objectValue hf]
    rfl
  unfold readModeData
  rw [hi _ m.dataPos (by simp [fields]), hi _ m.chuShuiLiang (by simp [fields]),
    hi _ m.canDelete (by simp [fields]), hs _ m.dataType (by simp [fields]),
    hs _ m.imageDir (by simp [fields]), hs _ m.modeName (by simp [fields]),
    hs _ m.temperature (by simp [fields])]
  rfl

/-- The elements of an array, each read as its mode. -/
theorem mapM_readModeData {vs : List (Json j.Number)} {l : List ModeData}
    (h : vs.mapM (readModeData j) = some l) :
    List.Forall₂ (fun v m => readModeData j v = some m) vs l := by
  induction vs generalizing l with
  | nil =>
    cases h
    exact List.Forall₂.nil
  | cons v vs ih =>
    rw [List.mapM_cons] at h
    obtain ⟨m, hm, h⟩ := Option.bind_eq_some_iff.mp h
    obtain ⟨l', hl, h⟩ := Option.bind_eq_some_iff.mp h
    cases h
    exact List.Forall₂.cons hm (ih hl)

/-- The document of a list of modes. -/
def modesValue {ν : Type} (l : List ModeData) : Json ν := .arr ((l.map fields).map objectValue)

/-- Reading the value of a list of modes gives the list back. -/
theorem readModeDataList_modesValue (j : JsonCpp) (l : List ModeData) :
    readModeDataList j (modesValue l) = some l := by
  unfold readModeDataList modesValue
  induction l with
  | nil => rfl
  | cons m l ih =>
    simp only [List.map_cons, List.mapM_cons, readModeData_objectValue] at ih ⊢
    rw [ih]
    rfl

/-! ## The strings of a mode -/

/-- No string of the mode needs an escape. -/
def CleanMode (m : ModeData) : Prop :=
  Clean m.dataType ∧ Clean m.imageDir ∧ Clean m.modeName ∧ Clean m.temperature

instance decidableCleanMode (m : ModeData) : Decidable (CleanMode m) := by
  unfold CleanMode
  infer_instance

/-- The members that hold numbers. -/
def numberNames : List (List Char) :=
  ["dataPos".toList, "chuShuiLiang".toList, "canDelete".toList]

/-- The members that hold strings. -/
def stringNames : List (List Char) :=
  ["dataType".toList, "imageDir".toList, "modeName".toList, "temperature".toList]

/-- A mode's fields can be pasted exactly when its strings are clean. -/
theorem cleanField_fields {m : ModeData} : (∀ f ∈ fields m, CleanField f) ↔ CleanMode m := by
  have hk : ∀ f ∈ fields m, Clean f.1 := by
    have h : ∀ k ∈ ["dataPos".toList, "chuShuiLiang".toList, "canDelete".toList,
        "dataType".toList, "imageDir".toList, "modeName".toList, "temperature".toList], Clean k := by
      decide
    exact fun f hf => h f.1 (List.mem_map_of_mem hf)
  constructor
  · intro h
    exact ⟨(h ("dataType".toList, m.dataType) (by simp [fields])).2,
      (h ("imageDir".toList, m.imageDir) (by simp [fields])).2,
      (h ("modeName".toList, m.modeName) (by simp [fields])).2,
      (h ("temperature".toList, m.temperature) (by simp [fields])).2⟩
  · intro ⟨hd, hi, hn, ht⟩ f hf
    refine ⟨hk f hf, ?_⟩
    simp only [fields, List.mem_cons, List.not_mem_nil, or_false] at hf
    rcases hf with rfl | rfl | rfl | rfl | rfl | rfl | rfl
    · exact clean_stdToString _
    · exact clean_stdToString _
    · exact clean_stdToString _
    · exact hd
    · exact hi
    · exact hn
    · exact ht

/-- Every field of a mode is a string or one of the number fields. -/
theorem weighable_fields (m : ModeData) : ∀ f ∈ fields m, Weighable numberNames f := by
  have hf : ∀ k ∈ numberNames ++ stringNames, Clean k ∧ Foreign k := by
    decide
  have hn : ∀ k ∈ stringNames, k ∉ numberNames := by decide
  have hnumber : ∀ k ∈ numberNames, ∀ x, Weighable numberNames (k, stdToString x) := by
    intro k hk x
    have h := hf k (List.mem_append_left _ hk)
    exact ⟨h.1, h.2, fun _ => clean_stdToString x⟩
  have hstring : ∀ k ∈ stringNames, ∀ s, Weighable numberNames (k, s) := by
    intro k hk s
    have h := hf k (List.mem_append_right _ hk)
    exact ⟨h.1, h.2, fun h => absurd h (hn k hk)⟩
  intro f hm
  simp only [fields, List.mem_cons, List.not_mem_nil, or_false] at hm
  rcases hm with rfl | rfl | rfl | rfl | rfl | rfl | rfl
  · exact hnumber _ (by decide) _
  · exact hnumber _ (by decide) _
  · exact hnumber _ (by decide) _
  · exact hstring _ (by decide) _
  · exact hstring _ (by decide) _
  · exact hstring _ (by decide) _
  · exact hstring _ (by decide) _

/-! ## What was read weighs as much as its strings -/

/-- The size of a string member. -/
def memberSize {ν : Type} (k : List Char) : Json ν → ℕ
  | .obj ms => foundWeight (findEntry k ms)
  | _ => 0

/-- A string read from a member is no longer than the member's text. -/
theorem stringSize_getJsonString {ν : Type} {v : Json ν} {k s : List Char}
    (h : getJsonString v k [] = some s) : stringSize s = memberSize k v := by
  cases v with
  | null =>
    cases h
    rfl
  | obj ms =>
    simp only [getJsonString, member, Option.map_some] at h
    rw [← Option.some.inj h]
    simp only [memberSize]
    cases findEntry k ms with
    | none => rfl
    | some u =>
      cases u with
      | str t => rfl
      | _ => rfl
  | _ => cases h

/-- The weight of an object is the size of its four string members. -/
theorem objWeight_eq {ν : Type} (v : Json ν) :
    objWeight stringNames v = memberSize "dataType".toList v + memberSize "imageDir".toList v +
      memberSize "modeName".toList v + memberSize "temperature".toList v := by
  cases v with
  | obj ms =>
    simp only [objWeight, stringNames, List.map_cons, List.map_nil, List.sum_cons, List.sum_nil,
      memberSize]
    omega
  | _ => rfl

/-- A mode's fields cost the sizes of its four strings. -/
theorem needCost_fields (m : ModeData) :
    ((fields m).map (needCost numberNames)).sum = stringSize m.dataType + stringSize m.imageDir +
      stringSize m.modeName + stringSize m.temperature := by
  have hn : ∀ k ∈ numberNames, ∀ s, needCost numberNames (k, s) = 0 := fun k hk s => if_pos hk
  have hs : ∀ k ∈ stringNames, ∀ s, needCost numberNames (k, s) = stringSize s := by
    have h : ∀ k ∈ stringNames, k ∉ numberNames := by decide
    exact fun k hk s => if_neg (h k hk)
  simp only [fields, List.map_cons, List.map_nil, List.sum_cons, List.sum_nil]
  rw [hn _ (by decide), hn _ (by decide), hn _ (by decide), hs _ (by decide), hs _ (by decide),
    hs _ (by decide), hs _ (by decide)]
  omega

/-- A value that is read as a mode holds the sizes of the mode's strings. -/
theorem needCost_readModeData {v : Json j.Number} {m : ModeData} (h : readModeData j v = some m) :
    ((fields m).map (needCost numberNames)).sum = objWeight stringNames v := by
  unfold readModeData at h
  obtain ⟨_, -, h⟩ := Option.bind_eq_some_iff.mp h
  obtain ⟨dataType, hd, h⟩ := Option.bind_eq_some_iff.mp h
  obtain ⟨imageDir, hi, h⟩ := Option.bind_eq_some_iff.mp h
  obtain ⟨modeName, hn, h⟩ := Option.bind_eq_some_iff.mp h
  obtain ⟨temperature, ht, h⟩ := Option.bind_eq_some_iff.mp h
  obtain ⟨_, -, h⟩ := Option.bind_eq_some_iff.mp h
  obtain ⟨_, -, h⟩ := Option.bind_eq_some_iff.mp h
  cases h
  rw [needCost_fields, objWeight_eq, stringSize_getJsonString hd, stringSize_getJsonString hi,
    stringSize_getJsonString hn, stringSize_getJsonString ht]

/-- The modes read from a value cost no more than the value weighs. -/
theorem needCost_readModeDataList {v : Json j.Number} {l : List ModeData}
    (h : readModeDataList j v = some l) :
    ((l.map fields).flatten.map (needCost numberNames)).sum ≤ valueWeight stringNames v := by
  cases v with
  | arr vs =>
    have hf := mapM_readModeData h
    refine Nat.le_of_eq ?_
    unfold valueWeight
    clear h
    induction hf with
    | nil => rfl
    | cons hm _ ih =>
      simp only [List.map_cons, List.flatten_cons, List.map_append, List.sum_append, List.sum_cons]
      rw [needCost_readModeData hm, ih]
  | _ =>
    cases h
    exact Nat.zero_le _

/-! ## Exactly the clean strings survive -/

/-- The text of the mode is accepted and its seven fields are read back. -/
def Encodes (j : JsonCpp) (m : ModeData) : Prop :=
  (convertStringToJson j m.toString .null).1 = true ∧
    readModeData j (convertStringToJson j m.toString .null).2 = some m

/-- The text of the list is accepted and its modes are read back. -/
def EncodesList (j : JsonCpp) (l : List ModeData) : Prop :=
  (convertStringToJson j (modeDataJsonArray l) .null).1 = true ∧
    readModeDataList j (convertStringToJson j (modeDataJsonArray l) .null).2 = some l

/-- The names of the string fields are distinct. -/
theorem stringNames_nodup : stringNames.Nodup := by decide

/-- No string field is also a number field. -/
theorem stringNames_disjoint : ∀ k ∈ stringNames, k ∉ numberNames := by decide

/-- The names of the number fields need no escaping. -/
theorem numberNames_clean : ∀ k ∈ numberNames, Clean k := by decide

/-- With the strict parser a converted text is a document of the result. -/
theorem document_of_converted (hs : j.Strict) {t : List Char} {root : Json j.Number}
    (h : (convertStringToJson j t root).1 = true) :
    Document j.decode t (convertStringToJson j t root).2 :=
  (hs t root _).mp (Prod.ext h rfl)

/-- The object a clean mode is converted to. -/
theorem convert_toString (hs : j.Strict) {m : ModeData} (hm : CleanMode m) (root : Json j.Number) :
    convertStringToJson j m.toString root = (true, objectValue (fields m)) := by
  refine (hs _ root _).mpr ?_
  rw [toString_eq]
  exact document_pasteObject (List.cons_ne_nil _ _) (cleanField_fields.mpr hm)

/-- The array a list of clean modes is converted to. -/
theorem convert_modeDataJsonArray (hs : j.Strict) {l : List ModeData} (hl : ∀ m ∈ l, CleanMode m)
    (root : Json j.Number) :
    convertStringToJson j (modeDataJsonArray l) root =
      (true, modesValue l) := by
  refine (hs _ root _).mpr ?_
  rw [modeDataJsonArray_eq]
  refine document_pasteArray fun o ho => ?_
  obtain ⟨m, hm, rfl⟩ := List.mem_map.mp ho
  exact ⟨List.cons_ne_nil _ _, cleanField_fields.mpr (hl m hm)⟩

/-- With the strict parser a mode is encoded exactly when its strings are clean.
-/
theorem encodes_iff_clean (hs : j.Strict) (m : ModeData) : Encodes j m ↔ CleanMode m := by
  constructor
  · intro ⟨hc, hr⟩
    have hd := document_of_converted hs hc
    rw [toString_eq] at hd
    refine cleanField_fields.mp (clean_pasteObject stringNames_nodup stringNames_disjoint
      numberNames_clean (List.cons_ne_nil _ _) (weighable_fields m) hd ?_)
    rw [← toString_eq, needCost_readModeData hr]
    exact objWeight_le _ _
  · intro hm
    unfold Encodes
    rw [convert_toString hs hm]
    exact ⟨rfl, readModeData_objectValue j m⟩

/-- With the strict parser a list is encoded exactly when all its strings are
clean. -/
theorem encodesList_iff_clean (hs : j.Strict) (l : List ModeData) :
    EncodesList j l ↔ ∀ m ∈ l, CleanMode m := by
  constructor
  · intro ⟨hc, hr⟩ m hm
    have hd := document_of_converted hs hc
    rw [modeDataJsonArray_eq] at hd
    refine cleanField_fields.mp (clean_pasteArray stringNames_nodup stringNames_disjoint
      numberNames_clean ?_ hd ?_ (fields m) (List.mem_map_of_mem hm))
    · intro o ho
      obtain ⟨m, -, rfl⟩ := List.mem_map.mp ho
      exact ⟨List.cons_ne_nil _ _, weighable_fields m⟩
    · rw [← modeDataJsonArray_eq]
      exact needCost_readModeDataList hr
  · intro hl
    unfold EncodesList
    rw [convert_modeDataJsonArray hs hl]
    exact ⟨rfl, readModeDataList_modesValue j l⟩

/-- The position of a mode plays no part in its strings being clean. -/
theorem cleanMode_unplaced (m : ModeData) : CleanMode m ↔ CleanMode m.unplaced := Iff.rfl

/-- A mode is read back from its text exactly when its strings are clean, and
the list after a change exactly when the strings of the modes it keeps are. -/
theorem texts_read_back_iff (hs : j.Strict) :
    (∀ m, Encodes j m ↔ CleanMode m) ∧
      ∀ (l l' : List ModeData) (c : Change), c.modes l = some l' →
        (EncodesList j l' ↔ ∀ m ∈ c.kept l, CleanMode m) := by
  refine ⟨encodes_iff_clean hs, fun l l' c h => ?_⟩
  rw [encodesList_iff_clean hs, forall_modes cleanMode_unplaced h]

/-- A mode whose name stands in quotes. -/
def quotedMode : ModeData where
  dataPos := 1
  chuShuiLiang := 350
  canDelete := 1
  dataType := "addnew".toList
  modeName := "\"tea\"".toList
  temperature := "95".toList
  imageDir := "@mipmap/pic_chushui_feishui".toList

/-- The mode of an earlier name. -/
def plainMode : ModeData := { quotedMode with modeName := "tea".toList }

/-- A plain mode is read back alone and in a list of two. -/
theorem texts_read_back_plainMode : Encodes lexemeJson plainMode ∧
    EncodesList lexemeJson [plainMode, { plainMode with dataPos := 2 }] := by
  have h := texts_read_back_iff lexemeJson_strict
  exact ⟨(h.1 plainMode).mpr (by decide),
    (h.2 [plainMode] _ (.updateModeDataByPos plainMode (-1)) rfl).mpr (by decide)⟩

/-- The file may hold the quoted name, with escapes; its own text is refused. -/
theorem not_encodes_quotedMode :
    readModeDataList lexemeJson (modesValue [quotedMode]) = some [quotedMode] ∧
      (convertStringToJson lexemeJson quotedMode.toString .null).1 = false ∧
      ¬ Encodes lexemeJson quotedMode ∧ ¬ EncodesList lexemeJson [quotedMode] := by
  refine ⟨readModeDataList_modesValue lexemeJson [quotedMode], ?_, ?_, ?_⟩
  · decide +kernel
  · rw [encodes_iff_clean lexemeJson_strict]
    decide
  · rw [encodesList_iff_clean lexemeJson_strict]
    decide

end CdroidDemo.ModeEncoding
