import CdroidDemo.FileLoading
import CdroidDemo.ModeRestart

/-!
# Which files are loaded

The load of the modes comes back unless a read breaks in front of the end of
the file, the parser throws, or the document is an array with an element that
has no members to ask for.
-/

namespace CdroidDemo.ModeLoading

open ChunkedReads LocalFiles JsonText JsonPaste ModeEncoding ModeRestart FileLoading
open JsonFunc (JsonCpp LoadAccess SaveAccess saveText saveText_isSome)
open JsonFunc (Lexeme lexeme lexemeJson lexemeJson_strict)
open ModeStore (ModeData CConfMgr InitAccess readModeData readModeDataList modeDataLocalJson)

/-! ## Documents -/

/-- `isMember` does not throw on the value. -/
def isRecord {ν : Type} : Json ν → Bool
  | .null | .obj _ => true
  | _ => false

/-- An array holds records only. -/
def Records {ν : Type} : Json ν → Prop
  | .arr vs => ∀ v ∈ vs, isRecord v = true
  | _ => True

/-- A list is mapped exactly when every element is. -/
theorem isSome_mapM {α β : Type} {f : α → Option β} {l : List α} :
    (l.mapM f).isSome = true ↔ ∀ a ∈ l, (f a).isSome = true := by
  induction l with
  | nil => exact ⟨fun _ _ h => (nomatch h), fun _ => rfl⟩
  | cons a l ih =>
    rw [List.mapM_cons, List.forall_mem_cons, ← ih]
    cases f a with
    | none => exact ⟨fun h => Bool.noConfusion h, fun h => Bool.noConfusion h.1⟩
    | some b =>
      cases l.mapM f with
      | none => exact ⟨fun h => Bool.noConfusion h, fun h => Bool.noConfusion h.2⟩
      | some bs => exact ⟨fun _ => ⟨rfl, rfl⟩, fun _ => rfl⟩

/-- A mode is read from every record, whatever the types of its fields. -/
theorem readModeData_isSome {j : JsonCpp} {v : Json j.Number} :
    (readModeData j v).isSome = true ↔ isRecord v = true := by
  cases v <;> exact Iff.rfl

/-- The loop over the array throws nothing exactly when it holds records only.
-/
theorem readModeDataList_isSome {j : JsonCpp} {v : Json j.Number} :
    (readModeDataList j v).isSome = true ↔ Records v := by
  cases v with
  | arr vs => exact isSome_mapM.trans (forall₂_congr fun _ _ => readModeData_isSome)
  | _ => exact ⟨fun _ => trivial, fun _ => rfl⟩

/-! ## The document of a new device -/

/-- The members of a built-in mode, in the order of the text. -/
def builtinFields (dataPos imageDir modeName temperature : String) : List Field :=
  [("canDelete".toList, "0".toList), ("chuShuiLiang".toList, "350".toList),
    ("dataPos".toList, dataPos.toList), ("dataType".toList, "default".toList),
    ("imageDir".toList, imageDir.toList), ("modeName".toList, modeName.toList),
    ("temperature".toList, temperature.toList)]

/-- The modes of a new device, as the fields of their records. -/
def builtinModes : List (List Field) :=
  [builtinFields "1" "@mipmap/pic_chushui_lengshui" "冰水" "5~12",
    builtinFields "2" "@mipmap/pic_chushui_changwenshui" "常温" "实时",
    builtinFields "3" "@mipmap/pic_chushui_feishui" "沸水" "98"]

set_option maxRecDepth 2000 in
/-- The text of the built-in modes is the pasted array of their fields. -/
theorem modeDataLocalJson_eq : modeDataLocalJson = pasteArray builtinModes := by
  unfold modeDataLocalJson
  simp only [pasteArray, pasteObject, pasteMember, builtinModes, builtinFields, List.map_cons,
    List.map_nil, commas_cons, commas_singleton, String.toList_append, String.reduceToList,
    List.cons_append, List.nil_append]

/-- The built-in modes have fields, and none of them needs escaping. -/
theorem builtinModes_clean : ∀ o ∈ builtinModes, o ≠ [] ∧ ∀ f ∈ o, CleanField f := by
  have h : ∀ o ∈ builtinModes, o ≠ [] ∧ ∀ f ∈ o, Clean f.1 ∧ Clean f.2 := by decide +kernel
  exact h

/-- The built-in text is read as an array of objects. -/
theorem parse_modeDataLocalJson {b : JsonBytes} (hb : b.ReadsText) (root : Json b.Number) :
    b.parseBytes (bytes modeDataLocalJson) root =
      some (true, .arr (builtinModes.map objectValue)) := by
  rw [modeDataLocalJson_eq]
  exact hb _ _ (document_pasteArray builtinModes_clean) (by decide +kernel) root

/-- The built-in modes are records. -/
theorem records_builtin {ν : Type} : Records (.arr (builtinModes.map objectValue) : Json ν) := by
  intro v hv
  obtain ⟨o, -, rfl⟩ := List.mem_map.mp hv
  rfl

/-! ## When the load comes back -/

/-- Nothing throws that is asked of the path when the file is created. -/
def CreationSafe (a : InitAccess) (node : Node) : Prop :=
  a.createOk = true →
    match node with
    | .directory => True
    | .special _ => a.save.statusOk = true
    | .absent | .file _ => a.save.statusOk = true ∧ a.save.removeOk = true

/-- The parser does not throw, an array that it accepts holds records only,
and for a text that it refuses the file can be created. -/
def ContentSafe (b : JsonBytes) (a : InitAccess) (root : Json b.Number) (node : Node)
    (content : List UInt8) : Prop :=
  match b.parseBytes content root with
  | none => False
  | some (true, v) => Records v
  | some (false, _) => CreationSafe a node

/-- The status is found; what is opened is read to its end and safe, or
otherwise the file can be created. -/
def Harmless (b : JsonBytes) (a : InitAccess) (root : Json b.Number) (node : Node) : Prop :=
  a.load.statusOk = true ∧
    match openInput a.load.openOk node with
    | none => CreationSafe a node
    | some content => ¬Breaks 1024 a.load.badRead content ∧ ContentSafe b a root node content

/-- Loading ends, `init` comes back, and without a break the bytes parsed are
those of the file. -/
structure Survives (b : JsonBytes) (sort : List ModeData → List ModeData) (a : InitAccess)
    (s : CConfMgr b.toJsonCpp) (node : Node) : Prop where
  /-- The loading ends. -/
  ends : loadLocalJson b a.load node s.data ≠ .endless
  /-- `init` comes back. -/
  returns : (init b sort a s node).Returns
  /-- Without a break the whole file is parsed. -/
  whole : ∀ content, openInput a.load.openOk node = some content → a.load.statusOk = true →
    ¬Breaks 1024 a.load.badRead content →
      loadLocalJson b a.load node s.data = convertStringToJson b content s.data

variable {b : JsonBytes} {a : InitAccess} {node : Node}

/-- Of a standard JSON text only the elements matter. -/
theorem contentSafe_document (hb : b.ReadsText) {t : List Char} {v : Json b.Number}
    (hd : Document b.decode t v) (ho : openings t < 1000) {root : Json b.Number} :
    ContentSafe b a root node (bytes t) ↔ Records v := by
  rw [ContentSafe, hb t v hd ho]

/-- A load of a path whose status is found. -/
theorem loadLocalJson_input {a : LoadAccess} (ha : a.statusOk = true) (root : Json b.Number) :
    loadLocalJson b a node root =
      match openInput a.openOk node with
      | none => .returned (false, root)
      | some data =>
        (readFile a.badRead data).bind fun content => convertStringToJson b content root := by
  exact if_pos ha

/-- A load that meets no obstacle parses the whole file. -/
theorem loadLocalJson_whole {a : LoadAccess} (ha : a.statusOk = true) {content : List UInt8}
    (hi : openInput a.openOk node = some content) (hn : ¬Breaks 1024 a.badRead content)
    (root : Json b.Number) :
    loadLocalJson b a node root = convertStringToJson b content root := by
  rw [loadLocalJson_input ha, hi]
  simp only [readFile_whole hn, Call.bind]

/-- A save comes back when the status is found and an old file can be removed. -/
theorem saveLocalJson_returns {a : SaveAccess} {root : Json b.Number} :
    (saveLocalJson b a root node).Returns ↔
      a.statusOk = true ∧ ∀ content, node = .file content → a.removeOk = true := by
  rw [saveLocalJson]
  generalize (JsonFunc.convertJsonToString b.toJsonCpp root).map id bytes = text
  rw [← saveText_isSome a text]
  obtain ⟨ok, node'⟩ := saveText a text node
  cases ok with
  | none => exact iff_of_false not_returns_thrown Bool.false_ne_true
  | some ok => exact iff_of_true (returns_returned _) rfl

/-- A path that opens is saved to as what the stream left there. -/
theorem createDataFile_opened {data : Json b.Number} {file : Node}
    (ho : openOutput a.createOk node = some file) :
    (createDataFile b a data node).Returns ↔
      a.save.statusOk = true ∧ ∀ content, file = .file content → a.save.removeOk = true := by
  rw [createDataFile, ho]
  exact returns_map.trans saveLocalJson_returns

/-- `createDataFile` returns exactly where the creation is safe. -/
theorem createDataFile_returns {data : Json b.Number} :
    (createDataFile b a data node).Returns ↔ CreationSafe a node := by
  unfold CreationSafe
  by_cases hc : a.createOk = true
  · have hfile : (a.save.statusOk = true ∧
        ∀ content, (.file [] : Node) = .file content → a.save.removeOk = true) ↔
        a.save.statusOk = true ∧ a.save.removeOk = true :=
      and_congr_right fun _ => ⟨fun h => h [] rfl, fun h _ _ => h⟩
    rw [forall_prop_of_true hc]
    cases node with
    | directory => exact ⟨fun _ => trivial, fun _ => returns_returned _⟩
    | special input =>
      have ho : openOutput a.createOk (.special input) = some (.special input) := if_pos hc
      exact (createDataFile_opened ho).trans (and_iff_left fun _ h => (nomatch h))
    | absent =>
      have ho : openOutput a.createOk (.absent : Node) = some (.file []) := if_pos hc
      exact (createDataFile_opened ho).trans hfile
    | file content =>
      have ho : openOutput a.createOk (.file content) = some (.file []) := if_pos hc
      exact (createDataFile_opened ho).trans hfile
  · have hclosed : openOutput a.createOk node = none := by
      cases node with
      | directory => rfl
      | _ => exact if_neg hc
    rw [createDataFile, hclosed]
    exact ⟨fun _ h => absurd h hc, fun _ => returns_returned _⟩

/-- The document of a new device has modes; what is left is to create its file. -/
theorem created_records (hb : b.ReadsText) (root : Json b.Number) :
    (∃ r, ((convertStringToJson b (bytes modeDataLocalJson) root).bind fun created =>
      (createDataFile b a created.2 node).map fun node => (created.2, node)) = .returned r ∧
        Records r.1) ↔ CreationSafe a node := by
  have hparse : convertStringToJson b (bytes modeDataLocalJson) root =
      .returned (true, .arr (builtinModes.map objectValue)) := by
    rw [convertStringToJson, parse_modeDataLocalJson hb]
    rfl
  rw [hparse]
  simp only [Call.bind]
  rw [← createDataFile_returns]
  cases createDataFile b a (.arr (builtinModes.map objectValue)) node with
  | returned n =>
    exact exists_returned.trans (iff_of_true records_builtin (returns_returned n))
  | thrown => exact exists_thrown.trans (iff_false_intro not_returns_thrown).symm
  | endless => exact exists_endless.trans (iff_false_intro not_returns_endless).symm

/-- `init` comes back with the modes of a document that has some. -/
theorem init_returns {sort : List ModeData → List ModeData} {s : CConfMgr b.toJsonCpp} :
    (init b sort a s node).Returns ↔
      ∃ r, loadData b a s.data node = .returned r ∧ Records r.1 := by
  rw [init, returns_bind]
  refine exists_congr fun r => and_congr_right fun _ => ?_
  rw [returns_map, returns_ofOption, readModeDataList_isSome]

/-- The document of what was opened, or of a new device, has modes. -/
theorem loadData_records (hb : b.ReadsText) (root : Json b.Number) :
    (∃ r, loadData b a root node = .returned r ∧ Records r.1) ↔ Harmless b a root node := by
  unfold loadData Harmless
  by_cases ha : a.load.statusOk = true
  · rw [loadLocalJson_input ha, and_iff_right ha]
    cases openInput a.load.openOk node with
    | none => exact created_records hb root
    | some content =>
      by_cases hn : Breaks 1024 a.load.badRead content
      · simp only [readFile_breaks hn, Call.bind]
        exact exists_endless.trans (iff_false_intro fun h => h.1 hn).symm
      · simp only [readFile_whole hn, Call.bind, ContentSafe, convertStringToJson]
        rw [and_iff_right hn]
        cases b.parseBytes content root with
        | none => exact exists_thrown
        | some r =>
          obtain ⟨flag, v⟩ := r
          cases flag with
          | true => exact exists_returned
          | false => exact created_records hb v
  · unfold loadLocalJson
    rw [if_neg ha]
    exact exists_thrown.trans (iff_false_intro fun h => ha h.1).symm

/-- Exactly the harmless files are survived. -/
theorem loading_survives_iff (hb : b.ReadsText) (sort : List ModeData → List ModeData)
    (s : CConfMgr b.toJsonCpp) : Survives b sort a s node ↔ Harmless b a s.data node := by
  constructor
  · exact fun h => (loadData_records hb s.data).mp (init_returns.mp h.returns)
  · intro h
    have hr : (init b sort a s node).Returns :=
      init_returns.mpr ((loadData_records hb s.data).mpr h)
    refine ⟨fun he => ?_, hr, fun content hi ha hn => loadLocalJson_whole ha hi hn s.data⟩
    obtain ⟨r, hl, -⟩ := init_returns.mp hr
    rw [loadData, he] at hl
    cases hl

/-! ## A reader of UTF-8 -/

/-- The reader of plain lexemes on bytes; what is no UTF-8 is refused. -/
def lexemeBytes : JsonBytes :=
  { lexemeJson with
    parseBytes := fun bs root =>
      match bs.toByteArray.utf8Decode? with
      | some t => some (lexemeJson.parse t.toList root)
      | none => some (false, root) }

/-- The example parser parses every text as its bytes. -/
theorem lexemeBytes_parsesText (t : List Char) : lexemeBytes.ParsesText t := by
  intro root
  have hd : (bytes t).toByteArray.utf8Decode? = some t.toArray := List.utf8Decode?_utf8Encode
  simp only [lexemeBytes, hd]

/-- The example parser reads documents back. -/
theorem lexemeBytes_readsText : lexemeBytes.ReadsText := fun t v hd _ root =>
  (lexemeBytes_parsesText t root).trans (congrArg some ((lexemeJson_strict t root v).mpr hd))

/-- An array of an object with a truth value and of null. -/
def nullFile : Node := .file (bytes "[\x7b\"dataPos\":true\x7d,null]".toList)

/-- An array of a number. -/
def numberFile : Node := .file (bytes "[1]".toList)

/-- The first read breaks the stream. -/
def brokenInit : InitAccess := { okInit with load := { okInit.load with badRead := some 0 } }

/-- A file that holds `null` is survived. -/
theorem loading_survives_iff_nullFile :
    Survives lexemeBytes sortByPos okInit (.new lexemeJson) nullFile := by
  have hdoc : Document lexemeBytes.decode "[\x7b\"dataPos\":true\x7d,null]".toList
      (.arr [.obj [("dataPos".toList, .bool true)], .null]) := JsonReader.parseDocument_iff.mp rfl
  refine (loading_survives_iff lexemeBytes_readsText sortByPos _).mpr ⟨rfl, nofun, ?_⟩
  refine (contentSafe_document lexemeBytes_readsText hdoc (by decide)).mpr ?_
  exact List.forall_mem_cons.mpr ⟨rfl, List.forall_mem_singleton.mpr rfl⟩

/-- A read that breaks is repeated for ever, and a number has no members. -/
theorem loading_fails :
    ¬Survives lexemeBytes sortByPos brokenInit (.new lexemeJson) nullFile ∧
      ¬Survives lexemeBytes sortByPos okInit (.new lexemeJson) numberFile := by
  have harmless {a : InitAccess} {node : Node}
      (h : Survives lexemeBytes sortByPos a (.new lexemeJson) node) :
      Harmless lexemeBytes a .null node :=
    (loadData_records lexemeBytes_readsText _).mp (init_returns.mp h.returns)
  constructor
  · exact fun h => (harmless h).2.1 ⟨0, rfl, Nat.zero_le _⟩
  · intro h
    have hdoc : Document lexemeBytes.decode "[1]".toList (.arr [.num (lexeme ['1'])]) :=
      JsonReader.parseDocument_iff.mp rfl
    have hr := (contentSafe_document lexemeBytes_readsText hdoc (by decide)).mp (harmless h).2.2
    exact Bool.noConfusion (hr _ (List.mem_singleton.mpr rfl))

end CdroidDemo.ModeLoading
