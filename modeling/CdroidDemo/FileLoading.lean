import CdroidDemo.ModeStore

/-!
# Loading bytes

The load of the file of modes on its bytes: they are read in chunks, and the
parser of the JSON library gets them as they are, also when they are no UTF-8
text. A call that comes back, one that throws, and one whose loop has no end
are told apart.
-/

namespace CdroidDemo.FileLoading

open ChunkedReads LocalFiles JsonText JsonFunc ModeStore

/-! ## Calls -/

/-- What becomes of a call. -/
inductive Call (α : Type)
  /-- The call returned. -/
  | returned (a : α)
  /-- An exception left the call. -/
  | thrown
  /-- The call does not come back. -/
  | endless

variable {α β : Type}

/-- Go on with what a call returned. -/
def Call.bind (c : Call α) (f : α → Call β) : Call β :=
  match c with
  | .returned a => f a
  | .thrown => .thrown
  | .endless => .endless

/-- Compute from what a call returned. -/
def Call.map (f : α → β) (c : Call α) : Call β := c.bind fun a => .returned (f a)

/-- A call that throws when there is no value. -/
def Call.ofOption : Option α → Call α
  | some a => .returned a
  | none => .thrown

/-- The call comes back. -/
def Call.Returns (c : Call α) : Prop := ∃ a, c = .returned a

/-! ## The JSON library -/

/-- The JSON library with its parser on bytes. -/
structure JsonBytes extends JsonCpp where
  /-- `Reader::parse` in strict mode; `none` is an exception. -/
  parseBytes : List UInt8 → Json Number → Option (Bool × Json Number)

/-- The bytes of a text. -/
def bytes (t : List Char) : List UInt8 := t.flatMap String.utf8EncodeChar

/-- The arrays and objects a text opens, and brackets in its strings. -/
def openings (t : List Char) : ℕ := t.countP fun c => c = '[' || c = '{'

/-- A standard JSON text is read as its value, unless it could exceed the
nesting that the parser allows. -/
def JsonBytes.ReadsText (b : JsonBytes) : Prop :=
  ∀ t v, Document b.decode t v → openings t < 1000 →
    ∀ root, b.parseBytes (bytes t) root = some (true, v)

/-- `convertStringToJson` on bytes. -/
def convertStringToJson (b : JsonBytes) (str : List UInt8) (root : Json b.Number) :
    Call (Bool × Json b.Number) :=
  .ofOption (b.parseBytes str root)

/-! ## The file -/

/-- What the path of the file names. -/
abbrev Node := FileNode UInt8

/-- The bytes that `read` of 1024 at a time has at the end of the file. -/
def readFile (badRead : Option ℕ) (content : List UInt8) : Call (List UInt8) :=
  match readAll 1024 badRead content with
  | some text => .returned text
  | none => .endless

/-- The returned flag and the root. -/
def loadLocalJson (b : JsonBytes) (a : LoadAccess) (node : Node) (root : Json b.Number) :
    Call (Bool × Json b.Number) :=
  if a.statusOk then
    match openInput a.openOk node with
    | none => .returned (false, root)
    | some data =>
      (readFile a.badRead data).bind fun content => convertStringToJson b content root
  else .thrown

/-- The returned flag and what the path names afterwards. -/
def saveLocalJson (b : JsonBytes) (a : SaveAccess) (root : Json b.Number) (node : Node) :
    Call (Bool × Node) :=
  match saveText a ((convertJsonToString b.toJsonCpp root).map id bytes) node with
  | (some ok, node') => .returned (ok, node')
  | (none, _) => .thrown

/-! ## The store -/

/-- The file of a new device. -/
def createDataFile (b : JsonBytes) (a : InitAccess) (data : Json b.Number) (node : Node) :
    Call Node :=
  match openOutput a.createOk node with
  | none => .returned node
  | some file => (saveLocalJson b a.save data file).map Prod.snd

/-- The document of the file, or the one of a new device, and what the path
names afterwards. -/
def loadData (b : JsonBytes) (a : InitAccess) (data : Json b.Number) (node : Node) :
    Call (Json b.Number × Node) :=
  (loadLocalJson b a.load node data).bind fun loaded =>
    if loaded.1 then .returned (loaded.2, node)
    else
      (convertStringToJson b (bytes modeDataLocalJson) loaded.2).bind fun created =>
        (createDataFile b a created.2 node).map fun node => (created.2, node)

/-- The object and what the path names afterwards. -/
def init (b : JsonBytes) (sort : List ModeData → List ModeData) (a : InitAccess)
    (s : CConfMgr b.toJsonCpp) (node : Node) : Call (CConfMgr b.toJsonCpp × Node) :=
  (loadData b a s.data node).bind fun loaded =>
    (Call.ofOption (readModeDataList b.toJsonCpp loaded.1)).map fun modes =>
      ({ modeDataList := sort (s.modeDataList ++ modes), data := loaded.1 }, loaded.2)

/-! ## Rules of calls -/

section Calls

variable {c : Call α} {f : α → Call β} {P : α → Prop}

/-- What is returned is what there is. -/
theorem exists_returned {a : α} : (∃ r, Call.returned a = .returned r ∧ P r) ↔ P a := by
  simp

/-- A call that throws returns nothing, -/
theorem exists_thrown : (∃ r, (Call.thrown : Call α) = .returned r ∧ P r) ↔ False := by
  simp

/-- and neither does one without end. -/
theorem exists_endless : (∃ r, (Call.endless : Call α) = .returned r ∧ P r) ↔ False := by
  simp

/-- A value is returned. -/
theorem returns_returned (a : α) : (Call.returned a).Returns := ⟨a, rfl⟩

/-- An exception is none, -/
theorem not_returns_thrown : ¬(Call.thrown : Call α).Returns := by
  rintro ⟨a, h⟩
  cases h

/-- and neither is a loop without end. -/
theorem not_returns_endless : ¬(Call.endless : Call α).Returns := by
  rintro ⟨a, h⟩
  cases h

/-- Two calls return when both do. -/
theorem returns_bind : (c.bind f).Returns ↔ ∃ a, c = .returned a ∧ (f a).Returns := by
  cases c with
  | returned a =>
    rw [exists_returned]
    rfl
  | thrown => exact (iff_false_intro not_returns_thrown).trans exists_thrown.symm
  | endless => exact (iff_false_intro not_returns_endless).trans exists_endless.symm

/-- A computation behind a call changes nothing about that. -/
theorem returns_map {g : α → β} : (c.map g).Returns ↔ c.Returns := by
  rw [Call.map, returns_bind]
  exact exists_congr fun a => and_iff_left ⟨g a, rfl⟩

/-- A call that throws without a value returns with one. -/
theorem returns_ofOption {o : Option α} : (Call.ofOption o).Returns ↔ o.isSome = true := by
  cases o with
  | none => exact iff_of_false not_returns_thrown Bool.false_ne_true
  | some a => exact iff_of_true (returns_returned a) rfl

end Calls

/-! ## A file is read to its end -/

/-- A read that breaks the stream in front of the end is followed by others for ever. -/
theorem readFile_breaks {badRead : Option ℕ} {content : List UInt8}
    (h : Breaks 1024 badRead content) : readFile badRead content = .endless := by
  rw [readFile, readAll, readLoop_breaks (by decide) h]

/-- Otherwise the bytes of the file are read, whatever their number. -/
theorem readFile_whole {badRead : Option ℕ} {content : List UInt8}
    (h : ¬Breaks 1024 badRead content) : readFile badRead content = .returned content := by
  rw [readFile, readAll_whole (by decide) h]

/-! ## Files of texts -/

/-- The bytes of the texts. -/
def ofText (node : JsonFunc.Node) : Node := node.map bytes

/-- The bytes of a text are read as the text. -/
def JsonBytes.ParsesText (b : JsonBytes) (t : List Char) : Prop :=
  ∀ root, b.parseBytes (bytes t) root = some (b.parse t root)

section Texts

variable {b : JsonBytes}

/-- A load whose reads do not break the stream does on the bytes of a text what
it does on the text. -/
theorem loadLocalJson_text {a : LoadAccess} (hr : a.badRead = none) {node : JsonFunc.Node}
    (ht : ∀ t, node = .file t ∨ node = .special t → b.ParsesText t) (root : Json b.Number) :
    loadLocalJson b a (ofText node) root =
      .ofOption (JsonFunc.loadLocalJson b.toJsonCpp a node root) := by
  have hwhole : ∀ t : List Char, b.ParsesText t →
      ((readFile a.badRead (bytes t)).bind fun content => convertStringToJson b content root) =
        .ofOption ((JsonFunc.readFile a.badRead t).map fun content =>
          JsonFunc.convertStringToJson b.toJsonCpp content root) := by
    intro t hp
    rw [readFile, JsonFunc.readFile, hr, readAll_unbroken (by decide), readAll_unbroken (by decide)]
    exact congrArg Call.ofOption (hp root)
  unfold loadLocalJson JsonFunc.loadLocalJson ofText
  rw [openInput_map]
  split
  · cases ho : openInput a.openOk node with
    | none => rfl
    | some t => exact hwhole t (ht t (openInput_some ho))
  · rfl

/-- No text has no bytes. -/
theorem bytes_nil : bytes [] = [] := rfl

/-- The bytes of two texts in a row. -/
theorem bytes_append (t t' : List Char) : bytes (t ++ t') = bytes t ++ bytes t' :=
  List.flatMap_append

/-- What a save makes of a text, it makes of the bytes. -/
theorem saveText_bytes (a : SaveAccess) (text : Bool × List Char) (node : JsonFunc.Node) :
    saveText a (text.map id bytes) (ofText node) =
      ((saveText a text node).1, ofText (saveText a text node).2) := by
  have hcreate : ∀ n : JsonFunc.Node,
      (createFile a.openOk (text.map id bytes) (ofText n)).map some id =
        (((createFile a.openOk text n).map some id).1,
          ofText ((createFile a.openOk text n).map some id).2) := fun n =>
    congrArg (Prod.map some id) (createFile_map bytes_nil bytes_append a.openOk text n)
  unfold saveText
  split
  · cases node with
    | absent => exact hcreate .absent
    | directory => rfl
    | file content =>
      simp only [ofText, FileNode.map]
      split
      · exact hcreate .absent
      · rfl
    | special input => exact hcreate (.special input)
  · rfl

/-- So does `saveLocalJson`. -/
theorem saveLocalJson_text (a : SaveAccess) (root : Json b.Number) (node : JsonFunc.Node) :
    saveLocalJson b a root (ofText node) =
      match JsonFunc.saveLocalJson b.toJsonCpp a root node with
      | (some ok, node') => .returned (ok, ofText node')
      | (none, _) => .thrown := by
  unfold saveLocalJson JsonFunc.saveLocalJson
  rw [saveText_bytes]
  obtain ⟨ok, node'⟩ := saveText a (convertJsonToString b.toJsonCpp root) node
  cases ok <;> rfl

/-- The file of a new device is created as its bytes. -/
theorem createDataFile_text (a : InitAccess) (data : Json b.Number) (node : JsonFunc.Node) :
    createDataFile b a data (ofText node) =
      (Call.ofOption (ModeStore.createDataFile b.toJsonCpp a data node)).map ofText := by
  unfold createDataFile ModeStore.createDataFile
  rw [ofText, openOutput_map bytes_nil]
  cases openOutput a.createOk node with
  | none => rfl
  | some file =>
    have hsave := saveLocalJson_text a.save data file
    simp only [ofText] at hsave
    simp only [Option.map_some, hsave]
    split <;> rename_i hs <;> rw [hs] <;> rfl

/-- Where no read breaks the stream, `init` does on the bytes of a text what
it does on the text. -/
theorem init_text {a : InitAccess} (hr : a.load.badRead = none) {node : JsonFunc.Node}
    (ht : ∀ t, node = .file t ∨ node = .special t → b.ParsesText t)
    (hd : b.ParsesText modeDataLocalJson) (sort : List ModeData → List ModeData)
    (s : CConfMgr b.toJsonCpp) :
    init b sort a s (ofText node) =
      (Call.ofOption (CConfMgr.init b.toJsonCpp sort a s node)).map
        fun r => (r.1, ofText r.2) := by
  have hdata : loadData b a s.data (ofText node) =
      (Call.ofOption (ModeStore.loadData b.toJsonCpp a s.data node)).map
        fun r => (r.1, ofText r.2) := by
    unfold loadData ModeStore.loadData
    rw [loadLocalJson_text hr ht]
    cases JsonFunc.loadLocalJson b.toJsonCpp a.load node s.data with
    | none => rfl
    | some loaded =>
      simp only [Call.ofOption, Call.bind, Option.bind_some]
      split
      · rfl
      · have hc := hd loaded.2
        rw [convertStringToJson, hc]
        simp only [Call.ofOption, createDataFile_text, JsonFunc.convertStringToJson]
        cases ModeStore.createDataFile b.toJsonCpp a
          (b.parse modeDataLocalJson loaded.2).2 node with
        | none => rfl
        | some file => rfl
  unfold init CConfMgr.init
  rw [hdata]
  cases ModeStore.loadData b.toJsonCpp a s.data node with
  | none => rfl
  | some loaded =>
    simp only [Call.ofOption, Call.map, Call.bind, Option.bind_some]
    cases readModeDataList b.toJsonCpp loaded.1 with
    | none => rfl
    | some modes => rfl

end Texts

end CdroidDemo.FileLoading
