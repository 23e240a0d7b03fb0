import Mathlib.Algebra.Group.Int.Defs
import CdroidDemo.ChunkedReads
import CdroidDemo.JsonWriter
import CdroidDemo.LocalFiles

/-!
# Reading and writing the JSON file

The helpers around the JSON library: texts to values and back, the fields of
an object with their defaults, and the file that keeps a document. The library
itself is a parameter. `none` stands for a call that does not return: for an
exception, or a loop without end.
-/

namespace CdroidDemo.JsonFunc

open ChunkedReads LocalFiles OrderedMap JsonText JsonReader JsonWriter

/-! ## The JSON library -/

/-- What is used of the JSON library. -/
structure JsonCpp where
  /-- Numbers of any of its types. -/
  Number : Type
  /-- What the lexeme of a number is read as. -/
  decode : List Char → Number
  /-- `isInt` and `asInt` of a number. -/
  asInt : Number → Option Int32
  /-- `Reader::parse` in strict mode, which fills in the root. -/
  parse : List Char → Json Number → Bool × Json Number
  /-- `writeString` with the settings of a new `StreamWriterBuilder`. -/
  writeString : Json Number → List Char

variable {j : JsonCpp}

/-- The strict reader accepts standard JSON. -/
def JsonCpp.Strict (j : JsonCpp) : Prop :=
  ∀ t root v, j.parse t root = (true, v) ↔ Document j.decode t v

/-- What is written of a document is read back as it was. -/
def JsonCpp.Inverse (j : JsonCpp) : Prop :=
  ∀ v, Canonical v → isRoot v = true → ∀ root, j.parse (j.writeString v) root = (true, v)

/-! ## Numbers in texts -/

/-- `std::to_string`. -/
def stdToString (x : Int32) : List Char :=
  if x.toInt < 0 then '-' :: Nat.toDigits 10 x.toInt.natAbs else Nat.toDigits 10 x.toInt.natAbs

/-- The white space `strtoll` skips. -/
def isSpace (c : Char) : Bool := c = ' ' || (9 ≤ c.toNat && c.toNat ≤ 13)

/-- The number of the digits a text starts with. -/
def leadingDigits (s : List Char) : ℕ := Nat.ofDigitChars 10 (s.takeWhile Char.isDigit) 0

/-- A sign and digits. -/
def signedDigits : List Char → ℤ
  | [] => 0
  | c :: s =>
    if c = '-' then -(leadingDigits s : ℤ)
    else if c = '+' then leadingDigits s
    else leadingDigits (c :: s)

/-- `atoll`, which stays within 64 bits. -/
def atoll (s : List Char) : ℤ := max (-2 ^ 63) (min (2 ^ 63 - 1) (signedDigits (s.dropWhile isSpace)))

/-! ## Texts and values -/

/-- `convertStringToJson`. -/
def convertStringToJson (j : JsonCpp) (str : List Char) (root : Json j.Number) :
    Bool × Json j.Number :=
  j.parse str root

/-- `convertJsonToString`, which always succeeds. -/
def convertJsonToString (j : JsonCpp) (root : Json j.Number) : Bool × List Char :=
  (true, j.writeString root)

/-! ## Fields -/

/-- `isMember` and `operator[]`: the value under a key. Values that are
neither objects nor null have no keys to ask for. -/
def member {ν : Type} (root : Json ν) (key : List Char) : Option (Option (Json ν)) :=
  match root with
  | .null => some none
  | .obj ms => some (findEntry key ms)
  | _ => none

/-- `jsonToInt`: a number that is an `int`, or one written as a text. -/
def jsonToInt (j : JsonCpp) (value : Json j.Number) (defaultValue : Int32) : Int32 :=
  match value with
  | .num n => (j.asInt n).getD defaultValue
  | .str s => Int32.ofInt (atoll s)
  | _ => defaultValue

/-- `jsonToString`. -/
def jsonToString {ν : Type} (value : Json ν) (defaultValue : List Char) : List Char :=
  match value with
  | .str s => s
  | _ => defaultValue

/-- `getJsonInt`: the default stands for a missing key. -/
def getJsonInt (j : JsonCpp) (root : Json j.Number) (key : List Char) (defaultValue : Int32) :
    Option Int32 :=
  (member root key).map fun
    | none => defaultValue
    | some v => jsonToInt j v defaultValue

/-- `getJsonString`: the default stands for a missing key. -/
def getJsonString {ν : Type} (root : Json ν) (key : List Char) (defaultValue : List Char) :
    Option (List Char) :=
  (member root key).map fun
    | none => defaultValue
    | some v => jsonToString v defaultValue

/-! ## The file -/

/-- What the path of the file names. -/
abbrev Node := FileNode Char

/-! ### Loading -/

/-- What the steps of a load do, if they are taken. -/
structure LoadAccess where
  /-- `exists` and `is_directory` find the status. -/
  statusOk : Bool
  /-- The stream opens. -/
  openOk : Bool
  /-- The number of the read that breaks the stream, if one does. -/
  badRead : Option ℕ

/-- What 1024 characters at a time read of a file; `none` when the end of the
file does not come. -/
def readFile (badRead : Option ℕ) (content : List Char) : Option (List Char) :=
  readAll 1024 badRead content

/-- The returned flag and the root. -/
def loadLocalJson (j : JsonCpp) (a : LoadAccess) (node : Node) (root : Json j.Number) :
    Option (Bool × Json j.Number) :=
  if a.statusOk then
    match openInput a.openOk node with
    | none => some (false, root)
    | some data =>
      (readFile a.badRead data).map fun content => convertStringToJson j content root
  else none

/-! ### Saving -/

/-- What the steps of a save do, if they are taken. -/
structure SaveAccess where
  /-- `exists`, `is_regular_file` and `is_directory` find the status. -/
  statusOk : Bool
  /-- `remove` does not throw. -/
  removeOk : Bool
  /-- The stream opens. -/
  openOk : Bool

/-- `saveLocalJson` of what `convertJsonToString` returns: the flag and what the
path names afterwards. -/
def saveText {α : Type} (a : SaveAccess) (text : Bool × List α) (node : FileNode α) :
    Option Bool × FileNode α :=
  if a.statusOk then
    match node with
    | .file content =>
      if a.removeOk then (createFile a.openOk text .absent).map some id else (none, .file content)
    | .directory => (some false, .directory)
    | n => (createFile a.openOk text n).map some id
  else (none, node)

/-- The returned flag and what the path names afterwards. -/
def saveLocalJson (j : JsonCpp) (a : SaveAccess) (root : Json j.Number) (node : Node) :
    Option Bool × Node :=
  saveText a (convertJsonToString j root) node

/-! ### What a save does to each kind of path -/

/-- A save comes back when the status is found and an old file can be removed. -/
theorem saveText_isSome {α : Type} (a : SaveAccess) (text : Bool × List α) (node : FileNode α) :
    (saveText a text node).1.isSome = true ↔
      a.statusOk = true ∧ ∀ content, node = .file content → a.removeOk = true := by
  unfold saveText
  by_cases hs : a.statusOk = true
  · rw [if_pos hs, and_iff_right hs]
    cases node with
    | absent | directory | special input => exact iff_of_true rfl fun _ h => by cases h
    | file content =>
      dsimp only
      split
      · next hr => exact iff_of_true rfl fun _ _ => hr
      · next hr => exact iff_of_false Bool.false_ne_true fun h => hr (h content rfl)
  · rw [if_neg hs]
    exact iff_of_false Bool.false_ne_true fun h => hs h.1

/-- An old file is removed first, -/
theorem saveLocalJson_file (a : SaveAccess) (root : Json j.Number) (content : List Char) :
    saveLocalJson j a root (.file content) =
      if a.statusOk ∧ a.removeOk then
        if a.openOk then (some true, .file (j.writeString root)) else (some false, .absent)
      else (none, .file content) := by
  unfold saveLocalJson saveText createFile openOutput
  cases a.statusOk <;> cases a.removeOk <;> cases a.openOk <;> rfl

/-- a missing one is created, -/
theorem saveLocalJson_absent (a : SaveAccess) (root : Json j.Number) :
    saveLocalJson j a root .absent =
      if a.statusOk then
        if a.openOk then (some true, .file (j.writeString root)) else (some false, .absent)
      else (none, .absent) := by
  unfold saveLocalJson saveText createFile openOutput
  cases a.statusOk <;> cases a.openOk <;> rfl

/-- a directory is left alone, -/
theorem saveLocalJson_directory (a : SaveAccess) (root : Json j.Number) :
    saveLocalJson j a root .directory = (if a.statusOk then some false else none, .directory) := by
  unfold saveLocalJson saveText
  cases a.statusOk <;> rfl

/-- and anything else is written to. -/
theorem saveLocalJson_special (a : SaveAccess) (root : Json j.Number) (input : List Char) :
    saveLocalJson j a root (.special input) =
      (if a.statusOk then some a.openOk else none, .special input) := by
  unfold saveLocalJson saveText createFile openOutput
  cases a.statusOk <;> cases a.openOk <;> rfl

/-- A file that a save leaves is the document it wrote. -/
theorem saveLocalJson_written {a : SaveAccess} {root : Json j.Number} {node : Node}
    {content : List Char} (h : saveLocalJson j a root node = (some true, .file content)) :
    content = j.writeString root := by
  have hopen : (if a.openOk = true then (some true, FileNode.file (j.writeString root))
      else (some false, .absent)) = (some true, .file content) → content = j.writeString root := by
    intro h
    split at h
    · cases h
      rfl
    · cases h
  cases node with
  | absent =>
    rw [saveLocalJson_absent] at h
    split at h
    · exact hopen h
    · cases h
  | file c =>
    rw [saveLocalJson_file] at h
    split at h
    · exact hopen h
    · cases h
  | directory =>
    rw [saveLocalJson_directory] at h
    obtain ⟨-, hn⟩ := Prod.mk.inj h
    cases hn
  | special input =>
    rw [saveLocalJson_special] at h
    obtain ⟨-, hn⟩ := Prod.mk.inj h
    cases hn

/-- A load that meets no obstacle reads the whole file. -/
theorem loadLocalJson_file {a : LoadAccess} (hs : a.statusOk = true) (ho : a.openOk = true)
    (hr : a.badRead = none) (content : List Char) (root : Json j.Number) :
    loadLocalJson j a (.file content) root = some (convertStringToJson j content root) := by
  have hopen : openInput a.openOk (.file content) = some content := if_pos ho
  unfold loadLocalJson readFile
  rw [if_pos hs, hopen, hr]
  dsimp only
  rw [readAll_unbroken (by decide)]
  rfl

/-! ## A number is read back from its text -/

/-- A number is written in digits, -/
theorem toDigits_isDigit (n : ℕ) : ∀ c ∈ Nat.toDigits 10 n, c.isDigit = true := fun _ hc =>
  Nat.isDigit_of_mem_toDigits (by decide) (by decide) hc

/-- and read back from them. -/
theorem leadingDigits_toDigits (n : ℕ) : leadingDigits (Nat.toDigits 10 n) = n := by
  unfold leadingDigits
  rw [List.takeWhile_eq_self_iff.mpr (toDigits_isDigit n), Nat.ofDigitChars_ten_toDigits]

/-- A digit is neither escaped nor white space nor a sign. -/
theorem isDigit_cases {c : Char} (h : c.isDigit = true) :
    plainChar c = true ∧ isSpace c = false ∧ c ≠ '-' ∧ c ≠ '+' := by
  have hb : 48 ≤ c.toNat ∧ c.toNat ≤ 57 := by
    simpa [Char.isDigit, UInt32.le_iff_toNat_le] using h
  have hne : ∀ d : Char, (d.toNat < 48 ∨ 57 < d.toNat) → c ≠ d := by
    intro d hd he
    rw [he] at hb
    omega
  refine ⟨?_, ?_, hne '-' (by decide), hne '+' (by decide)⟩
  · simp only [plainChar, hne '"' (by decide), hne '\\' (by decide), ne_eq, not_false_eq_true,
      decide_true, Bool.true_and, decide_eq_true_eq]
    omega
  · simp only [isSpace, hne ' ' (by decide), decide_false, Bool.false_or, Bool.and_eq_false_iff,
      decide_eq_false_iff_not]
    omega

/-- The text of a number has no characters to escape. -/
theorem clean_stdToString (x : Int32) : Clean (stdToString x) := by
  have hd : Clean (Nat.toDigits 10 x.toInt.natAbs) := fun c hc =>
    (isDigit_cases (toDigits_isDigit _ c hc)).1
  unfold stdToString
  split
  · exact List.forall_mem_cons.mpr ⟨rfl, hd⟩
  · exact hd

/-- No sign is found in front of digits. -/
theorem signedDigits_toDigits (n : ℕ) :
    signedDigits ((Nat.toDigits 10 n).dropWhile isSpace) = n := by
  have hl := leadingDigits_toDigits n
  have hd := toDigits_isDigit n
  cases ht : Nat.toDigits 10 n with
  | nil => exact absurd ht Nat.toDigits_ne_nil
  | cons c s =>
    rw [ht] at hl hd
    obtain ⟨-, hs, hm, hp⟩ := isDigit_cases (hd c List.mem_cons_self)
    rw [List.dropWhile_cons_of_neg (by rw [hs]; decide), signedDigits, if_neg hm, if_neg hp, hl]

/-- Texts of numbers are read as these numbers. -/
theorem ofInt_atoll_stdToString (x : Int32) : Int32.ofInt (atoll (stdToString x)) = x := by
  have hlt := x.toInt_lt
  have hle := x.le_toInt
  have hs : signedDigits ((stdToString x).dropWhile isSpace) = x.toInt := by
    unfold stdToString
    split
    · rw [List.dropWhile_cons_of_neg (by decide), signedDigits, if_pos rfl, leadingDigits_toDigits]
      omega
    · rw [signedDigits_toDigits]
      omega
  have ha : atoll (stdToString x) = x.toInt := by
    unfold atoll
    rw [hs]
    omega
  rw [ha, Int32.ofInt_toInt]

/-! ## A library of plain lexemes -/

/-- Numbers are their lexemes. -/
abbrev Lexeme := { l : List Char // isNumber l = true }

/-- A lexeme; other texts do not occur. -/
def lexeme (l : List Char) : Lexeme := if h : isNumber l = true then ⟨l, h⟩ else ⟨['0'], rfl⟩

/-- The reader of the grammar with the tabbed writer. A root stays as it was
when its text is refused. -/
def lexemeJson : JsonCpp where
  Number := Lexeme
  decode := lexeme
  asInt n :=
    let x := Int32.ofInt (atoll n.1)
    if stdToString x = n.1 then some x else none
  parse t root :=
    match parseDocument lexeme t with
    | some v => (true, v)
    | none => (false, root)
  writeString v := writeValue Subtype.val 0 v

/-- The reader of lexemes is strict, -/
theorem lexemeJson_strict : lexemeJson.Strict := by
  intro t root v
  have hp : parseDocument lexeme t = some v ↔ Document lexeme t v := parseDocument_iff
  refine Iff.trans ?_ hp
  simp only [lexemeJson]
  cases parseDocument lexeme t with
  | none => exact ⟨fun h => Bool.noConfusion (Prod.mk.inj h).1, fun h => nomatch h⟩
  | some u => exact ⟨fun h => congrArg some (Prod.mk.inj h).2, fun h => by cases h; rfl⟩

/-- and reads back what is written. -/
theorem lexemeJson_inverse : lexemeJson.Inverse := by
  intro v hc hr root
  have hn : WritesNumbers lexeme Subtype.val := fun n => ⟨n.2, dif_pos n.2⟩
  have hp := parseDocument_writeValue hn hc hr
  exact (lexemeJson_strict _ root v).mpr (parseDocument_iff.mp hp)

end CdroidDemo.JsonFunc
