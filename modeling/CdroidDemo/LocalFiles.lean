import Mathlib.Data.List.Basic

/-!
# A file that is rewritten as a whole

What a path names, and the streams that are opened on it. A file opened for
writing is emptied, so what is written is its whole content.
-/

namespace CdroidDemo.LocalFiles

/-- What a path names. -/
inductive FileNode (α : Type)
  /-- Nothing. -/
  | absent
  /-- A file with its content. -/
  | file (content : List α)
  /-- A directory. -/
  | directory
  /-- Neither a file nor a directory; reading it yields the text. -/
  | special (input : List α)

variable {α β : Type}

/-- Open a stream for reading: what there is to read. -/
def openInput (openOk : Bool) : FileNode α → Option (List α)
  | .absent | .directory => none
  | .file data | .special data => if openOk then some data else none

/-- Open a stream for writing. -/
def openOutput (openOk : Bool) : FileNode α → Option (FileNode α)
  | .directory => none
  | .special input => if openOk then some (.special input) else none
  | .absent | .file _ => if openOk then some (.file []) else none

/-- Write to an open stream. -/
def writeOutput (text : List α) : FileNode α → FileNode α
  | .file content => .file (content ++ text)
  | n => n

/-- Open a stream and write a text, if there is one. -/
def createFile (openOk : Bool) (text : Bool × List α) (node : FileNode α) : Bool × FileNode α :=
  match openOutput openOk node with
  | none => (false, node)
  | some outputFile =>
    match text with
    | (false, _) => (false, outputFile)
    | (true, t) => (true, writeOutput t outputFile)

/-- A stream opens on a file or on something that is read like one. -/
theorem openInput_some {openOk : Bool} {node : FileNode α} {data : List α}
    (h : openInput openOk node = some data) : node = .file data ∨ node = .special data := by
  cases node with
  | absent | directory => cases h
  | file content =>
    obtain ⟨-, he⟩ := Option.ite_none_right_eq_some.mp h
    exact Or.inl (congrArg FileNode.file (Option.some.inj he))
  | special input =>
    obtain ⟨-, he⟩ := Option.ite_none_right_eq_some.mp h
    exact Or.inr (congrArg FileNode.special (Option.some.inj he))

/-- The file in another coding. -/
def FileNode.map (f : List α → List β) : FileNode α → FileNode β
  | .absent => .absent
  | .file content => .file (f content)
  | .directory => .directory
  | .special input => .special (f input)

/-! ## Coding does not matter -/

section Coding

variable {f : List α → List β}

/-- What there is to read is in the other coding. -/
theorem openInput_map (openOk : Bool) (node : FileNode α) :
    openInput openOk (node.map f) = (openInput openOk node).map f := by
  cases node <;> cases openOk <;> rfl

/-- The same streams open. -/
theorem openOutput_map (hf : f [] = []) (openOk : Bool) (node : FileNode α) :
    openOutput openOk (node.map f) = (openOutput openOk node).map (FileNode.map f) := by
  cases node <;> cases openOk <;> simp [FileNode.map, openOutput, hf]

/-- What is written is in the other coding. -/
theorem createFile_map (hf : f [] = []) (ha : ∀ s t, f (s ++ t) = f s ++ f t) (openOk : Bool)
    (text : Bool × List α) (node : FileNode α) :
    createFile openOk (text.map id f) (node.map f) =
      (createFile openOk text node).map id (FileNode.map f) := by
  unfold createFile
  rw [openOutput_map hf]
  obtain ⟨flag, t⟩ := text
  cases openOutput openOk node with
  | none => rfl
  | some outputFile =>
    cases flag with
    | false => rfl
    | true =>
      cases outputFile with
      | file content => exact congrArg (fun c => (true, FileNode.file c)) (ha content t).symm
      | absent | directory | special input => rfl

end Coding

end CdroidDemo.LocalFiles
