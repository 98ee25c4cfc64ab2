import CodeAtlas.Error
import CodeAtlas.Files.Update
import CodeAtlas.Json.Parser
import CodeAtlas.Json.Printer

/-!
# Documents on disk

A document is written into a temporary file beside its place and renamed when it is complete, so
whoever reads finds the old document or the new one and never a part of either.
-/

namespace CodeAtlas

/-- An action of the store. -/
abbrev StorageAction (α : Type) := Action FileTree StorageError α

namespace Storage

/-- Whether a temporary file can be made beside a path. -/
def besideOf (t : FileTree) (directory : String) : Except OsError Unit :=
  match t.find? directory with
  | .ok (_, .directory) => .ok ()
  | .ok _ => .error .notADirectory
  | .error e => .error e

/-- Writes a document in one step. -/
def writeDocument (path : String) (document : Json) : StorageAction Unit := do
  let directory := (Path.parent? path).getD "."
  Action.read (StorageError.io directory) (besideOf · directory)
  Action.change (StorageError.io path) (·.replace path ⟨document.pretty.toUTF8, none⟩)

/-- Reads a document; its reader decides what is well-formed. -/
def readDocument (path : String) (read : Json → Option α) : StorageAction α := do
  let text ← Action.read (StorageError.io path) (·.readText path)
  match (Json.parse? text).bind read with
  | some a => return a
  | none => throw (.corrupt path "malformed")

/-- Makes a directory and those on the way to it. -/
def makeDirectories (path : String) : StorageAction Unit :=
  (FileTree.makeDirectories path).adapt (StorageError.io path)

/-- Removes a directory and all that is in it. -/
def removeDirectory (path : String) : StorageAction Unit :=
  (FileTree.removeDirectory path).adapt (StorageError.io path)

end Storage

end CodeAtlas
