import CodeAtlas.Index.Metadata
import CodeAtlas.Storage.Snapshots
import CodeAtlas.Text.Search

/-!
# The index directory

All indexes of a user are kept in one directory.  The description of a project with the identifier
`id` is the document `meta/id.json`, and its data directory is `projects/id`.  A project counts as
indexed when its description is there.

The descriptions can be listed, projects can be removed one by one or all at once, and what is left
over of a project, a description without data or data without a description, can be cleaned up.
-/

namespace CodeAtlas

/-- The directory of all indexes. -/
structure IndexDirectory where
  path : String
  deriving DecidableEq, Repr, Inhabited

namespace IndexDirectory

/-- The directory of the descriptions. -/
def metadataDirectory (d : IndexDirectory) : String := Path.join d.path "meta"

/-- The directory of the data directories. -/
def projectsDirectory (d : IndexDirectory) : String := Path.join d.path "projects"

/-- The ending of the document of a description. -/
def extension : String := ".json"

/-- The document of a description. -/
def metadataPath (d : IndexDirectory) (id : String) : String :=
  Path.join d.metadataDirectory (id ++ extension)

/-- The data directory of a project. -/
def dataDirectory (d : IndexDirectory) (id : String) : String := Path.join d.projectsDirectory id

/-- The snapshots of a project. -/
def snapshots (d : IndexDirectory) (id : String) : SnapshotDirectory := ⟨d.dataDirectory id⟩

/-- Writes a description in place of the one that is there. -/
def save (d : IndexDirectory) (m : IndexMetadata) : StorageAction Unit := do
  Storage.makeDirectories d.metadataDirectory
  Storage.writeDocument (d.metadataPath m.projectId) m.toJson

/-- Writes the description of an index that holds nothing yet. -/
def create (d : IndexDirectory) (id projectPath : String) (now : Timestamp) :
    StorageAction IndexMetadata := do
  let m := IndexMetadata.new id projectPath now
  d.save m
  return m

/-- Reads a description; none if it is not there. -/
def get? (d : IndexDirectory) (id : String) : StorageAction (Option IndexMetadata) := do
  if (← get).exists? (d.metadataPath id) then
    return some (← Storage.readDocument (d.metadataPath id) IndexMetadata.ofJson?)
  else return none

/-- Changes a description that is there and notes when. -/
def update (d : IndexDirectory) (id : String) (change : IndexMetadata → IndexMetadata)
    (now : Timestamp) : StorageAction (Option IndexMetadata) := do
  match ← d.get? id with
  | none => return none
  | some m =>
    let m := { change m with updated := now }
    d.save m
    return some m

/-- Whether the description of a project is there. -/
def exists? (d : IndexDirectory) (t : FileTree) (id : String) : Bool := t.isFile (d.metadataPath id)

/-- The names in a directory for which a test on the path holds; none if there is no directory. -/
def namesIn (directory : String) (keep : FileTree → String → Bool) :
    StorageAction (List String) := do
  let t ← get
  if t.exists? directory then
    let names ← Action.read (StorageError.io directory) (·.list directory)
    return names.filter fun name => keep t (Path.join directory name)
  else return []

/-- A name without all copies of an ending. -/
def withoutEnding (ending name : String) : String :=
  String.ofList (dropTrailingCopies ending.toList name.toList)

/-- The identifiers of the projects whose descriptions are there. -/
def metadataIds (d : IndexDirectory) : StorageAction (List String) := do
  let names ← namesIn d.metadataDirectory fun t path =>
    t.isFile path && Path.extension? path == some "json"
  return names.map (withoutEnding extension)

/-- The identifiers of the projects whose data directories are there. -/
def dataIds (d : IndexDirectory) : StorageAction (List String) :=
  namesIn d.projectsDirectory fun t path => t.isDirectory path

/-- Reads a description; none if it is not there or cannot be read. -/
def readable? (d : IndexDirectory) (id : String) : StorageAction (Option IndexMetadata) := do
  match ← Action.attempt (d.get? id) with
  | .ok m => return m
  | .error _ => return none

/-- All descriptions that can be read, by project identifier. -/
def list (d : IndexDirectory) : StorageAction (List IndexMetadata) := do
  let found ← (← d.metadataIds).mapM d.readable?
  return (found.filterMap id).mergeSort fun a b => decide (a.projectId ≤ b.projectId)

/-- Removes a document that is known to be there. -/
def removeMetadata (d : IndexDirectory) (id : String) : StorageAction Unit :=
  Action.change (StorageError.io (d.metadataPath id)) (·.removeFile (d.metadataPath id))

/-- Removes a project, and says whether anything of it was there. -/
def delete (d : IndexDirectory) (id : String) : StorageAction Bool := do
  let hadMetadata := (← get).exists? (d.metadataPath id)
  if hadMetadata then d.removeMetadata id
  let hadData := (← get).exists? (d.dataDirectory id)
  if hadData then Storage.removeDirectory (d.dataDirectory id)
  return hadMetadata || hadData

/-- Removes a directory if it is there. -/
def removeIfPresent (directory : String) : StorageAction Unit := do
  if (← get).exists? directory then Storage.removeDirectory directory

/-- Removes all projects, and says how many descriptions there were. -/
def clear (d : IndexDirectory) : StorageAction Nat := do
  let count := (← d.metadataIds).length
  removeIfPresent d.metadataDirectory
  removeIfPresent d.projectsDirectory
  return count

/-- Removes data without a description and descriptions without data, and returns the identifiers
that were affected, in order. -/
def cleanup (d : IndexDirectory) : StorageAction (List String) := do
  let described ← d.metadataIds
  let stored ← d.dataIds
  let data := stored.filter fun id => !described.contains id
  let metadata := described.filter fun id => !stored.contains id
  data.forM fun id => Storage.removeDirectory (d.dataDirectory id)
  metadata.forM fun id => d.removeMetadata id
  return (data ++ metadata).mergeSort fun a b => decide (a ≤ b)

end IndexDirectory

end CodeAtlas
