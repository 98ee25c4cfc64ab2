import CodeAtlas.Action
import CodeAtlas.Index.Merge
import CodeAtlas.Search.Service
import CodeAtlas.Settings.Basic
import CodeAtlas.Storage.IndexDirectory

/-!
# The workspace of an indexer

An indexer reads sources and writes indexes in one tree of files, hands documents to one service and
reads one clock.  These make up its workspace; what it may do with them is decided by the settings
and by the tools that it can ask.
-/

namespace CodeAtlas

/-- What a clock shows. -/
structure Clock where
  now : Timestamp := ⟨0, 0⟩
  /-- The time since the operation at hand began, in milliseconds. -/
  elapsedMs : Nat := 0
  deriving DecidableEq, Repr, Inhabited

/-- The time in milliseconds since the beginning of 1970. -/
def Clock.milliseconds (c : Clock) : Nat :=
  (c.now.seconds * 1000 + c.now.nanoseconds / 1000000).toNat

/-- All that an indexer reads and writes. -/
structure Workspace where
  files : FileTree := {}
  documents : DocumentService := {}
  clock : Clock := {}
  deriving Inhabited

/-- An action of an indexer. -/
abbrev IndexAction (α : Type) := Action Workspace IndexError α

namespace Workspace

/-- An action of the store as one of an indexer. -/
def storage (a : StorageAction α) : IndexAction α :=
  (a.adapt IndexError.storage).within files fun w t => { w with files := t }

/-- Asks the document service to do something. -/
def ask (f : DocumentService → Except IndexError DocumentService) : IndexAction Unit :=
  (Action.change id f).within documents fun w d => { w with documents := d }

end Workspace

/-- The settings and the tools of an indexer. -/
structure Indexer where
  settings : Settings
  measurer : Measurer := .cyclomatic
  sources : List SymbolSource := []

namespace Indexer

/-- The directory in which indexes are kept. -/
def directory (x : Indexer) : IndexDirectory := ⟨x.settings.resolvedIndexPath⟩

/-- The identifier of a project and its root without symbolic links: the identifier is the name of
the root. -/
def identify (root : String) : IndexAction (String × String) := do
  let canonical ← Action.read (IndexError.unreadable root) (·.files.canonical root)
  return ((Path.fileName? canonical).getD "root", canonical)

end Indexer

end CodeAtlas
