import CodeAtlas.Change.Event
import CodeAtlas.Change.Queue
import CodeAtlas.Index.Build

/-!
# Live indexes

A live index follows the files of its project.  Changes are queued, by hand or by a watcher, and
once they have been quiet for long enough they are applied in batches: the changed files are
extracted again, the index and the documents are brought up to date, and the index is written to
disk.  A batch that cannot be applied is replaced by a full rebuild.
-/

namespace CodeAtlas

/-- What a live index is doing. -/
inductive LiveState where
  /-- Nobody watches the files. -/
  | idle
  | watching
  /-- The files are watched, and changes are pending. -/
  | queued
  deriving DecidableEq, Repr, Inhabited

/-- The written name of a state. -/
def LiveState.name : LiveState → String
  | .idle => "idle"
  | .watching => "watching"
  | .queued => "queued"

/-- An index that follows its files. -/
structure LiveIndex where
  index : ProjectIndex
  queue : ChangeQueue
  batchSize : Nat
  isMonitoring : Bool := false
  changesDetected : Nat := 0
  incrementalUpdates : Nat := 0
  fullRebuilds : Nat := 0
  lastUpdate : Option Timestamp := none
  deriving Inhabited

namespace LiveIndex

/-- A live index of an index that is up to date. -/
def ofIndex (settings : WatchSettings) (index : ProjectIndex) : LiveIndex where
  index := index
  queue := .ofWindow settings.debounceMs
  batchSize := max settings.batchSize 1

/-- What a live index is doing. -/
def state (x : LiveIndex) : LiveState :=
  if !x.isMonitoring then .idle
  else if x.queue.size = 0 then .watching
  else .queued

/-- What there is to tell about a live index, as a JSON object. -/
def statisticsToJson (x : LiveIndex) : Json :=
  .obj [("files_monitored", .nat x.index.files.size), ("changes_detected", .nat x.changesDetected),
    ("incremental_updates", .nat x.incrementalUpdates), ("full_rebuilds", .nat x.fullRebuilds),
    ("updated", .bool x.lastUpdate.isSome), ("is_monitoring", .bool x.isMonitoring),
    ("pending_changes", .nat x.queue.size), ("state", .str x.state.name)]

/-- A path seen from the root of the project. -/
def absolute (x : LiveIndex) (path : String) : String :=
  if Path.isAbsolute path then path else Path.join x.index.root path

/-- Whether a change of a path matters: it has a source extension and is not hidden below the root
of the project. -/
def accepts (x : LiveIndex) (settings : IndexingSettings) (path : String) : Bool :=
  settings.accepts path && !Path.isHiddenBelow x.index.root path

/-- Records a change of a path that matters. -/
def record (x : LiveIndex) (c : Change) (now : Nat) : LiveIndex :=
  { x with
    queue := x.queue.record c.path c.kind now
    changesDetected := x.changesDetected + 1 }

/-- Queues a change by hand, and says whether it matters. -/
def queueChange (x : LiveIndex) (settings : IndexingSettings) (c : Change) (now : Nat) :
    Bool × LiveIndex :=
  let c : Change := { c with path := x.absolute c.path }
  if x.accepts settings c.path then (true, x.record c now) else (false, x)

/-- Records what a watcher reports. -/
def observe (x : LiveIndex) (settings : IndexingSettings) (event : EventKind)
    (paths : List String) (now : Nat) : LiveIndex :=
  if x.isMonitoring then
    ((event.changes paths).filter fun c => x.accepts settings c.path).foldl
      (fun x c => x.record c now) x
  else x

/-- Begins to watch the files of a project whose root is there. -/
def start (x : LiveIndex) (files : FileTree) : Bool × LiveIndex :=
  if x.isMonitoring then (true, x)
  else if files.exists? x.index.root then (true, { x with isMonitoring := true })
  else (false, x)

/-- Stops watching, and forgets the changes that are pending. -/
def stop (x : LiveIndex) : LiveIndex :=
  if x.isMonitoring then { x with isMonitoring := false, queue := x.queue.clear } else x

end LiveIndex

/-- A live index and the workspace of its indexer. -/
structure LiveWorkspace where
  live : LiveIndex
  workspace : Workspace
  deriving Inhabited

/-- An action on a live index. -/
abbrev LiveAction (α : Type) := Action LiveWorkspace IndexError α

/-- What is to be done about a file: it is gone, or this was extracted from it. -/
structure FileUpdate where
  file : String
  extraction : Option Extraction
  deriving DecidableEq, Inhabited

/-- The failure to apply a batch of changes. -/
def IndexError.asIncremental (e : IndexError) : IndexError := .incremental e.message

namespace LiveAction

/-- An action of the indexer as one on a live index. -/
def indexing (a : IndexAction α) : LiveAction α :=
  a.within LiveWorkspace.workspace fun s w => { s with workspace := w }

/-- Changes the live index. -/
def modify (f : LiveIndex → LiveIndex) : LiveAction Unit :=
  Action.ofRun fun s => (.ok (), { s with live := f s.live })

end LiveAction

namespace Indexer

/-- What a change of a file amounts to. -/
def updateOf (x : Indexer) (files : FileTree) (root : String) (c : Change) :
    Except IndexError FileUpdate :=
  let file := Path.relative root c.path
  if c.kind = .deleted ∨ ¬files.isFile c.path then .ok ⟨file, none⟩
  else (files.extractFile x.measurer root c.path).map fun e => ⟨file, some e⟩

/-- The documents of the symbols of a file. -/
def documentsOfFile (index : ProjectIndex) (file : String) : List SearchDocument :=
  (index.symbols.inFile file).map (SearchDocument.ofSymbol index.projectId)

/-- Brings the index and the documents up to date with one file. -/
def applyUpdate (u : FileUpdate) : LiveAction Unit := do
  let projectId := (← get).live.index.projectId
  LiveAction.indexing (Workspace.ask (·.deleteByFile projectId u.file))
  match u.extraction with
  | none => LiveAction.modify fun l => { l with index := (l.index.removeFile u.file).2 }
  | some e =>
    LiveAction.modify fun l => { l with index := l.index.replaceFile u.file e }
    let index := (← get).live.index
    LiveAction.indexing (Workspace.ask (·.upsert (documentsOfFile index u.file)))

/-- Applies a batch of changes: all files are extracted before anything is changed, and the index is
written to disk at the end. -/
def applyBatch (x : Indexer) (batch : List Change) : LiveAction Unit := do
  let s ← get
  let updates ← Action.read id fun _ =>
    batch.mapM (x.updateOf s.workspace.files s.live.index.root)
  updates.forM applyUpdate
  let index := (← get).live.index
  let _ ← LiveAction.indexing (x.persist index id)

/-- Replaces the live index by a full rebuild. -/
def rebuildLive (x : Indexer) : LiveAction Unit := do
  let index := (← get).live.index
  let rebuilt ← LiveAction.indexing (x.rebuild index.projectId index.root)
  let now := (← get).workspace.clock.now
  LiveAction.modify fun l =>
    { l with index := rebuilt, fullRebuilds := l.fullRebuilds + 1, lastUpdate := some now }

/-- Applies a batch of changes, or rebuilds the index if that fails, and says how many changes there
were. -/
def applyOrRebuild (x : Indexer) (batch : List Change) : LiveAction Nat := do
  match ← Action.attempt ((x.applyBatch batch).adapt IndexError.asIncremental) with
  | .ok _ =>
    let now := (← get).workspace.clock.now
    LiveAction.modify fun l =>
      { l with incrementalUpdates := l.incrementalUpdates + 1, lastUpdate := some now }
  | .error _ => x.rebuildLive
  return batch.length

/-- Applies one batch of the changes that have been quiet for long enough, and says how many there
were. -/
def processPending (x : Indexer) : LiveAction Nat := do
  let s ← get
  let (batch, queue) := s.live.queue.takeReady s.live.batchSize s.workspace.clock.milliseconds
  LiveAction.modify fun l => { l with queue }
  if batch.isEmpty then return 0 else x.applyOrRebuild batch

/-- Extracts files again without waiting; an empty list asks for a full rebuild. -/
def forceUpdate (x : Indexer) (paths : List String) : LiveAction Nat := do
  if paths.isEmpty then
    x.rebuildLive
    return 0
  else
    let paths := paths.map (← get).live.absolute
    LiveAction.modify fun l => { l with queue := paths.foldl ChangeQueue.remove l.queue }
    x.applyOrRebuild (paths.map fun p => ⟨p, .modified⟩)

end Indexer

end CodeAtlas
