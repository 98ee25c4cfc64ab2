import CodeAtlas.Files.Walk
import CodeAtlas.Index.Workspace

/-!
# Building and opening indexes

A full build lists the files of a project, puts together what is known about them, refills the
document service and writes the index to disk: first its snapshots, then its description.  A build
that is not forced is content with a description that is there already.

What was built can be loaded again; opening an index loads it, or builds it first.
-/

namespace CodeAtlas

/-- What a build came to. -/
inductive BuildOutcome where
  | success (projectId : String) (files symbols callEdges : Nat) (origins : List Origin)
    (buildMs : Nat)
  /-- The index was there already. -/
  | cached (metadata : IndexMetadata)
  | failed (cause : IndexError)
  deriving DecidableEq, Repr, Inhabited

namespace BuildOutcome

/-- The written form of an outcome. -/
def toJson : BuildOutcome → Json
  | .success projectId files symbols callEdges origins buildMs =>
    .obj [("status", .str "success"), ("project_id", .str projectId), ("total_files", .nat files),
      ("total_symbols", .nat symbols), ("total_call_edges", .nat callEdges),
      ("backends_used", .strings (origins.map Origin.name)), ("build_time_ms", .nat buildMs)]
  | .cached metadata => .obj [("status", .str "cached"), ("metadata", metadata.toJson)]
  | .failed cause => .obj [("status", .str "error"), ("message", .str cause.message)]

end BuildOutcome

/-- The documents of all symbols of an index. -/
def ProjectIndex.documents (x : ProjectIndex) : List SearchDocument :=
  x.symbols.toList.map (SearchDocument.ofSymbol x.projectId)

namespace Indexer

/-- Makes the index of a project from its files and refills the document service.  Nothing is
written to disk. -/
def assemble (x : Indexer) (projectId root : String) :
    IndexAction (ProjectIndex × List Origin) := do
  let files := (← get).files
  let paths := files.walk x.settings.indexing root
  let merged ← Action.read id fun w => w.files.merge x.measurer x.sources projectId root paths
  let index := ProjectIndex.ofMerged projectId root merged
  Workspace.ask (·.clear projectId)
  Workspace.ask (·.upsert index.documents)
  return (index, merged.origins)

/-- The description of an index in place of an older one. -/
def describe (index : ProjectIndex) (old : Option IndexMetadata) (now : Timestamp) :
    IndexMetadata :=
  let m := old.getD (IndexMetadata.new index.projectId index.root now)
  let stats := index.stats
  { m with projectPath := index.root }.withCounts stats.symbols stats.files stats.callEdges now

/-- Writes an index to disk, its description last; `change` completes the description. -/
def persist (x : Indexer) (index : ProjectIndex) (change : IndexMetadata → IndexMetadata) :
    IndexAction IndexMetadata := do
  let now := (← get).clock.now
  Workspace.storage ((x.directory.snapshots index.projectId).save index.snapshot index.graph)
  let old ← Workspace.storage (x.directory.get? index.projectId)
  let m := change (describe index old now)
  Workspace.storage (x.directory.save m)
  return m

/-- Builds an index anew and writes it to disk. -/
def rebuildWithMetadata (x : Indexer) (projectId root : String) :
    IndexAction (ProjectIndex × List Origin × IndexMetadata) := do
  let (index, origins) ← x.assemble projectId root
  let elapsed := (← get).clock.elapsedMs
  let m ← x.persist index fun m =>
    { m with origins := origins.map Origin.name, buildMs := elapsed }
  return (index, origins, m)

/-- Builds an index anew, writes it to disk and returns it. -/
def rebuild (x : Indexer) (projectId root : String) : IndexAction ProjectIndex := do
  return (← x.rebuildWithMetadata projectId root).1

/-- The description of an index that need not be built again. -/
def cached? (x : Indexer) (projectId : String) : IndexAction (Option IndexMetadata) := do
  if x.directory.exists? (← get).files projectId then
    Workspace.storage (x.directory.get? projectId)
  else return none

/-- Builds the index of the project with a given root, unless it is there and the build is not
forced. -/
def tryBuild (x : Indexer) (root : String) (force : Bool) : IndexAction BuildOutcome := do
  let (projectId, root) ← identify root
  let known ← if force then pure none else x.cached? projectId
  match known with
  | some metadata => return .cached metadata
  | none =>
    let (_, origins, m) ← x.rebuildWithMetadata projectId root
    return .success projectId m.fileCount m.symbolCount m.callEdgeCount origins m.buildMs

/-- Builds the index of a project; a failure is one of the outcomes. -/
def build (x : Indexer) (root : String) (force : Bool) : Action Workspace ε BuildOutcome := do
  match ← Action.attempt (x.tryBuild root force) with
  | .ok outcome => return outcome
  | .error cause => return .failed cause

/-- Reads an index from disk; none if it is not there. -/
def loadProject (x : Indexer) (projectId root : String) : IndexAction (Option ProjectIndex) := do
  if x.directory.exists? (← get).files projectId then
    let found ← Workspace.storage (x.directory.snapshots projectId).load
    return found.map fun (snapshot, graph) =>
      ProjectIndex.ofSnapshot projectId root snapshot graph
  else return none

/-- Reads the index of the project with a given root. -/
def load (x : Indexer) (root : String) : IndexAction (Option ProjectIndex) := do
  let (projectId, root) ← identify root
  x.loadProject projectId root

/-- Reads the index of a project, and builds it first if it is not there. -/
def openIndex (x : Indexer) (root : String) : IndexAction ProjectIndex := do
  let (projectId, root) ← identify root
  match ← x.loadProject projectId root with
  | some index => return index
  | none =>
    match ← x.build root true with
    | .failed cause => throw (.general cause.message)
    | _ =>
      match ← x.loadProject projectId root with
      | some index => return index
      | none => throw (.general ("index for '" ++ projectId ++ "' missing after build"))

end Indexer

end CodeAtlas
