import CodeAtlas.Index.Snapshot
import CodeAtlas.Storage.Document

/-!
# The snapshots of a project on disk

The data directory of a project holds two documents: its symbols with the calls and files, and its
call graph.  They are written one after the other, the symbols first.
-/

namespace CodeAtlas

/-- The data directory of a project. -/
structure SnapshotDirectory where
  path : String
  deriving DecidableEq, Repr, Inhabited

namespace SnapshotDirectory

/-- The document of the symbols. -/
def symbolsPath (d : SnapshotDirectory) : String := Path.join d.path "symbols.json"

/-- The document of the call graph. -/
def graphPath (d : SnapshotDirectory) : String := Path.join d.path "call_graph.json"

/-- Writes both documents. -/
def save (d : SnapshotDirectory) (snapshot : Snapshot) (graph : CallGraph) :
    StorageAction Unit := do
  Storage.makeDirectories d.path
  Storage.writeDocument d.symbolsPath snapshot.toJson
  Storage.writeDocument d.graphPath graph.toJson

/-- Whether both documents are there. -/
def exists? (d : SnapshotDirectory) (t : FileTree) : Bool :=
  t.isFile d.symbolsPath && t.isFile d.graphPath

/-- Reads the call graph. -/
def loadGraph (d : SnapshotDirectory) : StorageAction CallGraph :=
  Storage.readDocument d.graphPath CallGraph.ofJson?

/-- Reads both documents; none if one of them is missing. -/
def load (d : SnapshotDirectory) : StorageAction (Option (Snapshot × CallGraph)) := do
  if d.exists? (← get) then
    let snapshot ← Storage.readDocument d.symbolsPath Snapshot.ofJson?
    let graph ← d.loadGraph
    return some (snapshot, graph)
  else return none

/-- Removes the directory. -/
def clear (d : SnapshotDirectory) : StorageAction Unit := do
  if (← get).exists? d.path then Storage.removeDirectory d.path

end SnapshotDirectory

end CodeAtlas
