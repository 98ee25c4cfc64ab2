import CodeAtlas.Graph.Codec
import CodeAtlas.Index.Project

/-!
# Snapshots as documents

The symbols of a snapshot must be given; the references and the files may be missing and are then
empty.  The counts of an index are written too, and never read.
-/

namespace CodeAtlas

/-- The written form of a snapshot. -/
def Snapshot.toJson (s : Snapshot) : Json :=
  .obj [("symbols", .arr (s.symbols.map Symbol.toJson)),
    ("calls", .arr (s.calls.map CallReference.toJson)), ("files", .strings s.files)]

/-- Reads a snapshot. -/
def Snapshot.ofJson? (j : Json) : Option Snapshot := do
  let ms ← j.record? ["symbols", "calls", "files"]
  let symbols ← Json.required? ms "symbols" (Json.listOf? Symbol.ofJson?)
  let calls ← Json.defaulted? ms "calls" (Json.listOf? CallReference.ofJson?) []
  let files ← Json.defaulted? ms "files" Json.strings? []
  return ⟨symbols, calls, files⟩

/-- The written form of the counts of an index. -/
def ProjectStats.toJson (s : ProjectStats) : Json :=
  .obj [("project_id", .str s.projectId), ("files", .nat s.files), ("symbols", .nat s.symbols),
    ("by_kind", .obj (s.byKind.map fun (kind, n) => (kind.name, .nat n))),
    ("call_edges", .nat s.callEdges), ("include_files", .nat s.includeFiles)]

end CodeAtlas
