import CodeAtlas.Symbol.Codec
import CodeAtlas.Timestamp

/-!
# What is known about an index without opening it

Beside the snapshots of a project stands a small document with its path, the counts of its index,
the methods that contributed to it and two points in time.  A project counts as indexed when this
document is there.
-/

namespace CodeAtlas

/-- The description of an index. -/
structure IndexMetadata where
  version : Nat
  projectId : String
  projectPath : String
  symbolCount : Nat := 0
  fileCount : Nat := 0
  callEdgeCount : Nat := 0
  /-- The names of the methods that contributed. -/
  origins : List String := []
  buildMs : Nat := 0
  created : Timestamp
  updated : Timestamp
  deriving DecidableEq, Repr, Inhabited

namespace IndexMetadata

/-- The version of the form in which descriptions are written. -/
def currentVersion : Nat := 1

/-- The description of an index that holds nothing yet. -/
def new (projectId projectPath : String) (now : Timestamp) : IndexMetadata where
  version := currentVersion
  projectId := projectId
  projectPath := projectPath
  created := now
  updated := now

/-- Puts the counts of an index into its description. -/
def withCounts (m : IndexMetadata) (symbols files edges : Nat) (now : Timestamp) :
    IndexMetadata :=
  { m with symbolCount := symbols, fileCount := files, callEdgeCount := edges, updated := now }

/-- The written form of a description. -/
def toJson (m : IndexMetadata) : Json :=
  .obj [("version", .nat m.version), ("project_id", .str m.projectId),
    ("project_path", .str m.projectPath), ("symbol_count", .nat m.symbolCount),
    ("file_count", .nat m.fileCount), ("call_edge_count", .nat m.callEdgeCount),
    ("backends_used", .strings m.origins), ("build_time_ms", .nat m.buildMs),
    ("created_at", .str m.created.toText), ("updated_at", .str m.updated.toText)]

/-- The names of the fields of a description. -/
def fieldNames : List String :=
  ["version", "project_id", "project_path", "symbol_count", "file_count", "call_edge_count",
    "backends_used", "build_time_ms", "created_at", "updated_at"]

/-- Reads a description. -/
def ofJson? (j : Json) : Option IndexMetadata := do
  let ms ← j.record? fieldNames
  let version ← Json.required? ms "version" (Json.natBelow? (wordValues 32))
  let projectId ← Json.required? ms "project_id" Json.text?
  let projectPath ← Json.required? ms "project_path" Json.text?
  let symbolCount ← Json.required? ms "symbol_count" Json.count?
  let fileCount ← Json.required? ms "file_count" Json.count?
  let callEdgeCount ← Json.required? ms "call_edge_count" Json.count?
  let origins ← Json.defaulted? ms "backends_used" Json.strings? []
  let buildMs ← Json.defaulted? ms "build_time_ms" Json.count? 0
  let time (j : Json) : Option Timestamp := j.text?.bind Timestamp.ofText?
  let created ← Json.required? ms "created_at" time
  let updated ← Json.required? ms "updated_at" time
  return ⟨version, projectId, projectPath, symbolCount, fileCount, callEdgeCount, origins, buildMs,
    created, updated⟩

end IndexMetadata

end CodeAtlas
