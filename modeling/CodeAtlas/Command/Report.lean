import CodeAtlas.Command.Basic
import CodeAtlas.Index.Build

/-!
# Reports

What commands say about symbols, indexes and projects.  A report is a list of lines; where a user
asks for JSON, the same is said by a JSON value instead.
-/

namespace CodeAtlas

/-- The file and line of a symbol. -/
def Symbol.placeText (s : Symbol) : String := s.file ++ ":" ++ toString s.line.toNat

/-- The line of a listing that stands for a symbol. -/
def Symbol.reportLine (s : Symbol) : String :=
  Text.padRight 10 s.kind.name ++ " " ++ Text.padRight 32 s.name ++ " " ++ s.placeText ++ "  [" ++
    s.id.text ++ "]"

namespace Report

/-- A listing of symbols. -/
def symbols (found : List Symbol) : List String :=
  if found.isEmpty then ["No symbols found"] else found.map Symbol.reportLine

/-- A listing of symbols as JSON. -/
def symbolsToJson (found : List Symbol) : Json := .arr (found.map Symbol.toJson)

end Report

/-- What is found by following the calls from a symbol. -/
structure CallReport where
  target : Symbol
  depth : Nat
  found : List Symbol
  deriving Inhabited

namespace CallReport

/-- The words before the name of the target. -/
def label : CallDirection → String
  | .callers => "Callers of"
  | .callees => "Callees of"

/-- The lines of a report. -/
def lines (direction : CallDirection) (r : CallReport) : List String :=
  (label direction ++ " " ++ r.target.name ++ " (" ++ r.target.placeText ++ ", depth " ++
    toString r.depth ++ "):") :: Report.symbols r.found

/-- A report as JSON. -/
def toJson (r : CallReport) : Json :=
  .obj [("target", r.target.toJson), ("depth", .nat r.depth),
    ("results", Report.symbolsToJson r.found)]

/-- The lines of the reports on all symbols that a text means. -/
def allLines (direction : CallDirection) (target : String) (reports : List CallReport) :
    List String :=
  if reports.isEmpty then ["No symbol matching '" ++ target ++ "'"]
  else reports.flatMap (lines direction)

end CallReport

/-- What is found by following the calls from all symbols that a text means. -/
def ProjectIndex.callReports (x : ProjectIndex) (direction : CallDirection) (target : String)
    (depth : Nat) : List CallReport :=
  (x.resolveTarget target).filterMap fun id =>
    (x.get? id).map fun s =>
      ⟨s, depth, match direction with
        | .callers => x.callers id depth
        | .callees => x.callees id depth⟩

/-- The symbols of a kind by name, or all symbols by file and line; a limit of zero is none. -/
def ProjectIndex.listing (x : ProjectIndex) (kind : Option SymbolKind) (limit : Nat) :
    List Symbol :=
  match kind with
  | some kind => x.symbols.listByKind kind limit
  | none =>
    let all := Symbol.sortBy Symbol.compareByPlace
      (SymbolKind.all.flatMap fun kind => x.symbols.listByKind kind 0)
    if limit = 0 then all else all.take limit

/-- The includes of all files, or of one. -/
def ProjectIndex.includesOf (x : ProjectIndex) (file : Option String) :
    List (String × List String) :=
  x.graph.includes.toList.filter fun (name, _) => file.all (· = name)

namespace Report

/-- A listing of includes. -/
def includes (found : List (String × List String)) : List String :=
  found.flatMap fun (file, targets) => file :: targets.map ("  -> " ++ ·)

/-- A listing of includes as JSON. -/
def includesToJson (found : List (String × List String)) : Json :=
  .obj (found.map fun (file, targets) => (file, .strings targets))

/-- A listing of projects. -/
def projects (found : List IndexMetadata) : List String :=
  if found.isEmpty then ["No indexed projects"]
  else found.map fun m =>
    Text.padRight 24 m.projectId ++ " " ++ Text.padLeft 8 (toString m.symbolCount) ++ " symbols " ++
      Text.padLeft 6 (toString m.fileCount) ++ " files  updated " ++ m.updated.dateText ++ " " ++
      m.updated.timeText ++ "  " ++ m.projectPath

end Report

/-- The lines of the counts of an index. -/
def ProjectStats.lines (s : ProjectStats) : List String :=
  ["Project: " ++ s.projectId, "  files:       " ++ toString s.files,
    "  symbols:     " ++ toString s.symbols] ++
  (s.byKind.map fun (kind, n) => "    " ++ Text.padRight 10 kind.name ++ " " ++ toString n) ++
  ["  call edges:  " ++ toString s.callEdges, "  with includes: " ++ toString s.includeFiles]

/-- The lines on what a build came to.  A failure is said elsewhere. -/
def BuildOutcome.lines : BuildOutcome → List String
  | .success projectId files symbols callEdges origins buildMs =>
    ["Indexed project '" ++ projectId ++ "' in " ++ toString buildMs ++ "ms",
      "  files:      " ++ toString files, "  symbols:    " ++ toString symbols,
      "  call edges: " ++ toString callEdges,
      "  backends:   " ++ ", ".intercalate (origins.map Origin.name)]
  | .cached m =>
    ["Index for '" ++ m.projectId ++ "' is up to date (" ++ toString m.symbolCount ++
      " symbols, " ++ toString m.fileCount ++ " files). Use --force to rebuild."]
  | .failed _ => []

end CodeAtlas
