import CodeAtlas.Logging
import CodeAtlas.Path
import CodeAtlas.Symbol.Kind

/-!
# Settings

What a user may decide about indexing: where indexes are kept, which files are indexed, how changes
are batched, which supplementary tools are asked and what is logged.  Every field has a default, and
a settings file or the environment may override any of them by itself.
-/

namespace CodeAtlas

/-- Which files are indexed, and on how many threads. -/
structure IndexingSettings where
  parallelThreads : Nat
  /-- Extensions without the dot, which are compared in either case. -/
  extensions : List String := ["c", "h", "cpp", "hpp", "cc", "cxx", "hh", "hxx"]
  ignorePatterns : List String := ["build/**", ".git/**", ".symgraph/**"]
  maxFileSize : Nat := 4 * 1024 * 1024
  deriving DecidableEq, Repr, Inhabited

/-- How changes are batched. -/
structure WatchSettings where
  debounceMs : Nat := 2000
  batchSize : Nat := 50
  tickMs : Nat := 500
  queueCapacity : Nat := 1024
  deriving DecidableEq, Repr, Inhabited

/-- Whether a supplementary tool is asked, and the command that starts it. -/
structure ToolSettings where
  enabled : Bool := false
  command : String
  deriving DecidableEq, Repr, Inhabited

/-- The supplementary tools. -/
structure ToolsSettings where
  ctags : ToolSettings := { command := "ctags" }
  cscope : ToolSettings := { command := "cscope" }
  clangd : ToolSettings := { command := "clangd" }
  deriving DecidableEq, Repr, Inhabited

/-- All settings. -/
structure Settings where
  version : Nat := 1
  indexPath : String := ".symgraph/index"
  /-- The directory in which the workspace directory lies. -/
  workspaceRoot : Option String := none
  indexing : IndexingSettings
  watch : WatchSettings := {}
  tools : ToolsSettings := {}
  logging : LogLevels := ⟨"warn", []⟩
  deriving DecidableEq, Repr, Inhabited

/-- Whether a path has one of the extensions that are indexed. -/
def IndexingSettings.accepts (s : IndexingSettings) (path : String) : Bool :=
  Path.hasExtension s.extensions path

/-- The supplementary tools that are asked, in the order in which they are asked. -/
def ToolsSettings.enabled (s : ToolsSettings) : List (Origin × String) :=
  [(.ctags, s.ctags), (.cscope, s.cscope), (.clangd, s.clangd)].filterMap fun (origin, tool) =>
    if tool.enabled then some (origin, tool.command) else none

namespace Settings

/-- The settings of a user who decided nothing, on a machine with the given number of threads. -/
def default (threads : Nat) : Settings := { indexing := { parallelThreads := threads } }

/-- The directory that holds the state of a workspace. -/
def workspaceDirectory : String := ".symgraph"

/-- The file that lists further exclusions. -/
def ignoreFileName : String := ".symgraphignore"

/-- The directory of the indexes: a relative one lies in the workspace root. -/
def resolvedIndexPath (s : Settings) : String :=
  match s.workspaceRoot with
  | some root => Path.join root s.indexPath
  | none => s.indexPath

end Settings

end CodeAtlas
