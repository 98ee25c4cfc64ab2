import CodeAtlas.Command.Arguments
import CodeAtlas.Command.Report
import CodeAtlas.Index.Live
import CodeAtlas.Settings.Load

/-!
# Running commands

A command reads and changes the files of a workspace, says something, and may fail.  What it said
before it failed stays said, and the reason of the failure follows.

Arguments that are no invocation are answered before anything is read; so are settings that cannot
be read from a file that the user names.  Settings of the workspace that cannot be read are replaced
by the defaults.
-/

namespace CodeAtlas

/-- What a command works with. -/
structure Session where
  workspace : Workspace
  machine : Machine := {}
  /-- The lines that the user types. -/
  input : List String := []
  /-- What was said so far. -/
  output : String := ""
  deriving Inhabited

/-- An action of a command. -/
abbrev CommandAction (α : Type) := Action Session IndexError α

namespace CommandAction

/-- An action on the workspace as one of a command. -/
def indexing (a : IndexAction α) : CommandAction α :=
  a.within Session.workspace fun s w => { s with workspace := w }

/-- An action of the store as one of a command. -/
def storage (a : StorageAction α) : CommandAction α := indexing (Workspace.storage a)

/-- Says a text and ends the line. -/
def say (text : String) : CommandAction Unit :=
  modify fun s => { s with output := s.output ++ text ++ "\n" }

/-- Says lines, or the same as JSON. -/
def report (json : Bool) (document : Json) (lines : List String) : CommandAction Unit :=
  if json then say document.pretty else lines.forM say

end CommandAction

open CommandAction

/-- A supplementary tool that is not installed. -/
def SymbolSource.missing (origin : Origin) : SymbolSource where
  origin := origin
  isAvailable := false
  extract := fun _ _ => .error (.toolUnavailable origin.name OsError.notFound.message)

/-- The indexer of settings.  The commands of tools are not started from here, so the tools that the
settings enable count as not installed. -/
def Indexer.ofSettings (settings : Settings) : Indexer where
  settings := settings
  sources := settings.tools.enabled.map fun (origin, _) => SymbolSource.missing origin

namespace Command

/-- Sets up the working directory as a workspace. -/
def runSetUp (force : Bool) : CommandAction Unit := do
  let s ← get
  let files := s.workspace.files
  let root := FileTree.pathOf files.workingDirectory
  let setUp : IndexAction String :=
    ((Settings.setUp s.machine.threads root force).adapt fun e =>
      IndexError.configuration e.message).within Workspace.files fun w t => { w with files := t }
  say ("Created configuration file at: " ++ (← indexing setUp))
  say "Edit this file to customize your settings."

/-- Builds the index of a project. -/
def runIndex (x : Indexer) (root : String) (force json : Bool) : CommandAction Unit := do
  let outcome ← indexing (x.build root force)
  report json outcome.toJson outcome.lines
  match outcome with
  | .failed cause => throw (.general cause.message)
  | _ => return

/-- Whether a line asks to stop watching. -/
def isStopLine (line : String) : Bool := ["q", "quit", "exit"].contains (Text.trim line)

/-- Watches a project until a line asks to stop or there are no more lines.  A change can be seen
only while the files change, so the index that is opened is the one that is left. -/
def runWatch (x : Indexer) (root : String) : CommandAction Unit := do
  let index ← indexing (x.openIndex root)
  let (started, live) := (LiveIndex.ofIndex x.settings.watch index).start (← get).workspace.files
  if !started then throw (.watch ("could not watch " ++ root))
  say ("Watching " ++ live.index.root ++ " (type q and Enter, or Ctrl+D, to stop)")
  modify fun s => { s with input := (s.input.dropWhile fun line => !isStopLine line).drop 1 }
  say ("Stopped watching " ++ live.stop.index.root)

/-- Reports on the index of a project. -/
def runQuery (x : Indexer) (root : String) (json : Bool) (document : ProjectIndex → Json)
    (lines : ProjectIndex → List String) : CommandAction Unit := do
  let index ← indexing (x.openIndex root)
  report json (document index) (lines index)

/-- Lists the projects that are indexed. -/
def runProjects (d : IndexDirectory) (json : Bool) : CommandAction Unit := do
  let found ← storage d.list
  report json (.arr (found.map IndexMetadata.toJson)) (Report.projects found)

/-- Removes what is left over of indexes. -/
def runCleanup (d : IndexDirectory) : CommandAction Unit := do
  let removed ← storage d.cleanup
  say ("Removed " ++ toString removed.length ++ " orphaned entries")
  removed.forM fun id => say ("  " ++ id)

/-- Removes the index of one project: that of the identifier, or that of the root. -/
def runDelete (d : IndexDirectory) (projectId : Option String) (root : String) :
    CommandAction Unit := do
  let id ← match projectId with
    | some id => pure id
    | none => do pure (← indexing (Indexer.identify root)).1
  let existed ← storage (d.delete id)
  say ((if existed then "Removed index for '" else "No index for '") ++ id ++ "'")

end Command

namespace Invocation

/-- Runs a command with settings. -/
def run (i : Invocation) (settings : Settings) : CommandAction Unit :=
  let x := Indexer.ofSettings settings
  let root := i.root settings
  let query := Command.runQuery x root i.json
  match i.command with
  | .setUp force => Command.runSetUp force
  | .settings => say (if i.json then settings.toJson.pretty else settings.toToml)
  | .index _ force threads =>
    let indexing : IndexingSettings :=
      { settings.indexing with
        parallelThreads := threads.getD settings.indexing.parallelThreads }
    Command.runIndex (Indexer.ofSettings { settings with indexing }) root force i.json
  | .watch _ => Command.runWatch x root
  | .find name =>
    query (fun index => Report.symbolsToJson (index.symbols.findByName name))
      fun index => Report.symbols (index.symbols.findByName name)
  | .list kind limit =>
    query (fun index => Report.symbolsToJson (index.listing kind limit))
      fun index => Report.symbols (index.listing kind limit)
  | .calls direction target depth =>
    query (fun index => .arr ((index.callReports direction target depth).map CallReport.toJson))
      fun index => CallReport.allLines direction target (index.callReports direction target depth)
  | .stats => query (fun index => index.stats.toJson) fun index => index.stats.lines
  | .includes file =>
    query (fun index => Report.includesToJson (index.includesOf file))
      fun index => Report.includes (index.includesOf file)
  | .projects => Command.runProjects x.directory i.json
  | .clean projectId orphans all =>
    if orphans then Command.runCleanup x.directory
    else if all then do
      let count ← storage x.directory.clear
      say ("Removed " ++ toString count ++ " projects")
    else Command.runDelete x.directory projectId root

/-- Whether a command does without settings. -/
def isSetUp (i : Invocation) : Bool :=
  match i.command with
  | .setUp _ => true
  | _ => false

end Invocation

/-- What a command line comes to. -/
structure CommandOutcome where
  exitCode : UInt32 := 0
  output : String := ""
  /-- What is said about failures, line by line. -/
  complaints : List String := []
  deriving Inhabited

namespace CommandLine

/-- The name and the version of the program. -/
def version : String := "symgraph 0.3.0"

/-- How the program is used. -/
def help : String :=
  "Symbol table and call graph for C/C++ trees, no build required\n\n" ++
  "Usage: symgraph [OPTIONS] <COMMAND>\n\nCommands:\n" ++
  String.join (Invocation.topRules.commands.map fun name => "  " ++ name ++ "\n")

/-- What arguments that are no invocation come to. -/
def refusal : UsageError → CommandOutcome
  | .helpWanted => { output := help }
  | .versionWanted => { output := version ++ "\n" }
  | _ => { exitCode := 2, complaints := [help] }

/-- What is said when the settings of the workspace are not used. -/
def defaultsUsed : String := "Using default configuration for now."

/-- The settings of an invocation and what is said about them. -/
def settingsOf (i : Invocation) (files : FileTree) (machine : Machine) :
    Except String (Settings × List String) :=
  match i.settingsFile with
  | some path =>
    match Settings.loadFrom files machine path with
    | .ok s => .ok (s, [])
    | .error _ => .error ("Failed to load configuration from " ++ path)
  | none =>
    match Settings.load files machine with
    | .ok s => .ok (s, [])
    | .error _ =>
      .ok (Settings.default machine.threads, if i.isSetUp then [] else [defaultsUsed])

/-- The line that says why the program ends. -/
def failureLine (message : String) : String := "Error: " ++ message

/-- Runs a command line. -/
def run (machine : Machine) (arguments input : List String) (w : Workspace) :
    CommandOutcome × Workspace :=
  match Invocation.ofArguments arguments with
  | .error e => (refusal e, w)
  | .ok i =>
    match settingsOf i w.files machine with
    | .error message => ({ exitCode := 1, complaints := [failureLine message] }, w)
    | .ok (settings, complaints) =>
      match (i.run settings).runOn { workspace := w, machine, input } with
      | (.ok _, s) => ({ output := s.output, complaints }, s.workspace)
      | (.error e, s) =>
        ({ exitCode := 1, output := s.output,
           complaints := complaints ++ [failureLine e.message] }, s.workspace)

end CommandLine

end CodeAtlas
