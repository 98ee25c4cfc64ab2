import CodeAtlas.Graph.CallGraph
import CodeAtlas.Json.Basic
import CodeAtlas.Settings.Basic

/-!
# Commands

What a user can ask for on the command line.  An invocation is a command together with what holds
for every command: a settings file to read instead of the one of the workspace, the project that is
meant, and whether the answer is wanted as JSON.
-/

namespace CodeAtlas

/-- The two ways to go along a call. -/
inductive CallDirection where
  | callers
  | callees
  deriving DecidableEq, Repr, Inhabited

/-- A command. -/
inductive Command where
  /-- Sets up the workspace directory. -/
  | setUp (force : Bool)
  /-- Builds the index of a project. -/
  | index (path : Option String) (force : Bool) (threads : Option Nat)
  /-- Keeps the index of a project up to date until it is told to stop. -/
  | watch (path : Option String)
  /-- Finds the symbols of a name. -/
  | find (name : String)
  /-- Lists symbols, of one kind or of all; a limit of zero is none. -/
  | list (kind : Option SymbolKind) (limit : Nat)
  /-- Follows the calls from a symbol, which is given by its identifier or its name. -/
  | calls (direction : CallDirection) (target : String) (depth : Nat)
  /-- Counts the symbols of a project. -/
  | stats
  /-- Lists what files include. -/
  | includes (file : Option String)
  /-- Lists the projects that are indexed. -/
  | projects
  /-- Removes the index of a project, what is left over of indexes, or all indexes. -/
  | clean (projectId : Option String) (orphans all : Bool)
  /-- Shows the settings that hold. -/
  | settings
  deriving DecidableEq, Repr, Inhabited

namespace Command

/-- The number of symbols that are listed where nothing else is said. -/
def defaultLimit : Nat := 50

/-- The word that names a command. -/
def name : Command → String
  | .setUp .. => "init"
  | .index .. => "index"
  | .watch .. => "watch"
  | .find .. => "find"
  | .list .. => "list"
  | .calls .callers .. => "callers"
  | .calls .callees .. => "callees"
  | .stats => "stats"
  | .includes .. => "includes"
  | .projects => "projects"
  | .clean .. => "clean"
  | .settings => "config"

/-- The root of a project that a command names by itself. -/
def path? : Command → Option String
  | .index path .. => path
  | .watch path => path
  | _ => none

/-- The arguments of a command by their names. -/
def arguments : Command → List (String × Json)
  | .setUp force => [("force", .bool force)]
  | .index path force threads =>
    [("path", .optionalText path), ("force", .bool force),
      ("threads", (threads.map Json.nat).getD .null)]
  | .watch path => [("path", .optionalText path)]
  | .find name => [("symbol", .str name)]
  | .list kind limit =>
    [("kind", .optionalText (kind.map SymbolKind.name)), ("limit", .nat limit)]
  | .calls _ target depth => [("symbol", .str target), ("depth", .nat depth)]
  | .includes file => [("file", .optionalText file)]
  | .clean projectId orphans all =>
    [("project_id", .optionalText projectId), ("orphans", .bool orphans), ("all", .bool all)]
  | .stats => []
  | .projects => []
  | .settings => []

/-- A command as a JSON object. -/
def toJson (c : Command) : Json := .obj (("name", .str c.name) :: c.arguments)

end Command

/-- A command and what holds for every command. -/
structure Invocation where
  settingsFile : Option String := none
  project : Option String := none
  json : Bool := false
  command : Command
  deriving DecidableEq, Repr, Inhabited

/-- The root of the project that is meant: the one that the command names, else the one that holds
for every command, else the workspace root, else the working directory. -/
def Invocation.root (i : Invocation) (s : Settings) : String :=
  (i.command.path?.orElse fun _ => i.project.orElse fun _ => s.workspaceRoot).getD "."

/-- An invocation as a JSON object. -/
def Invocation.toJson (i : Invocation) (s : Settings) : Json :=
  .obj [("config", .optionalText i.settingsFile), ("project", .optionalText i.project),
    ("json", .bool i.json), ("command", i.command.toJson), ("root", .str (i.root s))]

/-- Why arguments are no invocation. -/
inductive UsageError where
  /-- An option stands without its value, or an empty path was given. -/
  | missingValue
  /-- A value is not of the form that is asked for. -/
  | invalidValue
  /-- A value was given to an option that takes none. -/
  | unwantedValue
  | unknownArgument
  | unknownCommand
  /-- There are options but no command. -/
  | missingCommand
  /-- The command needs an argument that was not given. -/
  | missingArgument
  /-- Two arguments exclude each other, or one stands twice. -/
  | conflict
  /-- There are no arguments at all. -/
  | nothingAsked
  /-- The user asks for help. -/
  | helpWanted
  /-- The user asks for the version. -/
  | versionWanted
  deriving DecidableEq, Repr, Inhabited

end CodeAtlas
