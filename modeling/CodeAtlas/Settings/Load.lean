import CodeAtlas.Settings.Codec
import CodeAtlas.Settings.Environment
import CodeAtlas.Storage.Document
import CodeAtlas.Toml.Parser

/-!
# Where settings come from

Settings are read from a file and from the environment, over the defaults.  The file is the one the
user names, or the one in the workspace directory of the nearest directory upward that has one;
that directory is then the workspace root.

A workspace is set up by writing the defaults and a list of exclusions into its directory.
-/

namespace CodeAtlas

/-- What settings depend on besides files: the variables of the environment and the number of
threads of the machine. -/
structure Machine where
  environment : Environment.Variables := []
  threads : Nat := 1
  deriving Inhabited

namespace Settings

/-- The place of the settings file in a workspace root. -/
def fileBelow (root : String) : String :=
  Path.join (Path.join root workspaceDirectory) "settings.toml"

/-- The directories from a place upward. -/
def upward (place : Place) : List Place :=
  (List.range (place.length + 1)).map fun n => place.take (place.length - n)

/-- The file that a path names.  A relative path is looked for from the working directory upward. -/
def findFile? (t : FileTree) (path : String) : Option String :=
  let candidates :=
    if Path.isAbsolute path then [path]
    else (upward t.workingDirectory).map fun d => Path.join (FileTree.pathOf d) path
  candidates.find? t.isFile

/-- The layer of a settings file, which is empty if there is no file. -/
def fileLayer (t : FileTree) (path : String) : Except ConfigError ConfigValue :=
  match findFile? t path with
  | none => .ok (.table [])
  | some file =>
    match ((t.readText file).toOption).bind Toml.parse? with
    | some v => .ok v
    | none => .error ⟨.malformed, []⟩

/-- Settings from a given file and the environment. -/
def loadFrom (t : FileTree) (machine : Machine) (path : String) : Except ConfigError Settings := do
  let file ← fileLayer t path
  ofLayers machine.threads [file, Environment.layer machine.environment]

/-- The nearest directory upward that has a workspace directory. -/
def findRoot? (t : FileTree) : Option String :=
  ((upward t.workingDirectory).map FileTree.pathOf).find? fun d =>
    t.isDirectory (Path.join d workspaceDirectory)

/-- Settings from the workspace and the environment. -/
def load (t : FileTree) (machine : Machine) : Except ConfigError Settings := do
  let root := findRoot? t
  let s ← loadFrom t machine (fileBelow (root.getD ""))
  return { s with workspaceRoot := s.workspaceRoot.orElse fun _ => root }

/-- The exclusions that a new workspace begins with. -/
def defaultExclusions : String :=
  "# symgraph ignore patterns (gitignore syntax)\n\n" ++
  "# Build artifacts\nbuild/\nout/\ncmake-build-*/\n*.o\n*.a\n*.so\n\n" ++
  "# Third-party trees\nthird_party/\nvendor/\n\n" ++
  "# symgraph's own directory\n.symgraph/\n"

/-- Writes a text into a file. -/
def writeText (path text : String) : FileAction OsError Unit :=
  Action.change id (·.write path ⟨text.toUTF8, none⟩)

/-- Writes settings into a file, whose directory is made if it is missing. -/
def save (s : Settings) (path : String) : FileAction OsError Unit := do
  FileTree.makeDirectories ((Path.parent? path).getD "")
  writeText path s.toToml

/-- What is said when a workspace is there already. -/
def alreadyThere : OsError :=
  .other "Configuration file already exists. Use --force to overwrite"

/-- Sets up a workspace in a directory and returns the path of its settings file. -/
def setUp (threads : Nat) (root : String) (force : Bool) : FileAction OsError String := do
  let file := fileBelow root
  if !force && (← get).exists? file then throw alreadyThere
  save { Settings.default threads with workspaceRoot := some root } file
  let exclusions := Path.join root ignoreFileName
  if force || !(← get).exists? exclusions then writeText exclusions defaultExclusions
  return file

end Settings

end CodeAtlas
