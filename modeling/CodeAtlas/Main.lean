import CodeAtlas.Command.Run
import CodeAtlas.Files.Layout
import CodeAtlas.SyntaxTree.Codec

/-!
# The program

The outer layer: files on disk are read into a tree of files, the command line is run on it, and
what has changed is written back.  Nothing is decided here.

Syntax trees do not lie beside the sources.  A parser leaves them in the document `trees.json` of
the workspace directory, an object that maps the path of a file, seen from the workspace root, to
the list of its nodes in preorder.  A file without a tree is indexed as one that could not be
parsed.
-/

open CodeAtlas

namespace CodeAtlas.Program

/-- The name of the document with the syntax trees. -/
def treesName : String := "trees.json"

/-- The files beside sources that say what is left out. -/
def exclusionNames : List String :=
  [".gitignore", ".ignore", Settings.ignoreFileName, ".git/info/exclude"]

/-- What an action gives, or something else where it fails. -/
def insteadOf (other : α) (a : IO α) : IO α := do
  try a catch _ => return other

/-- The value of a document; an empty object if there is none. -/
def readJson (path : String) : IO Json := do
  let text ← insteadOf "" (IO.FS.readFile path)
  return (Json.parse? text).getD (.obj [])

/-- Reads a file into a tree, with its syntax tree if there is one below the root. -/
def readFile (root : String) (trees : Json) (t : FileTree) (path : String) : IO FileTree :=
  insteadOf t do
    let bytes ← IO.FS.readBinFile path
    let tree := (trees.get? (Path.relative root path)).bind
      (SyntaxNode.ofJson? (Text.decodeLossy bytes))
    return t.withFile path ⟨bytes, tree⟩

/-- Reads all that lies below a directory into a tree. -/
partial def readBelow (root : String) (trees : Json) (t : FileTree) (path : String) :
    IO FileTree :=
  insteadOf t do
    let directory ← IO.FS.realPath path
    (← directory.readDir).foldlM (fun t entry => do
      let path := entry.path.toString
      match (← entry.path.symlinkMetadata).type with
      | .dir => readBelow root trees (t.withDirectory path) path
      | .file => readFile root trees t path
      | .symlink => do return t.withLink path (← IO.FS.realPath path).toString
      | .other => return t) (t.withDirectory directory.toString)

/-- Reads a directory, and what the directories above it say about settings and exclusions. -/
def readAround (t : FileTree) (path : String) : IO FileTree :=
  insteadOf t do
    let directory := (← IO.FS.realPath path).toString
    let t := t.withDirectory directory
    let above := FileTree.pathsUpward directory
    let t ← above.foldlM (fun t d => do
      let t ← exclusionNames.foldlM (fun t name => readFile d .null t (Path.join d name)) t
      readBelow d .null t (Path.join d Settings.workspaceDirectory)) t
    let root := (Settings.findRoot? (t.enter directory)).getD directory
    let trees ← readJson (Path.join (Path.join root Settings.workspaceDirectory) treesName)
    readBelow root trees t directory

/-- Reads what an invocation can be about. -/
def readFiles (machine : Machine) (arguments : List String) : IO FileTree := do
  let here := (← IO.currentDir).toString
  let t ← readAround .empty here
  let t := t.enter here
  match Invocation.ofArguments arguments with
  | .error _ => return t
  | .ok i => do
    let t ← match i.settingsFile with
      | some file => readFile here .null t (Path.join here file)
      | none => pure t
    let settings := match CommandLine.settingsOf i t machine with
      | .ok (s, _) => s
      | .error _ => Settings.default machine.threads
    let t ← readAround t (i.root settings)
    readBelow here .null t settings.resolvedIndexPath

/-- Whether two entries are the same for whoever reads the disk. -/
def sameEntry : FileEntry → FileEntry → Bool
  | .file a, .file b => a.bytes == b.bytes
  | .directory, .directory => true
  | .link a, .link b => a == b
  | _, _ => false

/-- Writes what is new or has changed, and removes what is gone. -/
def writeBack (before after : FileTree) : IO Unit := do
  for (place, e) in after.entries.toList do
    unless (before.entry? place).any (sameEntry e) do
      match e with
      | .directory => IO.FS.createDirAll (FileTree.pathOf place)
      | .file content => do
        IO.FS.createDirAll (FileTree.pathOf place.dropLast)
        IO.FS.writeBinFile (FileTree.pathOf place) content.bytes
      | .link _ => return
  for (place, e) in before.entries.toList.reverse do
    if (after.entry? place).isNone then
      match e with
      | .directory => IO.FS.removeDir (FileTree.pathOf place)
      | _ => IO.FS.removeFile (FileTree.pathOf place)

/-- The variables of the environment and the number of threads, as the system tells them. -/
def readMachine : IO Machine := do
  let bytes ← insteadOf ByteArray.empty (IO.FS.readBinFile "/proc/self/environ")
  let environment := (Text.splitAt '\x00' (Text.decodeLossy bytes)).filterMap fun line =>
    (splitOnce? '=' line.toList).map fun (name, value) =>
      (String.ofList name, String.ofList value)
  let processors ← insteadOf "" (IO.FS.readFile "/proc/cpuinfo")
  let threads := (Text.lines processors).countP (Text.startsWith "processor")
  return { environment, threads := max threads 1 }

/-- The time at which the program was started. -/
def readClock : IO Clock :=
  insteadOf {} do
    let modified := (← (← IO.FS.realPath "/proc/self").metadata).modified
    return { now := ⟨modified.sec, modified.nsec.toNat⟩ }

/-- Reads lines up to one that asks to stop. -/
partial def readInput (input : IO.FS.Stream) : IO (List String) := do
  let line ← input.getLine
  if line.isEmpty then return []
  else if Command.isStopLine line then return [line]
  else return line :: (← readInput input)

/-- The lines that a command waits for. -/
def inputFor (arguments : List String) : IO (List String) := do
  match Invocation.ofArguments arguments with
  | .ok { command := .watch _, .. } => readInput (← IO.getStdin)
  | _ => return []

end CodeAtlas.Program

open CodeAtlas.Program in
/-- Runs a command line on the files of the disk. -/
def main (arguments : List String) : IO UInt32 := do
  let machine ← readMachine
  let files ← readFiles machine arguments
  let input ← inputFor arguments
  let workspace : Workspace := { files, clock := ← readClock }
  let (outcome, after) := CommandLine.run machine arguments input workspace
  writeBack files after.files
  IO.print outcome.output
  for line in outcome.complaints do
    IO.eprintln line
  return outcome.exitCode
