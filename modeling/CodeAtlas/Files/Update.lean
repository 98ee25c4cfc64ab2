import CodeAtlas.Action
import CodeAtlas.Files.Basic

/-!
# Changing a tree of files

Writing, renaming and removing files and directories.  An operation on one entry gives the changed
tree or the reason why nothing was changed; an operation that takes several steps may fail after
some of them, so it is an action on the tree, and what it did before it failed stays done.
-/

namespace CodeAtlas

/-- An action on a tree of files. -/
abbrev FileAction (ε α : Type) := Action FileTree ε α

namespace FileTree

/-- Writes a file, in place of the file that stands at the path. -/
def write (t : FileTree) (path : String) (content : FileContent) : Except OsError FileTree :=
  match t.locate path with
  | .error e => .error e
  | .ok place =>
    match t.entry? place with
    | some .directory => .error .isADirectory
    | _ => .ok (t.put place (.file content))

/-- Puts a finished file at a path by renaming it: a file or link that stands there is replaced in
one step, a directory is not. -/
def replace (t : FileTree) (path : String) (content : FileContent) : Except OsError FileTree :=
  match t.locate path false with
  | .error e => .error e
  | .ok place =>
    match t.entry? place with
    | some .directory => .error .isADirectory
    | _ => .ok (t.put place (.file content))

/-- Makes a directory where nothing stands. -/
def makeDirectory (t : FileTree) (path : String) : Except OsError FileTree :=
  match t.locate path false with
  | .error e => .error e
  | .ok place =>
    match t.entry? place with
    | some _ => .error .exists
    | none => .ok (t.put place .directory)

/-- Makes the first of several directories, and the next ones before it where that one is missing.
A directory that is there already is what was asked for. -/
def makeFirst : List String → FileAction OsError Unit
  | [] => return
  | path :: parents => do
    let make : FileAction OsError Unit := do
      let t ← get
      match t.makeDirectory path with
      | .ok t => set t
      | .error e => if t.isDirectory path then return else throw e
    match (← get).makeDirectory path with
    | .error .notFound =>
      makeFirst parents
      make
    | _ => make

/-- The paths of a path and of the directories on the way to it, the longest first. -/
def pathsUpward (path : String) : List String :=
  let cs := Path.components path
  (List.range cs.length).map fun dropped => Path.ofComponents (cs.take (cs.length - dropped))

/-- Makes a directory and all directories on the way to it. -/
def makeDirectories (path : String) : FileAction OsError Unit := makeFirst (pathsUpward path)

/-- Removes a file or a link. -/
def removeFile (t : FileTree) (path : String) : Except OsError FileTree :=
  match t.find? path false with
  | .error e => .error e
  | .ok (_, .directory) => .error .isADirectory
  | .ok (place, _) => .ok (t.erase place)

/-- Removes the directory at a path, which is empty by now.  A path that ends in `.` or `..` names
no entry that could be removed; one that does not lead anywhere any more needs nothing. -/
def removeEmptied (t : FileTree) (path : String) : Except OsError FileTree :=
  match t.find? path false with
  | .error .notFound => .ok t
  | .error e => .error e
  | .ok (place, _) =>
    match (Text.splitAt '/' (Text.trimRightChar '/' path)).getLast? with
    | some "." => .error .invalidArgument
    | some ".." => .error .directoryNotEmpty
    | _ => if place.isEmpty then .error .busy else .ok (t.erase place)

/-- Removes a directory and all that is in it.  A link is removed and not followed. -/
def removeDirectory (path : String) : FileAction OsError Unit := do
  let t ← get
  match t.find? path false with
  | .error e => throw e
  | .ok (_, .file _) => throw .notADirectory
  | .ok (place, .link _) => set (t.erase place)
  | .ok (place, .directory) =>
    set (t.eraseBelow place)
    Action.change id (·.removeEmptied path)

end FileTree

end CodeAtlas
