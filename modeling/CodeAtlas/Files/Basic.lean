import CodeAtlas.Extraction.Basic
import CodeAtlas.Path
import Std.Data.ExtTreeMap

/-!
# A tree of files

The files that a project and its index consist of, as a value: a map from places to files,
directories and symbolic links.  A place is the list of names on the way down from the root, free of
`.`, `..` and symbolic links; the empty list is the root, which is always a directory.

A text is turned into a place by walking it from the root, or from the working directory where it is
relative, and following the symbolic links on the way.  This is where a path can fail: a directory
on the way is missing, is a file, or hides behind too many links.
-/

namespace CodeAtlas

open Std (ExtTreeMap)

/-- The names on the way down from the root. -/
abbrev Place := List String

/-- What stands at a place. -/
inductive FileEntry where
  | file (content : FileContent)
  | directory
  /-- A symbolic link to the path `target`. -/
  | link (target : String)
  deriving Inhabited

/-- Whether an entry is a directory. -/
def FileEntry.isDirectory : FileEntry → Bool
  | .directory => true
  | _ => false

/-- Files by their places, and the directory from which relative paths are seen. -/
structure FileTree where
  entries : ExtTreeMap Place FileEntry := ∅
  workingDirectory : Place := []
  deriving Inhabited

namespace FileTree

/-- The tree that holds nothing but the root. -/
def empty : FileTree := {}

/-- What stands at a place. -/
def entry? (t : FileTree) (place : Place) : Option FileEntry :=
  if place.isEmpty then some .directory else t.entries[place]?

@[simp] theorem entry?_nil (t : FileTree) : t.entry? [] = some .directory := rfl

/-- The tree with an entry put at a place. -/
def put (t : FileTree) (place : Place) (e : FileEntry) : FileTree :=
  { t with entries := t.entries.insert place e }

/-- The tree without the entry at a place. -/
def erase (t : FileTree) (place : Place) : FileTree :=
  { t with entries := t.entries.erase place }

/-- The names on the way from a directory down to a place. -/
def namesBelow? : Place → Place → Option (List String)
  | [], names => some names
  | _ :: _, [] => none
  | d :: ds, n :: ns => if d = n then namesBelow? ds ns else none

/-- The tree without the entries below a directory, which itself stays. -/
def eraseBelow (t : FileTree) (directory : Place) : FileTree :=
  { t with
    entries := t.entries.filter fun place _ =>
      match namesBelow? directory place with
      | some (_ :: _) => false
      | _ => true }

/-- The entries below a directory with the names on the way to them, in the order of names. -/
def below (t : FileTree) (directory : Place) : List (List String × FileEntry) :=
  t.entries.toList.filterMap fun (place, e) =>
    match namesBelow? directory place with
    | some (name :: names) => some (name :: names, e)
    | _ => none

/-- The names in a directory, in order. -/
def namesIn (t : FileTree) (directory : Place) : List String :=
  (t.below directory).filterMap fun (names, _) =>
    match names with
    | [name] => some name
    | _ => none

/-- How many symbolic links may stand in one path. -/
def maxLinks : Nat := 40

/-- How many bytes a file name may have. -/
def maxNameBytes : Nat := 255

/-- How many bytes a path may have. -/
def maxPathBytes : Nat := 4095

/-- The place that the pieces of a path lead to, seen from a directory.  All but the last piece must
lead to directories; a piece that is empty or a `.` stays where it is, and a symbolic link is
replaced by the pieces of its target, at the end only where `followLast` says so. -/
def locatePieces (t : FileTree) (followLast : Bool) (links : Nat) (place : Place) :
    List String → Except OsError Place
  | [] => .ok place
  | piece :: pieces =>
    match t.entry? place with
    | none => .error .notFound
    | some (.file _) => .error .notADirectory
    | some (.link _) => .error .notADirectory
    | some .directory =>
      if piece = "" ∨ piece = "." then locatePieces t followLast links place pieces
      else if piece = ".." then locatePieces t followLast links place.dropLast pieces
      else if maxNameBytes < piece.utf8ByteSize then .error .nameTooLong
      else
        match t.entry? (place ++ [piece]) with
        | some (.link target) =>
          if pieces.isEmpty ∧ ¬followLast then .ok (place ++ [piece])
          else if links = 0 then .error .tooManyLinks
          else
            locatePieces t followLast (links - 1) (if Path.isAbsolute target then [] else place)
              (Text.splitAt '/' target ++ pieces)
        | _ => locatePieces t followLast links (place ++ [piece]) pieces
  termination_by pieces => (links, pieces.length)

/-- The place that a path leads to.  Nothing needs to stand there, but all directories on the way
must exist. -/
def locate (t : FileTree) (path : String) (followLast : Bool := true) : Except OsError Place :=
  if path.toList.contains '\x00' then .error .zeroInName
  else if path.isEmpty then .error .notFound
  else if maxPathBytes < path.utf8ByteSize then .error .nameTooLong
  else
    t.locatePieces followLast maxLinks (if Path.isAbsolute path then [] else t.workingDirectory)
      (Text.splitAt '/' path)

/-- The place of a path and what stands there. -/
def find? (t : FileTree) (path : String) (followLast : Bool := true) :
    Except OsError (Place × FileEntry) :=
  match t.locate path followLast with
  | .error e => .error e
  | .ok place =>
    match t.entry? place with
    | some e => .ok (place, e)
    | none => .error .notFound

/-- What a path leads to. -/
def lookup? (t : FileTree) (path : String) : Option FileEntry :=
  match t.find? path with
  | .ok (_, e) => some e
  | .error _ => none

/-- Whether something stands at a path. -/
def exists? (t : FileTree) (path : String) : Bool := (t.lookup? path).isSome

/-- Whether a file stands at a path. -/
def isFile (t : FileTree) (path : String) : Bool :=
  match t.lookup? path with
  | some (.file _) => true
  | _ => false

/-- Whether a directory stands at a path. -/
def isDirectory (t : FileTree) (path : String) : Bool :=
  match t.lookup? path with
  | some .directory => true
  | _ => false

/-- The text of a place. -/
def pathOf (place : Place) : String := Path.ofNames place

/-- The path of what stands at a path, without symbolic links. -/
def canonical (t : FileTree) (path : String) : Except OsError String :=
  (t.find? path).map fun (place, _) => pathOf place

/-- The content of the file at a path. -/
def read (t : FileTree) (path : String) : Except OsError FileContent :=
  match t.find? path with
  | .ok (_, .file content) => .ok content
  | .ok _ => .error .isADirectory
  | .error e => .error e

/-- What an operating system answers for a file that was to be read as text and is no UTF-8. -/
def notUtf8 : OsError := .other "stream did not contain valid UTF-8"

/-- The text of the file at a path. -/
def readText (t : FileTree) (path : String) : Except OsError String :=
  match t.read path with
  | .ok content =>
    match String.fromUTF8? content.bytes with
    | some s => .ok s
    | none => .error notUtf8
  | .error e => .error e

/-- The names in the directory at a path. -/
def list (t : FileTree) (path : String) : Except OsError (List String) :=
  match t.find? path with
  | .ok (place, .directory) => .ok (t.namesIn place)
  | .ok _ => .error .notADirectory
  | .error e => .error e

end FileTree

end CodeAtlas
