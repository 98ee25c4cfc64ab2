import CodeAtlas.Files.Basic
import CodeAtlas.Files.Ignore
import CodeAtlas.Settings.Basic

/-!
# Which files are indexed

The source files below a directory, less those that somebody excluded.  For each file and each
directory on the way to it, the first of the following that has an opinion decides:

1. the patterns that the settings exclude;
2. the ignore files of the directories around it, in four kinds: the tool's own, `.ignore`,
   `.gitignore` and `.git/info/exclude`.  An opinion of an earlier kind goes before those of later
   kinds, and within a kind the nearest directory goes first.  Directories above the one where the
   search began count too;
3. a name that begins with a dot is excluded.

What lies in an excluded directory is excluded, whatever would be said about it.  Symbolic links are
not followed and are no files.
-/

namespace CodeAtlas

open Std (ExtTreeMap)

/-- The rules that the ignore files of one directory hold, by kind. -/
structure DirectoryRules where
  own : IgnoreRules := []
  plain : IgnoreRules := []
  git : IgnoreRules := []
  gitExclude : IgnoreRules := []
  deriving Inhabited

namespace FileTree

/-- The rules of the ignore file at a path; none if it cannot be read. -/
def ignoreFile (t : FileTree) (path : String) : IgnoreRules :=
  match t.read path with
  | .ok content => IgnoreRules.ofBytes content.bytes
  | .error _ => []

/-- The rules of the ignore files in a directory. -/
def directoryRules (t : FileTree) (directory : Place) : DirectoryRules :=
  let rules (names : List String) := t.ignoreFile (pathOf (directory ++ names))
  { own := rules [Settings.ignoreFileName]
    plain := rules [".ignore"]
    git := rules [".gitignore"]
    gitExclude := rules [".git", "info", "exclude"] }

end FileTree

/-- All rules that decide which files below a directory are listed. -/
structure WalkRules where
  /-- The directory where the search begins. -/
  start : Place
  /-- The patterns that the settings exclude, seen from there. -/
  excluded : IgnoreRules
  /-- The rules of each directory. -/
  directories : ExtTreeMap Place DirectoryRules

namespace WalkRules

/-- The ways to cut a place into a directory and the names below it, the nearest directory first. -/
def splits (place : Place) : List (Place × List String) :=
  (List.range place.length).reverse.map fun n => (place.take n, place.drop n)

/-- The opinion of one kind of ignore file: that of the nearest directory that has one. -/
def opinion? (rules : WalkRules) (kind : DirectoryRules → IgnoreRules) (place : Place)
    (isDirectory : Bool) : Option Verdict :=
  (splits place).findSome? fun (directory, names) =>
    (rules.directories[directory]?).bind fun r => (kind r).verdict? names isDirectory

/-- The opinion of all ignore files. -/
def ignoreFiles? (rules : WalkRules) (place : Place) (isDirectory : Bool) : Option Verdict :=
  [DirectoryRules.own, DirectoryRules.plain, DirectoryRules.git,
    DirectoryRules.gitExclude].findSome? fun kind => rules.opinion? kind place isDirectory

/-- Whether a name is hidden. -/
def isHiddenName (name : String) : Bool := name.toList.head? == some '.'

/-- What is decided about an entry by itself, given by the names on the way to it. -/
def verdict (rules : WalkRules) (names : List String) (isDirectory : Bool) : Verdict :=
  let place := rules.start ++ names
  ((rules.excluded.verdict? names isDirectory).orElse fun _ =>
    rules.ignoreFiles? place isDirectory).getD
      (if (names.getLast?.map isHiddenName).getD false then .exclude else .keep)

/-- Whether a file is listed: nothing excludes it or a directory on the way to it. -/
def keeps (rules : WalkRules) (names : List String) : Bool :=
  (List.range names.length).all fun n =>
    rules.verdict (names.take (n + 1)) (n + 1 < names.length) == .keep

end WalkRules

namespace FileTree

/-- The rules for a search that begins in a directory. -/
def walkRules (t : FileTree) (settings : IndexingSettings) (start : Place) : WalkRules :=
  let above := (List.range (start.length + 1)).map start.take
  let below := (t.below start).filterMap fun (names, e) =>
    if e.isDirectory then some (start ++ names) else none
  { start
    excluded := IgnoreRules.ofExcluded settings.ignorePatterns
    directories := ExtTreeMap.ofList ((above ++ below).map fun d => (d, t.directoryRules d)) }

/-- Whether a file is small enough to be indexed and has the extension of a source file. -/
def isIndexed (settings : IndexingSettings) (path : String) (content : FileContent) : Bool :=
  settings.accepts path && content.bytes.size ≤ settings.maxFileSize

/-- The paths of the files to index at or below a path, in the order of paths. -/
def walk (t : FileTree) (settings : IndexingSettings) (start : String) : List String :=
  match t.find? start with
  | .error _ => []
  | .ok (_, .file content) => if isIndexed settings start content then [start] else []
  | .ok (place, _) =>
    let rules := t.walkRules settings place
    let found := (t.below place).filterMap fun (names, e) =>
      match e with
      | .file content =>
        let path := Path.join start ("/".intercalate names)
        if isIndexed settings path content && rules.keeps names then some path else none
      | _ => none
    found.mergeSort Path.le

end FileTree

end CodeAtlas
