import CodeAtlas.Files.Update

/-!
# Laying out files

A tree of files put together piece by piece from what a caller has at hand.  The directories on the
way to a piece are made as they are needed, and a piece for which there is no place is left out:
here nobody is waiting for an error.

The other way round, all that lies below a directory can be listed by its paths.
-/

namespace CodeAtlas.FileTree

/-- The tree that a step gives, or the tree itself where the step is refused. -/
def orUnchanged (t : FileTree) (step : Except OsError FileTree) : FileTree := step.toOption.getD t

/-- The tree with a directory. -/
def withDirectory (t : FileTree) (path : String) : FileTree := ((makeDirectories path).runOn t).2

/-- The tree with the directory that a path lies in. -/
def withParent (t : FileTree) (path : String) : FileTree :=
  t.withDirectory ((Path.parent? path).getD "/")

/-- The tree with a file. -/
def withFile (t : FileTree) (path : String) (content : FileContent) : FileTree :=
  let t := t.withParent path
  t.orUnchanged (t.write path content)

/-- The tree with several files. -/
def withFiles (t : FileTree) (files : List (String × FileContent)) : FileTree :=
  files.foldl (fun t (path, content) => t.withFile path content) t

/-- The tree with a symbolic link. -/
def withLink (t : FileTree) (path target : String) : FileTree :=
  let t := t.withParent path
  t.orUnchanged ((t.locate path false).map fun place => t.put place (.link target))

/-- The tree without the file at a path. -/
def without (t : FileTree) (path : String) : FileTree := t.orUnchanged (t.removeFile path)

/-- The tree seen from another working directory. -/
def enter (t : FileTree) (path : String) : FileTree :=
  t.orUnchanged ((t.locate path).map fun place => { t with workingDirectory := place })

/-- The paths of all that lies below the directory at a path, in order; the path of a directory ends
in a slash. -/
def listing (t : FileTree) (path : String) : List String :=
  match t.find? path with
  | .ok (place, .directory) =>
    let paths := (t.below place).map fun (names, e) =>
      "/".intercalate names ++ (if e.isDirectory then "/" else "")
    paths.mergeSort fun a b => decide (a ≤ b)
  | _ => []

end CodeAtlas.FileTree
