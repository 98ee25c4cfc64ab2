import CodeAtlas.Change.Kind

/-!
# Events of the file system

What the operating system reports is coarser or finer than what indexing needs.  An event names one
or more paths and says what kind of thing happened; it is turned into changes of those paths.  A
rename is a deletion where it leaves and a creation where it arrives.  Changes of metadata alone
alter no symbols and, like accesses, give no change at all.
-/

namespace CodeAtlas

/-- Which end of a rename an event is about. -/
inductive RenameMode where
  | unspecified
  | source
  | target
  | both
  | other
  deriving DecidableEq, Repr

/-- What an event reports. -/
inductive EventKind where
  | any
  | access
  | create
  | remove
  /-- Content or an unknown aspect was modified. -/
  | modify
  | metadata
  | rename (mode : RenameMode)
  | other
  deriving DecidableEq, Repr

namespace EventKind

/-- The kinds of events by their names, which tell more than matters here. -/
def names : List (String × EventKind) := [
  ("any", .any), ("other", .other), ("access", .access),
  ("create-file", .create), ("create-folder", .create),
  ("remove-file", .remove), ("remove-any", .remove),
  ("modify-any", .modify), ("modify-data", .modify), ("modify-other", .modify),
  ("modify-metadata", .metadata),
  ("rename-any", .rename .unspecified), ("rename-from", .rename .source),
  ("rename-to", .rename .target), ("rename-both", .rename .both),
  ("rename-other", .rename .other)]

/-- The kind of event with a name. -/
def ofName? (s : String) : Option EventKind := names.lookup s

/-- The changes that an event reports on its paths. -/
def changes (kind : EventKind) (paths : List String) : List Change :=
  let each (k : ChangeKind) : List Change := paths.map (fun p => ⟨p, k⟩)
  match kind with
  | .create => each .created
  | .remove => each .deleted
  | .rename .source => each .deleted
  | .rename .target => each .created
  | .rename .both =>
    match paths with
    | [old, new] => [⟨old, .deleted⟩, ⟨new, .created⟩]
    | _ => each .modified
  | .metadata => []
  | .modify => each .modified
  | .rename _ => each .modified
  | .any => each .modified
  | .access => []
  | .other => []

end EventKind

end CodeAtlas
