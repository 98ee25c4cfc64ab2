/-!
# Kinds of file changes

A file was created, modified or deleted.  When a second change of the same file arrives before the
first was handled, the two are folded into one: a deletion wins over whatever came before it, a file
that comes back after a deletion counts as modified, and a new file stays new while it is written.
-/

namespace CodeAtlas

/-- What happened to a file. -/
inductive ChangeKind where
  | created
  | modified
  | deleted
  deriving DecidableEq, Repr, Inhabited

namespace ChangeKind

/-- All kinds of changes. -/
def all : List ChangeKind := [.created, .modified, .deleted]

/-- The written name of a kind. -/
def name : ChangeKind → String
  | .created => "created"
  | .modified => "modified"
  | .deleted => "deleted"

/-- The kind with a written name. -/
def ofName? (s : String) : Option ChangeKind := all.find? (fun k => k.name == s)

/-- The kind of two changes in a row. -/
def coalesce : ChangeKind → ChangeKind → ChangeKind
  | _, .deleted => .deleted
  | .deleted, _ => .modified
  | .created, .modified => .created
  | _, next => next

/-- The folded kind is a deletion exactly if the later one is. -/
@[simp] theorem coalesce_eq_deleted_iff (first next : ChangeKind) :
    first.coalesce next = .deleted ↔ next = .deleted := by
  cases first <;> cases next <;> decide

end ChangeKind

/-- A change of one file. -/
structure Change where
  path : String
  kind : ChangeKind
  deriving DecidableEq, Repr, Inhabited

end CodeAtlas
