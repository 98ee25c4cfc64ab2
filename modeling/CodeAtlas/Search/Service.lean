import CodeAtlas.Error
import CodeAtlas.Search.Document

/-!
# The document service

Documents are handed to a service that may refuse what it is asked to do.  A refused call changes
nothing and gives the reason.
-/

namespace CodeAtlas

/-- What the document service can be asked to do. -/
inductive DocumentCall where
  | upsert
  | deleteByFile
  | clear
  deriving DecidableEq, Repr, Inhabited

/-- The written name of a call. -/
def DocumentCall.name : DocumentCall → String
  | .upsert => "upsert"
  | .deleteByFile => "delete_by_file"
  | .clear => "clear"

/-- A store of documents behind a service that may refuse calls. -/
structure DocumentService where
  store : DocumentStore := .discard
  /-- The reason for which a call is refused. -/
  refuses : DocumentCall → Option IndexError := fun _ => none

instance : Inhabited DocumentService := ⟨{}⟩

namespace DocumentService

/-- A call that changes the store, unless it is refused. -/
def call (service : DocumentService) (c : DocumentCall)
    (change : DocumentStore → DocumentStore) : Except IndexError DocumentService :=
  match service.refuses c with
  | some e => .error e
  | none => .ok { service with store := change service.store }

/-- Puts documents in. -/
def upsert (service : DocumentService) (added : List SearchDocument) :
    Except IndexError DocumentService :=
  service.call .upsert (·.upsert added)

/-- Takes out the documents of a file of a project. -/
def deleteByFile (service : DocumentService) (projectId file : String) :
    Except IndexError DocumentService :=
  service.call .deleteByFile fun store => (store.deleteByFile projectId file).2

/-- Takes out the documents of a project. -/
def clear (service : DocumentService) (projectId : String) : Except IndexError DocumentService :=
  service.call .clear (·.clear projectId)

end DocumentService

end CodeAtlas
