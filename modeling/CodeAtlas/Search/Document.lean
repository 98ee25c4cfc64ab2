import CodeAtlas.Symbol.Codec

/-!
# Documents for searching in natural language

For every symbol one document is handed to a store that can search it.  The store in memory keeps
the documents of all projects by the identifier of their symbols, and takes them out by project or
by file of a project.  A project without a store loses nothing else: the store without memory takes
everything and keeps nothing.
-/

namespace CodeAtlas

open Std (ExtTreeMap)

/-- What is handed to the store for one symbol. -/
structure SearchDocument where
  symbolId : SymbolId
  projectId : String
  file : String
  text : String
  /-- Names and values, in the order of the names. -/
  metadata : List (String × String)
  deriving DecidableEq, Repr, Inhabited

/-- The document of a symbol. -/
def SearchDocument.ofSymbol (projectId : String) (s : Symbol) : SearchDocument where
  symbolId := s.id
  projectId := projectId
  file := s.file
  text := s.searchableText
  metadata :=
    (match s.complexity? with
      | some c => [("complexity", c.name)]
      | none => []) ++
    [("kind", s.kind.name), ("line", toString s.line.toNat), ("name", s.name),
      ("source", s.origin.name)]

/-- The written form of a document. -/
def SearchDocument.toJson (d : SearchDocument) : Json :=
  .obj [("symbol_id", d.symbolId.toJson), ("project_id", .str d.projectId),
    ("file_path", .str d.file), ("text", .str d.text),
    ("metadata", .obj (d.metadata.map fun (name, value) => (name, .str value)))]

/-- A store of documents. -/
inductive DocumentStore where
  /-- Keeps the documents by the identifiers of their symbols. -/
  | memory (documents : ExtTreeMap SymbolId SearchDocument)
  /-- Keeps nothing. -/
  | discard

instance : Inhabited DocumentStore := ⟨.discard⟩

namespace DocumentStore

/-- The documents of a store. -/
def documents : DocumentStore → ExtTreeMap SymbolId SearchDocument
  | .memory ds => ds
  | .discard => ∅

/-- Puts documents in; a document of the same symbol is replaced. -/
def upsert (store : DocumentStore) (added : List SearchDocument) : DocumentStore :=
  match store with
  | .memory ds => .memory (added.foldl (fun m d => m.insert d.symbolId d) ds)
  | .discard => .discard

/-- Takes out the documents of a file of a project and says how many they were. -/
def deleteByFile (store : DocumentStore) (projectId file : String) : Nat × DocumentStore :=
  match store with
  | .memory ds =>
    let left := ds.filter (fun _ d => !(d.projectId == projectId && d.file == file))
    (ds.size - left.size, .memory left)
  | .discard => (0, .discard)

/-- Takes out the documents of a project. -/
def clear (store : DocumentStore) (projectId : String) : DocumentStore :=
  match store with
  | .memory ds => .memory (ds.filter (fun _ d => d.projectId != projectId))
  | .discard => .discard

/-- The document of a symbol. -/
def get? (store : DocumentStore) (id : SymbolId) : Option SearchDocument := store.documents[id]?

/-- The number of documents. -/
def size (store : DocumentStore) : Nat := store.documents.size

/-- The files of the documents, in order and each once. -/
def files (store : DocumentStore) : List String :=
  (Std.ExtTreeSet.ofList (store.documents.values.map (·.file))).toList

end DocumentStore

end CodeAtlas
