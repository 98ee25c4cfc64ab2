import CodeAtlas.Symbol.Basic

/-!
# The symbol table

Symbols by identifier, with two indexes: for each name and for each file the identifiers of its
symbols, in the order in which they were put in.  The three maps change together.  Answers to
queries are sorted; where the sort leaves a tie, the order of the index decides, or that of the
identifiers where no index is used.
-/

namespace CodeAtlas

open Std (ExtTreeMap)

/-- Identifiers under a key, in the order in which they were put in. -/
abbrev IdIndex := ExtTreeMap String (List SymbolId)

namespace IdIndex

/-- The identifiers under a key. -/
def ids (m : IdIndex) (key : String) : List SymbolId := (m[key]?).getD []

/-- Puts an identifier behind those under a key. -/
def attach (m : IdIndex) (key : String) (id : SymbolId) : IdIndex :=
  m.insert key (m.ids key ++ [id])

/-- Takes an identifier from a key; with the last one the key goes too. -/
def detach (m : IdIndex) (key : String) (id : SymbolId) : IdIndex :=
  match m[key]? with
  | some found =>
    let left := found.filter (· != id)
    if left.isEmpty then m.erase key else m.insert key left
  | none => m

end IdIndex

namespace Symbol

/-- The order by file and line. -/
def compareByPlace : Symbol → Symbol → Ordering :=
  compareLex (compareOn Symbol.file) (compareOn Symbol.line)

/-- The order by line. -/
def compareByLine : Symbol → Symbol → Ordering := compareOn Symbol.line

/-- The order by name, file and line. -/
def compareByName : Symbol → Symbol → Ordering :=
  compareLex (compareOn Symbol.name) compareByPlace

/-- The order of snapshots: by file, line, name and identifier. -/
def compareForSnapshot : Symbol → Symbol → Ordering :=
  compareLex compareByPlace (compareLex (compareOn Symbol.name) (compareOn Symbol.id))

/-- Symbols sorted by an order; ties keep their places. -/
def sortBy (cmp : Symbol → Symbol → Ordering) (symbols : List Symbol) : List Symbol :=
  symbols.mergeSort (fun a b => (cmp a b).isLE)

end Symbol

/-- Symbols by identifier, indexed by name and by file. -/
structure SymbolTable where
  symbols : ExtTreeMap SymbolId Symbol := ∅
  byName : IdIndex := ∅
  byFile : IdIndex := ∅

instance : Inhabited SymbolTable := ⟨{}⟩

namespace SymbolTable

/-- The table without symbols. -/
def empty : SymbolTable := {}

/-- The symbol with an identifier. -/
def get? (t : SymbolTable) (id : SymbolId) : Option Symbol := t.symbols[id]?

/-- Takes out the symbol with an identifier. -/
def remove (t : SymbolTable) (id : SymbolId) : Option Symbol × SymbolTable :=
  match t.symbols[id]? with
  | some s =>
    (some s,
      { symbols := t.symbols.erase id
        byName := t.byName.detach s.name id
        byFile := t.byFile.detach s.file id })
  | none => (none, t)

/-- Puts a symbol in; a symbol with the same identifier goes first. -/
def insert (t : SymbolTable) (s : Symbol) : SymbolTable :=
  let t := (t.remove s.id).2
  { symbols := t.symbols.insert s.id s
    byName := t.byName.attach s.name s.id
    byFile := t.byFile.attach s.file s.id }

/-- Puts symbols in, one after the other. -/
def insertAll (t : SymbolTable) (symbols : List Symbol) : SymbolTable := symbols.foldl insert t

/-- The table of a list of symbols. -/
def ofList (symbols : List Symbol) : SymbolTable := empty.insertAll symbols

/-- The symbols with the given identifiers, in their order. -/
def getAll (t : SymbolTable) (ids : List SymbolId) : List Symbol := ids.filterMap t.get?

/-- Takes out the symbols of a file and returns them in the order of the index. -/
def removeFile (t : SymbolTable) (file : String) : List Symbol × SymbolTable :=
  let removed := t.getAll (t.byFile.ids file)
  (removed,
    { symbols := removed.foldl (fun m s => m.erase s.id) t.symbols
      byName := removed.foldl (fun m s => m.detach s.name s.id) t.byName
      byFile := t.byFile.erase file })

/-- The symbols of a name, by file and line. -/
def findByName (t : SymbolTable) (name : String) : List Symbol :=
  Symbol.sortBy Symbol.compareByPlace (t.getAll (t.byName.ids name))

/-- The functions of a name. -/
def functionIds (t : SymbolTable) (name : String) : List SymbolId :=
  (t.byName.ids name).filter (fun id => ((t.get? id).map Symbol.isFunction).getD false)

/-- The symbols of a file, by line. -/
def inFile (t : SymbolTable) (file : String) : List Symbol :=
  Symbol.sortBy Symbol.compareByLine (t.getAll (t.byFile.ids file))

/-- The symbols of a kind, by name, file and line, up to a limit; the limit 0 stands for none. -/
def listByKind (t : SymbolTable) (kind : SymbolKind) (limit : Nat) : List Symbol :=
  let found := Symbol.sortBy Symbol.compareByName
    (t.symbols.values.filter (fun s => s.kind == kind))
  if limit = 0 then found else found.take limit

/-- The number of symbols of each kind. -/
def countByKind (t : SymbolTable) : List (SymbolKind × Nat) :=
  SymbolKind.all.map (fun k => (k, (t.symbols.values.filter (fun s => s.kind == k)).length))

/-- Whether a file has symbols. -/
def containsFile (t : SymbolTable) (file : String) : Bool := t.byFile.contains file

/-- The files that have symbols. -/
def files (t : SymbolTable) : List String := t.byFile.keys

/-- The number of files that have symbols. -/
def fileCount (t : SymbolTable) : Nat := t.byFile.size

/-- All symbols in the order of snapshots. -/
def toList (t : SymbolTable) : List Symbol :=
  Symbol.sortBy Symbol.compareForSnapshot t.symbols.values

/-- The number of symbols. -/
def size (t : SymbolTable) : Nat := t.symbols.size

end SymbolTable

end CodeAtlas
