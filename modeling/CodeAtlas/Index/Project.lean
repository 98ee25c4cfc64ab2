import CodeAtlas.Graph.CallGraph
import CodeAtlas.Index.CallTable
import CodeAtlas.Index.CallTargets
import CodeAtlas.Index.SymbolTable

/-!
# The index of a project

All that is known about one project: its symbols, its call graph, the call references from which the
edges were made, and the files that were indexed, including those without symbols.

An index is made from the extractions of all files at once, or read back from a snapshot.  Later a
single file can be retracted or replaced without looking at the others again: a file that is
replaced gains outgoing edges from its own calls, and incoming edges from every call recorded
anywhere that names one of its functions.
-/

namespace CodeAtlas

open Std (ExtTreeMap ExtTreeSet)

/-- What is written to disk of an index besides its graph. -/
structure Snapshot where
  symbols : List Symbol := []
  calls : List CallReference := []
  files : List String := []
  deriving DecidableEq, Inhabited

/-- The counts of an index. -/
structure ProjectStats where
  projectId : String
  files : Nat
  symbols : Nat
  byKind : List (SymbolKind × Nat)
  callEdges : Nat
  includeFiles : Nat
  deriving DecidableEq, Inhabited

/-- The extractions of several files with the list of the files. -/
structure MergedExtraction where
  extraction : Extraction := {}
  files : List String := []
  /-- The methods that contributed, in order. -/
  origins : List Origin := []
  deriving DecidableEq, Inhabited

/-- The index of one project. -/
structure ProjectIndex where
  projectId : String
  root : String
  symbols : SymbolTable := {}
  graph : CallGraph := {}
  calls : CallTable := {}
  files : ExtTreeSet String := ∅
  deriving Inhabited

namespace ProjectIndex

/-- The index of a project of which nothing is known. -/
def empty (projectId root : String) : ProjectIndex := { projectId, root }

/-- The index of the extractions of all files. -/
def ofMerged (projectId root : String) (merged : MergedExtraction) : ProjectIndex :=
  let e := merged.extraction
  { projectId, root
    symbols := .ofList e.symbols
    graph :=
      (CallGraph.empty.addEdges ((CallTargets.ofSymbols e.symbols).resolve e.calls)).addIncludes
        e.includes
    calls := CallTable.empty.insertAll e.calls
    files := ExtTreeSet.ofList merged.files }

/-- The index of a snapshot and a graph, which are taken as they stand. -/
def ofSnapshot (projectId root : String) (snapshot : Snapshot) (graph : CallGraph) : ProjectIndex :=
  { projectId, root
    symbols := .ofList snapshot.symbols
    graph
    calls := CallTable.empty.insertAll snapshot.calls
    files := ExtTreeSet.ofList (snapshot.files ++ snapshot.symbols.map (·.file)) }

/-- The snapshot of an index. -/
def snapshot (x : ProjectIndex) : Snapshot :=
  ⟨x.symbols.toList, x.calls.toList, x.files.toList⟩

/-- Retracts a file and returns the symbols that go with it. -/
def removeFile (x : ProjectIndex) (file : String) : List Symbol × ProjectIndex :=
  let (removed, symbols) := x.symbols.removeFile file
  let ids := removed.map (·.id)
  (removed,
    { x with
      symbols
      graph := (x.graph.removeSymbols ids).removeIncludes file
      calls := x.calls.removeCallers ids
      files := x.files.erase file })

/-- Records a call of a file that is being put in: edges to all functions of the name, and the
reference itself. -/
def addCall (symbols : SymbolTable) (state : CallGraph × CallTable) (r : CallReference) :
    CallGraph × CallTable :=
  (state.1.addEdges ((symbols.functionIds r.callee).map (fun id => ⟨r.caller, id⟩)),
    state.2.insert r)

/-- Adds the edges from every recorded caller of a function's name. -/
def addIncoming (calls : CallTable) (g : CallGraph) (s : Symbol) : CallGraph :=
  g.addEdges ((calls.callersOf s.name).toList.map (fun caller => ⟨caller, s.id⟩))

/-- Puts in an extraction of a file of which nothing is known. -/
def insertFile (x : ProjectIndex) (file : String) (e : Extraction) : ProjectIndex :=
  let symbols := x.symbols.insertAll e.symbols
  let (graph, calls) := e.calls.foldl (addCall symbols) (x.graph.addIncludes e.includes, x.calls)
  { x with
    symbols
    calls
    graph := (e.symbols.filter Symbol.isFunction).foldl (addIncoming calls) graph
    files := x.files.insert file }

/-- Replaces what is known about a file by a fresh extraction. -/
def replaceFile (x : ProjectIndex) (file : String) (e : Extraction) : ProjectIndex :=
  (x.removeFile file).2.insertFile file e

/-- The symbol with an identifier. -/
def get? (x : ProjectIndex) (id : SymbolId) : Option Symbol := x.symbols.get? id

/-- What a user means by a text: the symbol with that identifier, or all functions of that name. -/
def resolveTarget (x : ProjectIndex) (target : String) : List SymbolId :=
  if (x.get? ⟨target⟩).isSome then [⟨target⟩] else x.symbols.functionIds target

/-- The symbols with identifiers of a set, by file and line. -/
def symbolsOf (x : ProjectIndex) (ids : ExtTreeSet SymbolId) : List Symbol :=
  Symbol.sortBy Symbol.compareByPlace (x.symbols.getAll ids.toList)

/-- The symbols that call a symbol in at most `depth` hops. -/
def callers (x : ProjectIndex) (id : SymbolId) (depth : Nat) : List Symbol :=
  x.symbolsOf (x.graph.callers id depth)

/-- The symbols that a symbol calls in at most `depth` hops. -/
def callees (x : ProjectIndex) (id : SymbolId) (depth : Nat) : List Symbol :=
  x.symbolsOf (x.graph.callees id depth)

/-- The counts of an index. -/
def stats (x : ProjectIndex) : ProjectStats where
  projectId := x.projectId
  files := x.files.size
  symbols := x.symbols.size
  byKind := x.symbols.countByKind
  callEdges := x.graph.edgeCount
  includeFiles := x.graph.includes.size

end ProjectIndex

end CodeAtlas
