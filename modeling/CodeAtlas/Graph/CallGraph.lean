import CodeAtlas.Symbol.Basic

/-!
# The call graph

A set of edges between identifiers, kept twice: by caller and by callee.  Both maps change together,
so an edge stands in one exactly if it stands in the other, and no identifier is kept with an empty
set.  The include relation rides along: for each file the paths that it includes, each once and in
the order in which they were met.

Searching follows the edges in one direction, one hop at a time, to a bounded depth.
-/

namespace CodeAtlas

open Std (ExtTreeMap ExtTreeSet)

/-- For each identifier the set of its neighbours in one direction. -/
abbrev Adjacency := ExtTreeMap SymbolId (ExtTreeSet SymbolId)

namespace Adjacency

/-- The neighbours of an identifier. -/
def neighbours (a : Adjacency) (id : SymbolId) : ExtTreeSet SymbolId := (a[id]?).getD ∅

/-- Puts a neighbour to an identifier. -/
def link (a : Adjacency) (id neighbour : SymbolId) : Adjacency :=
  a.insert id ((a.neighbours id).insert neighbour)

/-- Takes a neighbour from an identifier; with the last one the identifier goes too. -/
def unlink (a : Adjacency) (id neighbour : SymbolId) : Adjacency :=
  match a[id]? with
  | some set =>
    let set := set.erase neighbour
    if set.isEmpty then a.erase id else a.insert id set
  | none => a

/-- Takes one neighbour from every identifier of a list. -/
def unlinkAll (a : Adjacency) (ids : List SymbolId) (neighbour : SymbolId) : Adjacency :=
  ids.foldl (fun a id => a.unlink id neighbour) a

/-- The edges of one direction, in order. -/
def pairs (a : Adjacency) : List (SymbolId × SymbolId) :=
  a.toList.flatMap (fun (id, set) => set.toList.map (fun n => (id, n)))

/-- The identifiers that are reached from a frontier in at most a number of hops, together with
those reached before.  Only identifiers that are reached for the first time are followed. -/
def expand (a : Adjacency) : Nat → ExtTreeSet SymbolId → List SymbolId → ExtTreeSet SymbolId
  | 0, reached, _ => reached
  | _ + 1, reached, [] => reached
  | depth + 1, reached, frontier =>
    let (reached, fresh) := frontier.foldl
      (fun acc id => (a.neighbours id).toList.foldl
        (fun (reached, fresh) n =>
          if reached.contains n then (reached, fresh) else (reached.insert n, n :: fresh)) acc)
      (reached, [])
    a.expand depth reached fresh.reverse

/-- The identifiers that are reached from a start in one up to `depth` hops.  The start is among
them only if a cycle leads back to it. -/
def reach (a : Adjacency) (start : SymbolId) (depth : Nat) : ExtTreeSet SymbolId :=
  a.expand depth ∅ [start]

end Adjacency

/-- Calls between functions and includes of files. -/
structure CallGraph where
  /-- The callees of each caller. -/
  forward : Adjacency := ∅
  /-- The callers of each callee. -/
  reverse : Adjacency := ∅
  /-- The paths that each file includes. -/
  includes : ExtTreeMap String (List String) := ∅
  deriving DecidableEq

instance : Inhabited CallGraph := ⟨{}⟩

namespace CallGraph

/-- The graph without edges and includes. -/
def empty : CallGraph := {}

/-- Whether an edge stands in the graph. -/
def hasEdge (g : CallGraph) (caller callee : SymbolId) : Bool :=
  (g.forward.neighbours caller).contains callee

/-- Puts an edge into the graph. -/
def addEdge (g : CallGraph) (e : CallEdge) : CallGraph :=
  { g with
    forward := g.forward.link e.caller e.callee
    reverse := g.reverse.link e.callee e.caller }

/-- Puts an edge into the graph, and says whether it was not there before. -/
def insertEdge (g : CallGraph) (e : CallEdge) : Bool × CallGraph :=
  (!g.hasEdge e.caller e.callee, g.addEdge e)

/-- Puts edges into the graph. -/
def addEdges (g : CallGraph) (es : List CallEdge) : CallGraph := es.foldl addEdge g

/-- Takes out every edge that touches an identifier. -/
def removeSymbol (g : CallGraph) (id : SymbolId) : CallGraph :=
  let callees := (g.forward.neighbours id).toList
  let forward : Adjacency := g.forward.erase id
  let reverse : Adjacency := g.reverse.unlinkAll callees id
  let callers := (reverse.neighbours id).toList
  { g with forward := forward.unlinkAll callers id, reverse := reverse.erase id }

/-- Takes out every edge that touches one of some identifiers. -/
def removeSymbols (g : CallGraph) (ids : List SymbolId) : CallGraph := ids.foldl removeSymbol g

/-- Records that a file includes a path; a repetition changes nothing. -/
def addInclude (g : CallGraph) (file target : String) : CallGraph :=
  let targets := (g.includes[file]?).getD []
  let targets := if targets.contains target then targets else targets ++ [target]
  { g with includes := g.includes.insert file targets }

/-- Records include edges. -/
def addIncludes (g : CallGraph) (es : List IncludeEdge) : CallGraph :=
  es.foldl (fun g e => g.addInclude e.file e.target) g

/-- Forgets what a file includes. -/
def removeIncludes (g : CallGraph) (file : String) : CallGraph :=
  { g with includes := g.includes.erase file }

/-- Forgets all edges and all includes. -/
def clear (g : CallGraph) : CallGraph := { g with forward := ∅, reverse := ∅, includes := ∅ }

/-- The functions that are called from a function in at most `depth` hops. -/
def callees (g : CallGraph) (id : SymbolId) (depth : Nat) : ExtTreeSet SymbolId :=
  g.forward.reach id depth

/-- The functions that call a function in at most `depth` hops. -/
def callers (g : CallGraph) (id : SymbolId) (depth : Nat) : ExtTreeSet SymbolId :=
  g.reverse.reach id depth

/-- The edges, ordered by caller and then by callee. -/
def edges (g : CallGraph) : List CallEdge :=
  g.forward.pairs.map (fun (caller, callee) => ⟨caller, callee⟩)

/-- The number of edges. -/
def edgeCount (g : CallGraph) : Nat := g.forward.pairs.length

/-- Whether the graph has neither edges nor includes. -/
def isEmpty (g : CallGraph) : Bool := g.forward.isEmpty && g.includes.isEmpty

/-- The depth of a search that names none. -/
def defaultDepth : Nat := 1

end CallGraph

end CodeAtlas
