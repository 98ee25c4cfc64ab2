import CodeAtlas.Graph.CallGraph
import CodeAtlas.Json.Parser
import CodeAtlas.Json.Printer
import CodeAtlas.Symbol.Codec

/-!
# The call graph as a document

A graph is written as an object of three maps: the callees of each caller, the callers of each
callee and the includes of each file, with identifiers and files in order.  When a document is read,
each of the maps may be missing; what is read is taken as it stands.
-/

namespace CodeAtlas

open Std (ExtTreeMap ExtTreeSet)

/-- The written form of one direction. -/
def Adjacency.toJson (a : Adjacency) : Json :=
  .obj (a.toList.map (fun (id, set) => (id.text, .arr (set.toList.map SymbolId.toJson))))

/-- Reads an object whose members are all read alike; of members of one name the last counts. -/
def Json.mapOf? (read : Json → Option β) : Json → Option (List (String × β))
  | .obj members => members.mapM (fun (name, j) => (read j).map (fun v => (name, v)))
  | _ => none

/-- Reads one direction. -/
def Adjacency.ofJson? (j : Json) : Option Adjacency :=
  (j.mapOf? (fun set => (set.listOf? SymbolId.ofJson?).map (fun ids => ExtTreeSet.ofList ids))).map
    fun entries => entries.foldl (fun a (id, set) => a.insert ⟨id⟩ set) ∅

/-- The written form of the include relation. -/
def CallGraph.includesToJson (g : CallGraph) : Json :=
  .obj (g.includes.toList.map (fun (file, targets) => (file, .strings targets)))

/-- The written form of a graph. -/
def CallGraph.toJson (g : CallGraph) : Json :=
  .obj [("forward", g.forward.toJson), ("reverse", g.reverse.toJson),
    ("includes", g.includesToJson)]

/-- Reads a graph. -/
def CallGraph.ofJson? (j : Json) : Option CallGraph := do
  let ms ← j.record? ["forward", "reverse", "includes"]
  let forward ← Json.defaulted? ms "forward" Adjacency.ofJson? ∅
  let reverse ← Json.defaulted? ms "reverse" Adjacency.ofJson? ∅
  let includes ← Json.defaulted? ms "includes"
    (fun j => (j.mapOf? Json.strings?).map
      fun entries => entries.foldl (fun m (file, targets) => m.insert file targets) ∅) ∅
  return ⟨forward, reverse, includes⟩

/-- The document of a graph. -/
def CallGraph.toText (g : CallGraph) : String := g.toJson.pretty

/-- The graph of a document. -/
def CallGraph.ofText? (s : String) : Option CallGraph := (Json.parse? s).bind ofJson?

end CodeAtlas
