import CodeAtlas.Symbol.Basic

/-!
# Resolving calls by name

A call names its callee and nothing more, so it is taken to mean every function of that name.
Functions of one name in several files, and overloads, therefore all get an edge; a name that no
function has, such as that of a library call, gets none.
-/

namespace CodeAtlas

open Std (ExtTreeMap)

/-- The functions of each name, in the order in which they were met. -/
abbrev CallTargets := ExtTreeMap String (List SymbolId)

namespace CallTargets

/-- The functions of a name. -/
def of (t : CallTargets) (name : String) : List SymbolId := (t[name]?).getD []

/-- Adds a symbol; only functions can be called. -/
def register (t : CallTargets) (s : Symbol) : CallTargets :=
  if s.isFunction then t.insert s.name (of t s.name ++ [s.id]) else t

/-- The functions among some symbols, by name. -/
def ofSymbols (symbols : List Symbol) : CallTargets := symbols.foldl register ∅

/-- The edges of references: one for each function of the name that is called. -/
def resolve (t : CallTargets) (calls : List CallReference) : List CallEdge :=
  calls.flatMap (fun c => (of t c.callee).map (fun id => ⟨c.caller, id⟩))

end CallTargets

end CodeAtlas
