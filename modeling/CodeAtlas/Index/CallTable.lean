import CodeAtlas.Symbol.Basic

/-!
# Call references by caller and by name

The names that each function calls are kept as they were written, because which functions they mean
changes with every file that comes or goes.  The table is kept twice: the names of each caller, in
the order of their first calls, and the callers of each name.
-/

namespace CodeAtlas

open Std (ExtTreeMap ExtTreeSet)

/-- Call references, by caller and by the name that is called. -/
structure CallTable where
  byCaller : ExtTreeMap SymbolId (List String) := ∅
  byCallee : ExtTreeMap String (ExtTreeSet SymbolId) := ∅

instance : Inhabited CallTable := ⟨{}⟩

namespace CallTable

/-- The table without references. -/
def empty : CallTable := {}

/-- The names that a function calls. -/
def names (t : CallTable) (caller : SymbolId) : List String := (t.byCaller[caller]?).getD []

/-- The functions that call a name. -/
def callersOf (t : CallTable) (name : String) : ExtTreeSet SymbolId :=
  (t.byCallee[name]?).getD ∅

/-- Puts a reference in; a repetition changes nothing. -/
def insert (t : CallTable) (r : CallReference) : CallTable where
  byCallee := t.byCallee.insert r.callee ((t.callersOf r.callee).insert r.caller)
  byCaller :=
    let names := t.names r.caller
    t.byCaller.insert r.caller (if names.contains r.callee then names else names ++ [r.callee])

/-- Puts references in, one after the other. -/
def insertAll (t : CallTable) (rs : List CallReference) : CallTable := rs.foldl insert t

/-- Takes a caller from the callers of a name; with the last one the name goes too. -/
def dropCaller (caller : SymbolId) (m : ExtTreeMap String (ExtTreeSet SymbolId)) (name : String) :
    ExtTreeMap String (ExtTreeSet SymbolId) :=
  match m[name]? with
  | some callers =>
    let callers := callers.erase caller
    if callers.isEmpty then m.erase name else m.insert name callers
  | none => m

/-- Takes out the references of a caller. -/
def removeCaller (t : CallTable) (caller : SymbolId) : CallTable where
  byCaller := t.byCaller.erase caller
  byCallee := (t.names caller).foldl (dropCaller caller) t.byCallee

/-- Takes out the references of callers. -/
def removeCallers (t : CallTable) (callers : List SymbolId) : CallTable :=
  callers.foldl removeCaller t

/-- The order by caller and name. -/
def compareReferences : CallReference → CallReference → Ordering :=
  compareLex (compareOn CallReference.caller) (compareOn CallReference.callee)

/-- All references, by caller and name. -/
def toList (t : CallTable) : List CallReference :=
  (t.byCaller.toList.flatMap (fun (caller, names) => names.map (fun n => ⟨caller, n⟩))).mergeSort
    (fun a b => (compareReferences a b).isLE)

end CallTable

end CodeAtlas
