import CodeAtlas.Json.Basic
import CodeAtlas.Symbol.Basic

/-!
# Symbols and relations as JSON

The written form of symbols, call references, call edges and include edges, and the reading of it.

A record may be written as an object or, if it has no variable part, as an array of its fields in
order.  A field that is given twice is refused and a field that is not known is passed over.  A
symbol is written flat: the fields of its kind stand beside the common ones, and the field `kind`
says which they are.
-/

namespace CodeAtlas.Json

/-- The value of a field that a record must not give twice: none if it is missing. -/
def field? (members : List (String × Json)) (name : String) : Option (Option Json) :=
  match members.filter (fun m => m.1 == name) with
  | [] => some none
  | [m] => some (some m.2)
  | _ => none

/-- The value of a field that must be given once. -/
def required? (members : List (String × Json)) (name : String) (read : Json → Option α) :
    Option α :=
  match field? members name with
  | some (some j) => read j
  | _ => none

/-- The value of a field that may be missing, and then has a default. -/
def defaulted? (members : List (String × Json)) (name : String) (read : Json → Option α)
    (default : α) : Option α :=
  match field? members name with
  | some (some j) => read j
  | some none => some default
  | none => none

/-- The members of a record with the given fields, which may be written as an array. -/
def record? (fields : List String) : Json → Option (List (String × Json))
  | .obj members => some members
  | .arr items => if items.length ≤ fields.length then some (fields.zip items) else none
  | _ => none

/-- The text of a choice: a string, or an object whose only member has that name and holds
nothing. -/
def choice? : Json → Option String
  | .str s => some s
  | .obj [(s, .null)] => some s
  | _ => none

end CodeAtlas.Json

namespace CodeAtlas

/-- The written form of an identifier. -/
def SymbolId.toJson (id : SymbolId) : Json := .str id.text

/-- Reads an identifier. -/
def SymbolId.ofJson? (j : Json) : Option SymbolId := j.text?.map SymbolId.mk

/-- The fields of a detail. -/
def SymbolDetail.toMembers : SymbolDetail → List (String × Json)
  | .function returnType parameters complexity score =>
    [("return_type", .str returnType), ("parameters", .strings parameters),
      ("complexity", .str complexity.name), ("complexity_score", .nat score.toNat)]
  | .record members => [("members", .strings members)]
  | .global dataType isStatic isConst =>
    [("data_type", .str dataType), ("is_static", .bool isStatic), ("is_const", .bool isConst)]
  | .define parameters value =>
    [("parameters", (parameters.map Json.strings).getD .null), ("value", .str value)]
  | .alias underlying => [("underlying", .str underlying)]
  | .enumeration values => [("values", .strings values)]

/-- Reads the fields of a detail of the given kind. -/
def SymbolDetail.ofMembers? (ms : List (String × Json)) : SymbolKind → Option SymbolDetail
  | .function => do
    let returnType ← Json.required? ms "return_type" Json.text?
    let parameters ← Json.required? ms "parameters" Json.strings?
    let complexity ← Json.required? ms "complexity" (fun j => j.choice?.bind Complexity.ofName?)
    let score ← Json.defaulted? ms "complexity_score" Json.word32? 0
    return .function returnType parameters complexity score
  | .record => (Json.required? ms "members" Json.strings?).map .record
  | .global => do
    let dataType ← Json.required? ms "data_type" Json.text?
    let isStatic ← Json.defaulted? ms "is_static" Json.bool? false
    let isConst ← Json.defaulted? ms "is_const" Json.bool? false
    return .global dataType isStatic isConst
  | .define => do
    let parameters ← Json.defaulted? ms "parameters"
      (fun j => match j with
        | .null => some none
        | j => j.strings?.map some) none
    let value ← Json.required? ms "value" Json.text?
    return .define parameters value
  | .alias => (Json.required? ms "underlying" Json.text?).map .alias
  | .enumeration => (Json.required? ms "values" Json.strings?).map .enumeration

/-- The kinds in the order in which they are counted where a kind is given by its place. -/
def SymbolKind.byPlace : List SymbolKind :=
  [.function, .record, .global, .define, .enumeration, .alias]

/-- Reads the kind of a symbol: its name or its place in the list of kinds. -/
def SymbolKind.ofJson? : Json → Option SymbolKind
  | .str s => ofName? s
  | .int n => if 0 ≤ n then byPlace[n.toNat]? else none
  | _ => none

/-- The written form of a symbol. -/
def Symbol.toJson (s : Symbol) : Json :=
  .obj ([("id", s.id.toJson), ("name", .str s.name), ("file_path", .str s.file),
    ("line_number", .nat s.line.toNat), ("declaration", .str s.declaration),
    ("source", .str s.origin.name), ("kind", .str s.kind.name)] ++ s.detail.toMembers)

/-- Reads a symbol. -/
def Symbol.ofJson? : Json → Option Symbol
  | .obj ms => do
    let id ← Json.required? ms "id" SymbolId.ofJson?
    let name ← Json.required? ms "name" Json.text?
    let file ← Json.required? ms "file_path" Json.text?
    let line ← Json.required? ms "line_number" Json.word32?
    let declaration ← Json.required? ms "declaration" Json.text?
    let origin ← Json.required? ms "source" (fun j => j.choice?.bind Origin.ofName?)
    let kind ← Json.required? ms "kind" SymbolKind.ofJson?
    let detail ← SymbolDetail.ofMembers? ms kind
    return ⟨id, name, file, line, declaration, origin, detail⟩
  | _ => none

/-- The written form of a call reference. -/
def CallReference.toJson (r : CallReference) : Json :=
  .obj [("caller_id", r.caller.toJson), ("callee_name", .str r.callee)]

/-- Reads a call reference. -/
def CallReference.ofJson? (j : Json) : Option CallReference := do
  let ms ← j.record? ["caller_id", "callee_name"]
  let caller ← Json.required? ms "caller_id" SymbolId.ofJson?
  let callee ← Json.required? ms "callee_name" Json.text?
  return ⟨caller, callee⟩

/-- The written form of a call edge. -/
def CallEdge.toJson (e : CallEdge) : Json :=
  .obj [("caller_id", e.caller.toJson), ("callee_id", e.callee.toJson)]

/-- Reads a call edge. -/
def CallEdge.ofJson? (j : Json) : Option CallEdge := do
  let ms ← j.record? ["caller_id", "callee_id"]
  let caller ← Json.required? ms "caller_id" SymbolId.ofJson?
  let callee ← Json.required? ms "callee_id" SymbolId.ofJson?
  return ⟨caller, callee⟩

/-- The written form of an include edge. -/
def IncludeEdge.toJson (e : IncludeEdge) : Json :=
  .obj [("including_file", .str e.file), ("included_path", .str e.target),
    ("style", .str e.style.name)]

/-- Reads an include edge. -/
def IncludeEdge.ofJson? (j : Json) : Option IncludeEdge := do
  let ms ← j.record? ["including_file", "included_path", "style"]
  let file ← Json.required? ms "including_file" Json.text?
  let target ← Json.required? ms "included_path" Json.text?
  let style ← Json.required? ms "style" (fun j => j.choice?.bind IncludeStyle.ofName?)
  return ⟨file, target, style⟩

/-- Reads an array with a reader for its items. -/
def Json.listOf? (read : Json → Option α) : Json → Option (List α)
  | .arr items => items.mapM read
  | _ => none

end CodeAtlas
