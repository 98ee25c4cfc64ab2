import CodeAtlas.Extraction.Finding
import CodeAtlas.Extraction.Score
import CodeAtlas.Language
import CodeAtlas.Error

/-!
# Extraction of a file

The findings of a file become its symbols, call references and include edges.  The symbols are
numbered in the order in which they are found, and the number goes into the identifier, so two
symbols of one file never have the same content.  Afterwards the functions get the scores of their
names.
-/

namespace CodeAtlas

/-- The symbol of a draft that is found as the `ordinal`-th of a file. -/
def SymbolDraft.toSymbol (d : SymbolDraft) (file : String) (origin : Origin) (ordinal : Nat) :
    Symbol where
  id := SymbolId.derive ⟨origin, d.detail.kind, d.name, file, d.line, ordinal.toUInt32⟩
  name := d.name
  file := file
  line := d.line
  declaration := d.declaration
  origin := origin
  detail := d.detail

namespace Extraction

/-- The symbols of findings with the names that each of them calls, numbered from `ordinal`. -/
def numbered (file : String) (ordinal : Nat) : List Finding → List (Symbol × List String)
  | [] => []
  | .symbol d callees :: rest =>
    (d.toSymbol file .syntaxTree ordinal, callees) :: numbered file (ordinal + 1) rest
  | .include_ .. :: rest => numbered file ordinal rest

/-- The include edges of findings. -/
def includesOf (file : String) (found : List Finding) : List IncludeEdge :=
  found.filterMap fun
    | .include_ target style => some ⟨file, target, style⟩
    | .symbol .. => none

/-- What findings amount to. -/
def ofFindings (file : String) (found : List Finding) : Extraction :=
  let symbols := numbered file 0 found
  { symbols := symbols.map (·.1)
    calls := symbols.flatMap (fun (s, callees) => callees.map (fun c => ⟨s.id, c⟩))
    includes := includesOf file found }

/-- A symbol with the score of its name; only functions have one. -/
def scored (scores : Scores) (s : Symbol) : Symbol :=
  match scores[s.name]? with
  | some score => s.withScore score
  | none => s

/-- An extraction with scores. -/
def withScores (scores : Scores) (e : Extraction) : Extraction :=
  { e with symbols := e.symbols.map (scored scores) }

/-- What is extracted from a file with a given reading of its text and its syntax tree. -/
def ofTree (measurer : Measurer) (file : String) (read : Reading) (tree : SyntaxNode) :
    Extraction :=
  (ofFindings file (tree.findings read .file)).withScores (measurer.measure read tree)

end Extraction

/-- The content of a file: its bytes, and the syntax tree that a parser built over its text. -/
structure FileContent where
  bytes : ByteArray
  tree : Option SyntaxNode := none
  deriving Inhabited

/-- What is extracted from a file.  Its path must have the extension of a source language, and a
parser must have built a tree. -/
def FileContent.extract (measurer : Measurer) (file : String) (content : FileContent) :
    Except IndexError Extraction :=
  match Language.ofPath? file with
  | none => .error (.parse file "unsupported file extension")
  | some _ =>
    match content.tree with
    | none => .error (.parse file "parser returned no tree")
    | some tree =>
      .ok (Extraction.ofTree measurer file (readingOf (Text.decodeLossy content.bytes)) tree)

end CodeAtlas
