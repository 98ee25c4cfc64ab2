import CodeAtlas.Symbol.Id

/-!
# Symbols

The record that every extraction method produces.  What only some kinds of symbols have lives in
`SymbolDetail`, with one constructor per kind, so the kind of a symbol is read off its detail and
cannot disagree with it.
-/

namespace CodeAtlas

/-- What is known about a symbol of each kind. -/
inductive SymbolDetail where
  | function (returnType : String) (parameters : List String) (complexity : Complexity)
      (score : UInt32)
  | record (members : List String)
  | global (dataType : String) (isStatic isConst : Bool)
  /-- A definition of the preprocessor; one that takes no argument list has no parameters. -/
  | define (parameters : Option (List String)) (value : String)
  | alias (underlying : String)
  | enumeration (values : List String)
  deriving DecidableEq, Repr, Inhabited

namespace SymbolDetail

/-- The kind of a detail. -/
def kind : SymbolDetail → SymbolKind
  | .function .. => .function
  | .record .. => .record
  | .global .. => .global
  | .define .. => .define
  | .alias .. => .alias
  | .enumeration .. => .enumeration

/-- The detail of a function that was not measured. -/
def unmeasured (returnType : String) (parameters : List String) : SymbolDetail :=
  .function returnType parameters .low 0

/-- A detail with a complexity score; only functions have one. -/
def withScore (score : UInt32) : SymbolDetail → SymbolDetail
  | .function r ps _ _ => .function r ps (Complexity.ofScore score) score
  | d => d

@[simp] theorem kind_withScore (score : UInt32) (d : SymbolDetail) :
    (d.withScore score).kind = d.kind := by
  cases d <;> rfl

end SymbolDetail

/-- A named entity of a source file. -/
structure Symbol where
  id : SymbolId
  name : String
  /-- The path of the file below the project root, with `/` between its parts. -/
  file : String
  /-- The line, counted from one. -/
  line : UInt32
  declaration : String
  origin : Origin
  detail : SymbolDetail
  deriving DecidableEq, Repr, Inhabited

namespace Symbol

/-- The kind of a symbol. -/
def kind (s : Symbol) : SymbolKind := s.detail.kind

/-- Whether a symbol is a function. -/
def isFunction (s : Symbol) : Bool := s.kind == .function

/-- What two symbols of different origins must share to be taken for one. -/
def mergeKey (s : Symbol) : String × String := (s.name, s.file)

/-- A symbol with a complexity score; only functions have one. -/
def withScore (s : Symbol) (score : UInt32) : Symbol :=
  { s with detail := s.detail.withScore score }

/-- The complexity of a function. -/
def complexity? (s : Symbol) : Option Complexity :=
  match s.detail with
  | .function _ _ c _ => some c
  | _ => none

/-- What the detail of a symbol adds to the text it is searched by. -/
def detailText : SymbolDetail → List String
  | .function returnType parameters _ _ =>
    ("returns " ++ returnType) ::
      (if parameters.isEmpty then [] else ["parameters: " ++ ", ".intercalate parameters])
  | .record members => if members.isEmpty then [] else ["members: " ++ ", ".intercalate members]
  | .enumeration values => if values.isEmpty then [] else ["values: " ++ ", ".intercalate values]
  | .alias underlying => ["alias of " ++ underlying]
  | .global dataType _ _ => ["type " ++ dataType]
  | .define .. => []

/-- The text by which a symbol is found in a search in natural language. -/
def searchableText (s : Symbol) : String :=
  " ".intercalate ([s.name, s.kind.name, "in " ++ s.file] ++
    (if s.declaration.isEmpty then [] else [s.declaration]) ++ detailText s.detail)

end Symbol

/-- How an include directive names its file. -/
inductive IncludeStyle where
  /-- Between quotes. -/
  | quoted
  /-- Between angle brackets. -/
  | system
  deriving DecidableEq, Repr, Inhabited

/-- The written name of a style. -/
def IncludeStyle.name : IncludeStyle → String
  | .quoted => "quoted"
  | .system => "system"

/-- The style with a written name. -/
def IncludeStyle.ofName? (s : String) : Option IncludeStyle :=
  [IncludeStyle.quoted, .system].find? (fun i => i.name == s)

@[simp] theorem IncludeStyle.ofName?_name (i : IncludeStyle) : ofName? i.name = some i := by
  cases i <;> decide

/-- An include directive: the file that holds it and the path it names, which is not looked up. -/
structure IncludeEdge where
  file : String
  target : String
  style : IncludeStyle
  deriving DecidableEq, Repr, Inhabited

/-- A call from a function to a name. -/
structure CallReference where
  caller : SymbolId
  callee : String
  deriving DecidableEq, Repr, Inhabited

/-- A call from a function to a function. -/
structure CallEdge where
  caller : SymbolId
  callee : SymbolId
  deriving DecidableEq, Repr, Inhabited

/-- Everything extracted from a file, or from several of them in order. -/
structure Extraction where
  symbols : List Symbol := []
  calls : List CallReference := []
  includes : List IncludeEdge := []
  deriving DecidableEq, Inhabited

/-- Whether nothing was found. -/
def Extraction.isEmpty (e : Extraction) : Bool :=
  e.symbols.isEmpty && e.calls.isEmpty && e.includes.isEmpty

/-- Two extractions one after the other. -/
def Extraction.append (e f : Extraction) : Extraction :=
  ⟨e.symbols ++ f.symbols, e.calls ++ f.calls, e.includes ++ f.includes⟩

end CodeAtlas
