import CodeAtlas.Text.Ascii

/-!
# Kinds, origins and complexity of symbols

Six kinds of symbols are indexed, four extraction methods report them, and a function's score falls
into one of three classes of complexity.  Each of these has a written name; kinds are also read from
a number of shorter names, in either case of letters.
-/

namespace CodeAtlas

/-- What a symbol is. -/
inductive SymbolKind where
  | function
  /-- A structure, union or class. -/
  | record
  /-- A variable at file scope. -/
  | global
  /-- A definition of the preprocessor. -/
  | define
  /-- A name for a type. -/
  | alias
  | enumeration
  deriving DecidableEq, Repr, Inhabited

namespace SymbolKind

/-- All kinds, in the order in which counts are listed. -/
def all : List SymbolKind := [.function, .record, .global, .define, .alias, .enumeration]

/-- The written name of a kind. -/
def name : SymbolKind → String
  | .function => "function"
  | .record => "structure"
  | .global => "variable"
  | .define => "macro"
  | .alias => "typedef"
  | .enumeration => "enum"

/-- The kind with a written name. -/
def ofName? (s : String) : Option SymbolKind := all.find? (fun k => k.name == s)

/-- The kind that a user asks for; short names and either case are allowed.  Where the text names
none, the error carries it in lower case. -/
def parse (s : String) : Except String SymbolKind :=
  let s := Text.lowerAscii s
  if ["function", "func", "fn"].contains s then .ok .function
  else if ["structure", "struct", "class", "union"].contains s then .ok .record
  else if ["variable", "var"].contains s then .ok .global
  else if ["macro", "define"].contains s then .ok .define
  else if ["typedef", "type"].contains s then .ok .alias
  else if s == "enum" then .ok .enumeration
  else .error s

/-- What is said about a text that names no kind. -/
def unknownMessage (s : String) : String := "unknown symbol kind '" ++ s ++ "'"

@[simp] theorem ofName?_name (k : SymbolKind) : ofName? k.name = some k := by
  cases k <;> decide

end SymbolKind

/-- The extraction method that reported a symbol. -/
inductive Origin where
  /-- The syntax tree of the file. -/
  | syntaxTree
  /-- A stream of tags. -/
  | ctags
  /-- A cross-reference database. -/
  | cscope
  /-- A language server. -/
  | clangd
  deriving DecidableEq, Repr, Inhabited

namespace Origin

/-- All origins. -/
def all : List Origin := [.syntaxTree, .ctags, .cscope, .clangd]

/-- The written name of an origin. -/
def name : Origin → String
  | .syntaxTree => "tree-sitter"
  | .ctags => "ctags"
  | .cscope => "cscope"
  | .clangd => "clangd"

/-- The origin with a written name. -/
def ofName? (s : String) : Option Origin := all.find? (fun o => o.name == s)

@[simp] theorem ofName?_name (o : Origin) : ofName? o.name = some o := by
  cases o <;> decide

end Origin

/-- The class of a function's complexity. -/
inductive Complexity where
  | low
  | medium
  | high
  deriving DecidableEq, Repr, Inhabited

namespace Complexity

/-- All classes. -/
def all : List Complexity := [.low, .medium, .high]

/-- The written name of a class. -/
def name : Complexity → String
  | .low => "low"
  | .medium => "medium"
  | .high => "high"

/-- The class with a written name. -/
def ofName? (s : String) : Option Complexity := all.find? (fun c => c.name == s)

@[simp] theorem ofName?_name (c : Complexity) : ofName? c.name = some c := by
  cases c <;> decide

/-- The class of a score: up to 5 is low, up to 10 medium, anything above high.  A function that
was not measured scores 0. -/
def ofScore (score : UInt32) : Complexity :=
  if score ≤ 5 then .low else if score ≤ 10 then .medium else .high

end Complexity

end CodeAtlas
