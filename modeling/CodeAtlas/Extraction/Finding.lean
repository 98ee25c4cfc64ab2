import CodeAtlas.SyntaxTree.Declarator
import CodeAtlas.Symbol.Basic

/-!
# What is found in a syntax tree

The tree of a file is walked from the root, and every node of interest contributes *findings*: a
symbol that is still without an identifier, together with the names that it calls, or an include
directive.  The findings come in the order in which the nodes stand.

The walk does not enter everything.  Of a function it enters the body, of a declaration or a type
definition the type, of an enumeration nothing.  It knows whether it is at file scope, because only
there a declaration declares a variable worth indexing.
-/

namespace CodeAtlas

/-- A symbol as it is found: all but its file, its origin and its identifier. -/
structure SymbolDraft where
  name : String
  line : UInt32
  declaration : String
  detail : SymbolDetail
  deriving DecidableEq, Repr, Inhabited

/-- What a node contributes. -/
inductive Finding where
  /-- A symbol and the names it calls; only functions call. -/
  | symbol (draft : SymbolDraft) (callees : List String)
  | include_ (target : String) (style : IncludeStyle)
  deriving DecidableEq, Repr, Inhabited

/-- Whether a node stands at file scope or inside a definition. -/
inductive Scope where
  | file
  | nested
  deriving DecidableEq, Repr

/-- What the walk does at a node. -/
inductive NodeRole where
  | function
  /-- A structure, union or class. -/
  | record
  | enumeration
  | typeDefinition
  | define
  | include_
  | declaration
  /-- A block: what stands in it is not at file scope. -/
  | block
  /-- Anything else; what stands in it has the scope of the node. -/
  | transparent
  deriving DecidableEq, Repr

/-- The role of a kind of nodes. -/
def NodeRole.ofKind (kind : String) : NodeRole :=
  if kind == "function_definition" then .function
  else if kind == "struct_specifier" || kind == "union_specifier" || kind == "class_specifier" then
    .record
  else if kind == "enum_specifier" then .enumeration
  else if kind == "type_definition" || kind == "alias_declaration" then .typeDefinition
  else if kind == "preproc_def" || kind == "preproc_function_def" then .define
  else if kind == "preproc_include" then .include_
  else if kind == "declaration" then .declaration
  else if kind == "compound_statement" || kind == "field_declaration_list" ||
    kind == "parameter_list" || kind == "lambda_expression" then .block
  else .transparent

namespace SyntaxNode

/-- The words that say how a declaration is stored and not what its type is. -/
def storageWords : List String :=
  ["static", "inline", "extern", "register", "auto", "__inline", "__inline__"]

/-- A type with pointers to it. -/
def withPointers (base : String) (depth : Nat) : String :=
  if depth = 0 then base else base ++ " " ++ String.ofList (List.replicate depth '*')

/-- The type that a function returns: the text before its declarator without the storage words, or
`void` if nothing is left, with the pointers of the declarator. -/
def returnType (read : Reading) (definition declarator : SyntaxNode) : String :=
  let specifiers := read ⟨definition.span.start, declarator.span.start⟩
  let words := (Text.words specifiers).filter (fun w => !storageWords.contains w)
  let base := if words.isEmpty then "void" else " ".intercalate words
  withPointers base (pointerDepth declarator)

/-- The parameters of an argument list; a lone `void` stands for none. -/
def parameters (read : Reading) (list : SyntaxNode) : List String :=
  let texts := (list.namedChildren.filter (fun p => p.kind != "comment")).map
    (fun p => Text.collapse (p.text read))
  if texts = ["void"] then [] else texts

/-- The declaration of a function: all of it before the body. -/
def signature (read : Reading) (n : SyntaxNode) : String :=
  match n.inField? "body" with
  | some body => Text.collapse (read ⟨n.span.start, body.span.start⟩)
  | none => Text.collapse (n.text read)

/-- A name as the first of each of its kind: later repetitions are dropped. -/
def firstOccurrences : List String → List String
  | [] => []
  | x :: xs => x :: firstOccurrences (xs.filter (· != x))
termination_by xs => xs.length
decreasing_by
  simpa using Nat.lt_succ_of_le (List.length_filter_le _ _)

/-- The names called in a function body, each once, in the order of the first calls. -/
def callees (read : Reading) (body : SyntaxNode) : List String :=
  firstOccurrences (body.preorder.filterMap (calledName? read))

/-- The symbol of a function definition and its calls. -/
def functionFindings (read : Reading) (n : SyntaxNode) : List Finding :=
  match functionName? read n, n.inField? "declarator" with
  | some name, some declarator =>
    let list := (functionDeclarator? declarator).bind (·.inField? "parameters")
    let detail := SymbolDetail.unmeasured (returnType read n declarator)
      ((list.map (parameters read)).getD [])
    [.symbol ⟨name, n.line, signature read n, detail⟩
      (((n.inField? "body").map (callees read)).getD [])]
  | _, _ => []

/-- The keyword of a record or enumeration. -/
def keyword (kind : String) : String :=
  if kind == "struct_specifier" then "struct"
  else if kind == "union_specifier" then "union"
  else if kind == "class_specifier" then "class"
  else "enum"

/-- The members of a record's body. -/
def members (read : Reading) (body : SyntaxNode) : List String :=
  (body.namedChildren.filter (fun c => c.kind == "field_declaration")).map
    (fun c => Text.collapse (Text.trimRightChar ';' (c.text read)))

/-- The declaration of a record, with a line for each member. -/
def recordDeclaration (keyword name : String) (members : List String) : String :=
  keyword ++ " " ++ name ++ " \x7b" ++
    String.join (members.map (fun m => "\n  " ++ m ++ ";")) ++ "\n\x7d"

/-- The symbol of a record that has a name and a body. -/
def recordFindings (read : Reading) (n : SyntaxNode) : List Finding :=
  match n.inField? "name", n.inField? "body" with
  | some nameNode, some body =>
    let name := (lastNamePart nameNode).text read
    let ms := members read body
    [.symbol ⟨name, n.line, recordDeclaration (keyword n.kind) name ms, .record ms⟩ []]
  | _, _ => []

/-- The names of the values in an enumeration's body. -/
def enumerators (read : Reading) (body : SyntaxNode) : List String :=
  (body.namedChildren.filter (fun c => c.kind == "enumerator")).filterMap
    (fun c => (c.inField? "name").map (fun m => m.text read))

/-- The symbol of an enumeration that has a name and a body. -/
def enumerationFindings (read : Reading) (n : SyntaxNode) : List Finding :=
  match n.inField? "name", n.inField? "body" with
  | some nameNode, some body =>
    let name := (lastNamePart nameNode).text read
    let values := enumerators read body
    [.symbol ⟨name, n.line, "enum " ++ name ++ " \x7b " ++ ", ".intercalate values ++ " \x7d",
      .enumeration values⟩ []]
  | _, _ => []

/-- The text of a type for which a name is defined.  Of a record or enumeration only the keyword
and the name are kept. -/
def underlyingType (read : Reading) (type : SyntaxNode) : String :=
  if NodeRole.ofKind type.kind = .record ∨ NodeRole.ofKind type.kind = .enumeration then
    match type.inField? "name" with
    | some name => keyword type.kind ++ " " ++ name.text read
    | none => keyword type.kind ++ " <anonymous>"
  else Text.collapse (type.text read)

/-- The symbols of a type definition: one for each name that it defines. -/
def typeDefinitionFindings (read : Reading) (n : SyntaxNode) : List Finding :=
  let declaration := Text.collapse (n.text read)
  if n.kind == "alias_declaration" then
    match n.inField? "name", n.inField? "type" with
    | some name, some type =>
      [.symbol ⟨name.text read, n.line, declaration, .alias (Text.collapse (type.text read))⟩ []]
    | _, _ => []
  else
    let base := ((n.inField? "type").map (underlyingType read)).getD ""
    (n.allInField "declarator").filterMap fun d =>
      (declaratorName? read d).map fun name =>
        .symbol ⟨name, n.line, declaration, .alias (withPointers base (pointerDepth d))⟩ []

/-- The symbol of a definition of the preprocessor. -/
def defineFindings (read : Reading) (n : SyntaxNode) : List Finding :=
  match n.inField? "name" with
  | some nameNode =>
    let value := ((n.inField? "value").map (fun v => Text.trim (v.text read))).getD ""
    let ps := (n.inField? "parameters").map
      (fun list => list.namedChildren.map (fun p => p.text read))
    [.symbol ⟨nameNode.text read, n.line, Text.collapse (n.text read), .define ps value⟩ []]
  | none => []

/-- The include edge of a directive that names a file; one that names it by a definition of the
preprocessor gives none. -/
def includeFindings (read : Reading) (n : SyntaxNode) : List Finding :=
  match n.inField? "path" with
  | some pathNode =>
    let raw := Text.trim (pathNode.text read)
    if pathNode.kind == "system_lib_string" then
      [.include_ (Text.trimRightChar '>' (Text.trimLeftChar '<' raw)) .system]
    else if pathNode.kind == "string_literal" then [.include_ (Text.trimChar '"' raw) .quoted]
    else []
  | none => []

/-- Whether a declaration has a child of a kind that reads as one of some words. -/
def hasSpecifier (read : Reading) (n : SyntaxNode) (kind : String) (words : List String) : Bool :=
  n.children.any (fun c => c.kind == kind && words.contains (c.text read))

/-- A declarator without the value that it is initialised with. -/
def declaratorTarget (d : SyntaxNode) : SyntaxNode :=
  if d.kind == "init_declarator" then (d.inField? "declarator").getD d else d

/-- The symbols of a declaration at file scope: one for each variable that it declares. -/
def variableFindings (read : Reading) (n : SyntaxNode) : List Finding :=
  match n.inField? "type" with
  | some type =>
    let base := Text.collapse (type.text read)
    let isStatic := hasSpecifier read n "storage_class_specifier" ["static"]
    let isConst := hasSpecifier read n "type_qualifier" ["const", "constexpr"]
    (n.allInField "declarator").filterMap fun d =>
      let target := declaratorTarget d
      if isPrototype target then none
      else
        (declaratorName? read target).map fun name =>
          let declaration := Text.collapse (read ⟨n.span.start, type.span.stop⟩) ++ " " ++
            Text.collapse (d.text read) ++ ";"
          .symbol ⟨name, d.line, declaration,
            .global (withPointers base (pointerDepth target)) isStatic isConst⟩ []
  | none => []

/-- What a node contributes by itself. -/
def ownFindings (read : Reading) (scope : Scope) (n : SyntaxNode) : List Finding :=
  match NodeRole.ofKind n.kind with
  | .function => functionFindings read n
  | .record => recordFindings read n
  | .enumeration => enumerationFindings read n
  | .typeDefinition => typeDefinitionFindings read n
  | .define => defineFindings read n
  | .include_ => includeFindings read n
  | .declaration => if scope = .file then variableFindings read n else []
  | .block => []
  | .transparent => []

mutual

/-- All that is found in a tree which stands in a scope. -/
def findings (read : Reading) (scope : Scope) : SyntaxNode → List Finding
  | ⟨kind, named, field, span, row, children⟩ =>
    ownFindings read scope ⟨kind, named, field, span, row, children⟩ ++
      match NodeRole.ofKind kind with
      | .function => findingsInField read .nested "body" children
      | .record => findingsInAll read .nested children
      | .enumeration => []
      | .typeDefinition => findingsInField read scope "type" children
      | .define => []
      | .include_ => []
      | .declaration => findingsInField read scope "type" children
      | .block => findingsInAll read .nested children
      | .transparent => findingsInAll read scope children

/-- All that is found in a list of trees. -/
def findingsInAll (read : Reading) (scope : Scope) : List SyntaxNode → List Finding
  | [] => []
  | c :: cs => findings read scope c ++ findingsInAll read scope cs

/-- All that is found in the first tree of a list that is held in a field. -/
def findingsInField (read : Reading) (scope : Scope) (name : String) :
    List SyntaxNode → List Finding
  | [] => []
  | c :: cs =>
    if c.field == some name then findings read scope c else findingsInField read scope name cs

end

end SyntaxNode

end CodeAtlas
