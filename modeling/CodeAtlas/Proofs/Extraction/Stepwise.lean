import CodeAtlas.Extraction.Basic
import CodeAtlas.Proofs.Extraction.Visits
import CodeAtlas.Proofs.SyntaxTree.Placement

/-!
# The extraction, operation by operation

Two operations of an extraction can fail: cutting a range out of the text, and adding two words.
Here the extraction is written over operations that are given (`Primitives`), in the order in which
it performs them.  A text is cut out even where nothing comes of it, like that of a type definition
without a name, and every symbol and every decision point is counted by an addition.

Looking at the nodes of a tree and at their fields cannot fail, so the searches for names and the
walk are taken as they are.
-/

namespace CodeAtlas

/-- The operations of an extraction that can fail. -/
structure Primitives (m : Type → Type) where
  /-- Cuts a range out of the text. -/
  cut : Span → m String
  /-- Adds two words. -/
  add : UInt32 → UInt32 → m UInt32

/-- What stops an extraction. -/
inductive Fault where
  /-- A range that cannot be cut out of the text. -/
  | cut (range : Span)
  /-- Two words with a sum that is none. -/
  | overflow (a b : UInt32)
  deriving DecidableEq, Repr

namespace Primitives

open SyntaxNode

/-- Operations that always give something: the empty text for a range that cannot be cut out, and
the low bits of a sum. -/
def total (text : String) : Primitives Id where
  cut := readingOf text
  add a b := a + b

/-- Operations that stop at a fault. -/
def checked (text : String) : Primitives (Except Fault) where
  cut s :=
    match cut? text s with
    | some t => .ok t
    | none => .error (.cut s)
  add a b := if a.toNat + b.toNat < wordValues 32 then .ok (a + b) else .error (.overflow a b)

variable {m : Type → Type} [Monad m] (p : Primitives m)

/-! ### Names -/

/-- The text that a node covers. -/
def text (n : SyntaxNode) : m String := p.cut n.span

/-- The text of the node of a declared name. -/
def nameText (n : SyntaxNode) : m String :=
  if isSpacedName n.kind then Text.collapse <$> p.text n
  else if n.kind == "qualified_identifier" then p.text (lastNamePart n)
  else p.text n

/-- The name that a declarator declares. -/
def declaratorName? (n : SyntaxNode) : m (Option String) := (declaredName? n).mapM p.nameText

/-- The name of a function definition, without the scopes that qualify it. -/
def functionName? (n : SyntaxNode) : m (Option String) := (functionNameNode? n).mapM p.nameText

/-- The name that a call expression calls. -/
def calledName? (n : SyntaxNode) : m (Option String) :=
  if n.kind == "call_expression" then ((n.inField? "function").bind calleeNode?).mapM p.text
  else pure none

/-! ### Functions -/

/-- The type that a function returns, from the text before its declarator. -/
def returnType (definition declarator : SyntaxNode) : m String := do
  let specifiers ← p.cut ⟨definition.span.start, declarator.span.start⟩
  pure (SyntaxNode.returnType (fun _ => specifiers) definition declarator)

/-- The parameters of an argument list; a lone `void` stands for none. -/
def parameters (list : SyntaxNode) : m (List String) := do
  let texts ← (list.namedChildren.filter (·.kind != "comment")).mapM
    (fun c => Text.collapse <$> p.text c)
  pure (if texts = ["void"] then [] else texts)

/-- The declaration of a function: all of it before the body. -/
def signature (n : SyntaxNode) : m String :=
  match n.inField? "body" with
  | some body => Text.collapse <$> p.cut ⟨n.span.start, body.span.start⟩
  | none => Text.collapse <$> p.text n

/-- The names called in a function body, each once, in the order of the first calls. -/
def callees (body : SyntaxNode) : m (List String) :=
  firstOccurrences <$> body.preorder.filterMapM p.calledName?

/-- The symbol of a function definition and its calls. -/
def functionFindings (n : SyntaxNode) : m (List Finding) := do
  match ← p.functionName? n, n.inField? "declarator" with
  | some name, some declarator =>
    let type ← p.returnType n declarator
    let list := (functionDeclarator? declarator).bind (·.inField? "parameters")
    let ps ← list.mapM p.parameters
    let declaration ← p.signature n
    let called ← (n.inField? "body").mapM p.callees
    pure [.symbol ⟨name, n.line, declaration, .unmeasured type (ps.getD [])⟩ (called.getD [])]
  | _, _ => pure []

/-! ### Types -/

/-- The members of a record's body. -/
def members (body : SyntaxNode) : m (List String) :=
  (body.namedChildren.filter (·.kind == "field_declaration")).mapM
    fun c => (fun t => Text.collapse (Text.trimRightChar ';' t)) <$> p.text c

/-- The symbol of a record that has a name and a body. -/
def recordFindings (n : SyntaxNode) : m (List Finding) :=
  match n.inField? "name", n.inField? "body" with
  | some nameNode, some body => do
    let name ← p.text (lastNamePart nameNode)
    let ms ← p.members body
    pure [.symbol ⟨name, n.line, recordDeclaration (keyword n.kind) name ms, .record ms⟩ []]
  | _, _ => pure []

/-- The names of the values in an enumeration's body. -/
def enumerators (body : SyntaxNode) : m (List String) :=
  (body.namedChildren.filter (·.kind == "enumerator")).filterMapM
    fun c => (c.inField? "name").mapM p.text

/-- The symbol of an enumeration that has a name and a body. -/
def enumerationFindings (n : SyntaxNode) : m (List Finding) :=
  match n.inField? "name", n.inField? "body" with
  | some nameNode, some body => do
    let name ← p.text (lastNamePart nameNode)
    let values ← p.enumerators body
    pure [.symbol ⟨name, n.line, "enum " ++ name ++ " \x7b " ++ ", ".intercalate values ++ " \x7d",
      .enumeration values⟩ []]
  | _, _ => pure []

/-- The text of a type for which a name is defined. -/
def underlyingType (type : SyntaxNode) : m String :=
  if NodeRole.ofKind type.kind = .record ∨ NodeRole.ofKind type.kind = .enumeration then
    match type.inField? "name" with
    | some name => (fun t => keyword type.kind ++ " " ++ t) <$> p.text name
    | none => pure (keyword type.kind ++ " <anonymous>")
  else Text.collapse <$> p.text type

/-- The symbols of a type definition: one for each name that it defines. -/
def typeDefinitionFindings (n : SyntaxNode) : m (List Finding) := do
  let declaration ← Text.collapse <$> p.text n
  if n.kind == "alias_declaration" then
    match n.inField? "name", n.inField? "type" with
    | some nameNode, some type =>
      let name ← p.text nameNode
      let underlying ← Text.collapse <$> p.text type
      pure [.symbol ⟨name, n.line, declaration, .alias underlying⟩ []]
    | _, _ => pure []
  else
    let base ← (n.inField? "type").mapM p.underlyingType
    (n.allInField "declarator").filterMapM fun d => do
      let name? ← p.declaratorName? d
      pure (name?.map fun name => .symbol
        ⟨name, n.line, declaration, .alias (withPointers (base.getD "") (pointerDepth d))⟩ [])

/-! ### The preprocessor -/

/-- The symbol of a definition of the preprocessor. -/
def defineFindings (n : SyntaxNode) : m (List Finding) :=
  match n.inField? "name" with
  | some nameNode => do
    let name ← p.text nameNode
    let value ← (n.inField? "value").mapM fun v => Text.trim <$> p.text v
    let ps ← (n.inField? "parameters").mapM fun list => list.namedChildren.mapM p.text
    let declaration ← Text.collapse <$> p.text n
    pure [.symbol ⟨name, n.line, declaration, .define ps (value.getD "")⟩ []]
  | none => pure []

/-- The include edge of a directive that names a file. -/
def includeFindings (n : SyntaxNode) : m (List Finding) :=
  match n.inField? "path" with
  | some pathNode => do
    let path ← p.text pathNode
    pure (SyntaxNode.includeFindings (fun _ => path) n)
  | none => pure []

/-! ### Variables -/

/-- Whether a declaration has a child of a kind that reads as one of some words.  The texts of all
children are cut out. -/
def hasSpecifier (n : SyntaxNode) (kind : String) (words : List String) : m Bool := do
  let found ← n.children.mapM fun c => (fun t => c.kind == kind && words.contains t) <$> p.text c
  pure (found.any id)

/-- The symbols of a declaration at file scope: one for each variable that it declares. -/
def variableFindings (n : SyntaxNode) : m (List Finding) :=
  match n.inField? "type" with
  | some type => do
    let base ← Text.collapse <$> p.text type
    let isStatic ← p.hasSpecifier n "storage_class_specifier" ["static"]
    let isConst ← p.hasSpecifier n "type_qualifier" ["const", "constexpr"]
    (n.allInField "declarator").filterMapM fun d =>
      let target := declaratorTarget d
      if isPrototype target then pure none
      else do
        (← p.declaratorName? target).mapM fun name => do
          let specifiers ← Text.collapse <$> p.cut ⟨n.span.start, type.span.stop⟩
          let own ← Text.collapse <$> p.text d
          pure (.symbol ⟨name, d.line, specifiers ++ " " ++ own ++ ";",
            .global (withPointers base (pointerDepth target)) isStatic isConst⟩ [])
  | none => pure []

/-! ### The walk -/

/-- What a node contributes by itself. -/
def ownFindings (scope : Scope) (n : SyntaxNode) : m (List Finding) :=
  match NodeRole.ofKind n.kind with
  | .function => p.functionFindings n
  | .record => p.recordFindings n
  | .enumeration => p.enumerationFindings n
  | .typeDefinition => p.typeDefinitionFindings n
  | .define => p.defineFindings n
  | .include_ => p.includeFindings n
  | .declaration => if scope = .file then p.variableFindings n else pure []
  | .block => pure []
  | .transparent => pure []

/-- All that is found in a tree. -/
def findings (tree : SyntaxNode) : m (List Finding) :=
  (tree.visits .file).flatMapM fun visit => p.ownFindings visit.1 visit.2

/-- The symbols of findings with the names that each of them calls.  Each is numbered, and the next
number is the sum with one. -/
def numbered (file : String) (ordinal : UInt32) : List Finding → m (List (Symbol × List String))
  | [] => pure []
  | .symbol d callees :: rest => do
    let next ← p.add ordinal 1
    let later ← numbered file next rest
    pure ((d.toSymbol file .syntaxTree ordinal.toNat, callees) :: later)
  | .include_ .. :: rest => numbered file ordinal rest

/-! ### Scores -/

/-- Whether a node is a decision point. -/
def isDecision (n : SyntaxNode) : m Bool :=
  if n.kind == "case_statement" then pure (n.inField? "value").isSome
  else if n.kind == "binary_expression" then
    match n.inField? "operator" with
    | some op => (fun t => ["&&", "||", "and", "or"].contains t) <$> p.text op
    | none => pure false
  else pure (isBranch n.kind)

mutual

/-- The number of decision points in a tree. -/
def decisionPoints : SyntaxNode → m UInt32
  | ⟨kind, named, field, span, row, children⟩ => do
    let own ← p.isDecision ⟨kind, named, field, span, row, children⟩
    decisionPointsAll (if own then 1 else 0) children

/-- A number of decision points, and those in a list of trees added to it. -/
def decisionPointsAll (total : UInt32) : List SyntaxNode → m UInt32
  | [] => pure total
  | c :: cs => do
    let below ← decisionPoints c
    let sum ← p.add total below
    decisionPointsAll sum cs

end

/-- The name and score of a function definition that has a body. -/
def namedScore? (n : SyntaxNode) : m (Option (String × UInt32)) :=
  if n.kind == "function_definition" then do
    match ← p.functionName? n, n.inField? "body" with
    | some name, some body =>
      let points ← p.decisionPoints body
      let score ← p.add 1 points
      pure (some (name, score))
    | _, _ => pure none
  else pure none

/-- The scores of the functions of a tree. -/
def measure (measurer : Measurer) (tree : SyntaxNode) : m Scores :=
  match measurer with
  | .cyclomatic => do
    let scores ← tree.preorder.filterMapM p.namedScore?
    pure (scores.foldl (fun scores (name, score) => scores.raise name score) ∅)
  | .unmeasured => pure ∅

/-! ### Files -/

/-- What is extracted from a syntax tree. -/
def ofTree (measurer : Measurer) (file : String) (tree : SyntaxNode) : m Extraction := do
  let found ← p.findings tree
  let symbols ← p.numbered file 0 found
  let scores ← p.measure measurer tree
  pure (Extraction.withScores scores
    { symbols := symbols.map (·.1)
      calls := symbols.flatMap (fun (s, callees) => callees.map (fun c => ⟨s.id, c⟩))
      includes := Extraction.includesOf file found })

end Primitives

/-- What is extracted from a file, with the operations that belong to its text. -/
def FileContent.extractBy {m : Type → Type} [Monad m] (primitives : String → Primitives m)
    (measurer : Measurer) (file : String) (content : FileContent) :
    m (Except IndexError Extraction) :=
  match Language.ofPath? file with
  | none => pure (.error (.parse file "unsupported file extension"))
  | some _ =>
    match content.tree with
    | none => pure (.error (.parse file "parser returned no tree"))
    | some tree =>
      .ok <$> (primitives (Text.decodeLossy content.bytes)).ofTree measurer file tree

end CodeAtlas
