import CodeAtlas.SyntaxTree.Basic
import CodeAtlas.Text.Blank

/-!
# Declarators and names

In C a declared name stands inside the pointers, arrays, parentheses and argument lists that make up
its type.  A declarator is therefore followed inwards: through the field `declarator` where a node
has one, and otherwise into its named children, the first that leads to a name.

The functions here find nodes; `nameText` reads a found node as a name.  A qualified name stands for
its last part, and the name of a template for the name without its arguments.
-/

namespace CodeAtlas.SyntaxNode

/-- The kinds of nodes that are a name as they stand. -/
def isPlainName (kind : String) : Bool :=
  kind == "identifier" || kind == "type_identifier" || kind == "field_identifier" ||
    kind == "primitive_type"

/-- The kinds of nodes that are a name once their white space is normalised. -/
def isSpacedName (kind : String) : Bool := kind == "destructor_name" || kind == "operator_name"

/-- The kinds of nodes at which the search for a declared name ends. -/
def isName (kind : String) : Bool :=
  isPlainName kind || isSpacedName kind || kind == "qualified_identifier"

mutual

/-- The node that holds the declared name. -/
def declaredName? : SyntaxNode → Option SyntaxNode
  | ⟨kind, named, field, span, row, children⟩ =>
    if isName kind then some ⟨kind, named, field, span, row, children⟩
    else if children.any (fun c => c.field == some "declarator") then
      declaredNameInField? children
    else declaredNameInNamed? children

/-- The declared name of the first node that is held as a declarator. -/
def declaredNameInField? : List SyntaxNode → Option SyntaxNode
  | [] => none
  | c :: cs => if c.field == some "declarator" then declaredName? c else declaredNameInField? cs

/-- The declared name of the first named node that has one. -/
def declaredNameInNamed? : List SyntaxNode → Option SyntaxNode
  | [] => none
  | c :: cs =>
    if c.named then
      match declaredName? c with
      | some n => some n
      | none => declaredNameInNamed? cs
    else declaredNameInNamed? cs

end

mutual

/-- The outermost function declarator of a declarator. -/
def functionDeclarator? : SyntaxNode → Option SyntaxNode
  | ⟨kind, named, field, span, row, children⟩ =>
    if kind == "function_declarator" then some ⟨kind, named, field, span, row, children⟩
    else if children.any (fun c => c.field == some "declarator") then
      functionDeclaratorInField? children
    else functionDeclaratorInNamed? children

/-- The function declarator of the first node that is held as a declarator. -/
def functionDeclaratorInField? : List SyntaxNode → Option SyntaxNode
  | [] => none
  | c :: cs =>
    if c.field == some "declarator" then functionDeclarator? c else functionDeclaratorInField? cs

/-- The function declarator of the first named node that has one. -/
def functionDeclaratorInNamed? : List SyntaxNode → Option SyntaxNode
  | [] => none
  | c :: cs =>
    if c.named then
      match functionDeclarator? c with
      | some n => some n
      | none => functionDeclaratorInNamed? cs
    else functionDeclaratorInNamed? cs

end

mutual

/-- What a declarator is below its outer pointers and references: none if one of these holds
nothing. -/
def belowPointers? : SyntaxNode → Option SyntaxNode
  | ⟨kind, named, field, span, row, children⟩ =>
    if kind == "pointer_declarator" || kind == "reference_declarator" then
      if children.any (fun c => c.field == some "declarator") then belowPointersInField? children
      else belowPointersInNamed? children
    else some ⟨kind, named, field, span, row, children⟩

/-- The same for the first node that is held as a declarator. -/
def belowPointersInField? : List SyntaxNode → Option SyntaxNode
  | [] => none
  | c :: cs => if c.field == some "declarator" then belowPointers? c else belowPointersInField? cs

/-- The same for the first named node. -/
def belowPointersInNamed? : List SyntaxNode → Option SyntaxNode
  | [] => none
  | c :: cs => if c.named then belowPointers? c else belowPointersInNamed? cs

end

/-- Whether a declarator declares a function rather than a variable: below its pointers it is a
function declarator whose own declarator is not in parentheses, as that of a pointer to a function
is. -/
def isPrototype (n : SyntaxNode) : Bool :=
  match belowPointers? n with
  | some m =>
    m.kind == "function_declarator" &&
      match m.inField? "declarator" with
      | some inner => inner.kind != "parenthesized_declarator"
      | none => false
  | none => false

/-- The kinds of nodes at which counting pointers ends. -/
def endsPointers (kind : String) : Bool :=
  kind == "function_declarator" || kind == "identifier" || kind == "type_identifier" ||
    kind == "field_identifier"

mutual

/-- The number of pointers around a declared name, up to the first function declarator. -/
def pointerDepth : SyntaxNode → Nat
  | ⟨kind, _, _, _, _, children⟩ =>
    if kind == "pointer_declarator" then pointerDepthInField children + 1
    else if endsPointers kind then 0
    else pointerDepthInField children

/-- The same for the first node that is held as a declarator. -/
def pointerDepthInField : List SyntaxNode → Nat
  | [] => 0
  | c :: cs => if c.field == some "declarator" then pointerDepth c else pointerDepthInField cs

end

mutual

/-- The node of the last part of a qualified name, without the arguments of a template. -/
def lastNamePart : SyntaxNode → SyntaxNode
  | ⟨kind, named, field, span, row, children⟩ =>
    let self : SyntaxNode := ⟨kind, named, field, span, row, children⟩
    if kind == "qualified_identifier" then (lastNamePartInField? children).getD self
    else if kind == "template_type" || kind == "template_function" then
      (self.inField? "name").getD self
    else self

/-- The same for the first node that is held as a name. -/
def lastNamePartInField? : List SyntaxNode → Option SyntaxNode
  | [] => none
  | c :: cs => if c.field == some "name" then some (lastNamePart c) else lastNamePartInField? cs

end

/-- The text of the node of a declared name. -/
def nameText (read : Reading) (n : SyntaxNode) : String :=
  if isSpacedName n.kind then Text.collapse (n.text read)
  else if n.kind == "qualified_identifier" then (lastNamePart n).text read
  else n.text read

/-- The name that a declarator declares. -/
def declaratorName? (read : Reading) (n : SyntaxNode) : Option String :=
  (declaredName? n).map (nameText read)

/-- The node of the name of a function definition. -/
def functionNameNode? (n : SyntaxNode) : Option SyntaxNode := do
  let declarator ← n.inField? "declarator"
  let function ← functionDeclarator? declarator
  let inner ← function.inField? "declarator"
  declaredName? inner

/-- The name of a function definition, without the scopes that qualify it. -/
def functionName? (read : Reading) (n : SyntaxNode) : Option String :=
  (functionNameNode? n).map (nameText read)

/-- How the callee of a call leads on to its name. -/
inductive CalleeForm where
  /-- It is the name. -/
  | name
  /-- It holds what leads on in a field. -/
  | through (field : String)
  /-- Its first named child leads on. -/
  | first
  /-- It is computed and has no name. -/
  | computed

/-- The form of a callee of a kind. -/
def calleeForm (kind : String) : CalleeForm :=
  if kind == "identifier" || kind == "field_identifier" || kind == "destructor_name" then .name
  else if kind == "field_expression" then .through "field"
  else if kind == "pointer_expression" then .through "argument"
  else if kind == "parenthesized_expression" then .first
  else if kind == "qualified_identifier" || kind == "template_function" ||
    kind == "template_method" then .through "name"
  else .computed

mutual

/-- The node of the name that a callee reduces to. -/
def calleeNode? : SyntaxNode → Option SyntaxNode
  | ⟨kind, named, field, span, row, children⟩ =>
    match calleeForm kind with
    | .name => some ⟨kind, named, field, span, row, children⟩
    | .through f => calleeInField? f children
    | .first => calleeInNamed? children
    | .computed => none

/-- The same for the first node that is held in a field. -/
def calleeInField? (name : String) : List SyntaxNode → Option SyntaxNode
  | [] => none
  | c :: cs => if c.field == some name then calleeNode? c else calleeInField? name cs

/-- The same for the first named node. -/
def calleeInNamed? : List SyntaxNode → Option SyntaxNode
  | [] => none
  | c :: cs => if c.named then calleeNode? c else calleeInNamed? cs

end

/-- The name that a call expression calls. -/
def calledName? (read : Reading) (n : SyntaxNode) : Option String :=
  if n.kind == "call_expression" then
    ((n.inField? "function").bind calleeNode?).map (fun m => m.text read)
  else none

end CodeAtlas.SyntaxNode
