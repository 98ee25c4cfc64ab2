import CodeAtlas.Text.Utf8
import CodeAtlas.Word

/-!
# Syntax trees

A syntax tree stands over the text of a file.  Its nodes carry a kind, the range of bytes that they
cover and the line on which they start; a node that stands for a rule of the grammar is *named*, in
contrast to one that stands for a fixed token, and a node may be held by its parent under the name
of a field.

Trees are built by a parser for the language and are given here.  What this module adds is the ways
of looking at them: the child in a field, the named children, and the list of all nodes with every
node before those below it.
-/

namespace CodeAtlas

/-- A range of byte offsets. -/
structure Span where
  start : Nat
  stop : Nat
  deriving DecidableEq, Repr, Inhabited

/-- A node of a syntax tree. -/
structure SyntaxNode where
  kind : String
  named : Bool
  field : Option String
  span : Span
  /-- The line on which the node starts, counted from zero. -/
  row : Nat
  children : List SyntaxNode
  deriving Inhabited

/-- What stands in a range of the text. -/
abbrev Reading := Span → String

/-- The reading of a text.  A range that does not lie between two characters of the text, in this
order, reads as the empty text. -/
def readingOf (text : String) : Reading :=
  let bytes := text.toUTF8
  fun s => (Text.sliceBytes? bytes s.start s.stop).getD ""

namespace SyntaxNode

/-- The text that a node covers. -/
def text (read : Reading) (n : SyntaxNode) : String := read n.span

/-- The first child that is held in a field. -/
def inField? (n : SyntaxNode) (name : String) : Option SyntaxNode :=
  n.children.find? (fun c => c.field == some name)

/-- All children that are held in a field. -/
def allInField (n : SyntaxNode) (name : String) : List SyntaxNode :=
  n.children.filter (fun c => c.field == some name)

/-- The children that stand for rules of the grammar. -/
def namedChildren (n : SyntaxNode) : List SyntaxNode := n.children.filter (·.named)

/-- The line on which a node starts, counted from one and kept within 32 bits. -/
def line (n : SyntaxNode) : UInt32 := saturatedWord (n.row + 1)

mutual

/-- A node and all nodes below it, every node before those below it. -/
def preorder : SyntaxNode → List SyntaxNode
  | ⟨kind, named, field, span, row, children⟩ =>
    ⟨kind, named, field, span, row, children⟩ :: preorderAll children

/-- The nodes of a list of trees, one tree after the other. -/
def preorderAll : List SyntaxNode → List SyntaxNode
  | [] => []
  | c :: cs => preorder c ++ preorderAll cs

end

end SyntaxNode

end CodeAtlas
