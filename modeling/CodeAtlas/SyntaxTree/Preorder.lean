import CodeAtlas.SyntaxTree.Basic

/-!
# Trees as lists of their nodes

A tree is exchanged as the list of its nodes in preorder, each with the number of its children.
Reading the list from its end, every entry takes its children off the trees that were built last;
a list describes one tree when exactly one is left.

The line of a node is not part of the list: it is the number of line feeds before the node's start.
-/

namespace CodeAtlas

/-- An entry of the list: a node without its children, and their number. -/
structure NodeEntry where
  childCount : Nat
  named : Bool
  kind : String
  field : Option String
  span : Span
  deriving Inhabited

namespace SyntaxNode

/-- Puts an entry before the trees that follow it. -/
def attach (row : Nat → Nat) (e : NodeEntry) (trees : List SyntaxNode) :
    Option (List SyntaxNode) :=
  if e.childCount ≤ trees.length then
    some (⟨e.kind, e.named, e.field, e.span, row e.span.start, trees.take e.childCount⟩ ::
      trees.drop e.childCount)
  else none

/-- The tree that a list of entries describes. -/
def ofEntries? (row : Nat → Nat) (entries : List NodeEntry) : Option SyntaxNode :=
  match entries.reverse.foldlM (fun trees e => attach row e trees) [] with
  | some [tree] => some tree
  | _ => none

/-- The offsets of the line feeds of a text, in order. -/
def lineFeeds (text : String) : List Nat :=
  ((text.toUTF8.toList.foldl
    (fun (at_, found) b => (at_ + 1, if b = 10 then at_ :: found else found)) (0, [])).2).reverse

/-- The number of line feeds before an offset. -/
def rowAt (feeds : List Nat) (offset : Nat) : Nat := (feeds.takeWhile (· < offset)).length

end SyntaxNode

end CodeAtlas
