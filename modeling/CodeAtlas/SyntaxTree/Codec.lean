import CodeAtlas.Extraction.Basic
import CodeAtlas.Json.Basic
import CodeAtlas.SyntaxTree.Preorder
import CodeAtlas.Text.Ascii

/-!
# Syntax trees as documents

A parser hands over the syntax tree of a file as the list of its nodes in preorder.  Each is written
as an array: the number of children, 1 or 0 for a node with or without a name of its own, the kind,
the field under which the parent holds it or null, and the first and last positions of its text.

A file is handed over together with its tree: its content is given as text, as hexadecimal digits,
or as a number of spaces.
-/

namespace CodeAtlas

/-- Reads a node. -/
def NodeEntry.ofJson? : Json → Option NodeEntry
  | .arr [count, named, kind, field, start, stop] => do
    let count ← count.count?
    let named ← named.count?
    let kind ← kind.text?
    let start ← start.count?
    let stop ← stop.count?
    return ⟨count, named == 1, kind, field.text?, ⟨start, stop⟩⟩
  | _ => none

/-- Reads the tree of a text. -/
def SyntaxNode.ofJson? (text : String) : Json → Option SyntaxNode
  | .arr entries => do
    ofEntries? (rowAt (lineFeeds text)) (← entries.mapM NodeEntry.ofJson?)
  | _ => none

/-- The bytes that pairs of hexadecimal digits stand for. -/
def bytesOfHex : List Char → List UInt8
  | a :: b :: rest =>
    (((Text.hexDigit? a).getD 0) * 16 + ((Text.hexDigit? b).getD 0)).toUInt8 :: bytesOfHex rest
  | _ => []

/-- The bytes of a file that is handed over. -/
def FileContent.bytesOfJson (j : Json) : ByteArray :=
  match j.get? "code", j.get? "hex", j.get? "size" with
  | some (.str text), _, _ => text.toUTF8
  | _, some (.str digits), _ => ⟨(bytesOfHex digits.toList).toArray⟩
  | _, _, some (.int n) => ⟨(List.replicate n.toNat (32 : UInt8)).toArray⟩
  | _, _, _ => ByteArray.empty

/-- Reads a file that is handed over. -/
def FileContent.ofJson (j : Json) : FileContent :=
  let bytes := bytesOfJson j
  ⟨bytes, (j.get? "tree").bind (SyntaxNode.ofJson? (Text.decodeLossy bytes))⟩

end CodeAtlas
