import CodeAtlas.Extraction.Basic
import CodeAtlas.Json.Basic
import CodeAtlas.Text.Lines
import CodeAtlas.Text.Search
import CodeAtlas.Tool.Parameters
import CodeAtlas.Word

/-!
# Symbols of a document

A language server describes the symbols of a document as items that may hold further items, or as a
plain list.  All items are looked at in preorder, those below an item that is no symbol included,
and the symbols are numbered as they come.

An item needs a name, a kind and a range.  A function counts only if it has a body, which shows in
the source: the last character before its end that is not blank is a closing brace.
-/

namespace CodeAtlas.LanguageServer

mutual

/-- An item and all items below it, in preorder. -/
def itemsBelow : Json → List Json
  | .obj members => .obj members :: itemsInMembers members
  | j => [j]

/-- The items held by the last member that is named for the children. -/
def itemsInMembers : List (String × Json) → List Json
  | [] => []
  | (name, value) :: members =>
    if name == "children" && !members.any (fun m => m.1 == "children") then itemsInChildren value
    else itemsInMembers members

/-- The items of an array of children. -/
def itemsInChildren : Json → List Json
  | .arr items => itemsOfAll items
  | _ => []

/-- The items of a list and those below them. -/
def itemsOfAll : List Json → List Json
  | [] => []
  | item :: items => itemsBelow item ++ itemsOfAll items

end

/-- The items of an answer; an answer that is no list has none. -/
def itemsOf : Json → List Json
  | .arr items => itemsOfAll items
  | _ => []

/-- The kind of symbols that a server's kind stands for. -/
def symbolKind? (code : Nat) : Option SymbolKind :=
  if code = 12 ∨ code = 6 ∨ code = 9 then some .function
  else if code = 5 ∨ code = 23 then some .record
  else if code = 10 then some .enumeration
  else if code = 26 then some .alias
  else if code = 13 ∨ code = 14 then some .global
  else none

/-- The server's kind of a constant. -/
def constantCode : Nat := 14

/-- A place in a document: a line and a character of it, both counted from zero. -/
structure Position where
  line : Nat
  character : Nat
  deriving DecidableEq, Repr

/-- Reads a position. -/
def Position.ofJson? (j : Json) : Option Position := do
  let line ← (j.get? "line").bind Json.count?
  let character ← (j.get? "character").bind Json.count?
  return ⟨line, character⟩

/-- The range of an item, which one form of items nests in a location. -/
def rangeOf? (item : Json) : Option Json :=
  (item.get? "range").orElse (fun _ => (item.get? "location").bind (·.get? "range"))

/-- Whether the text right before a position ends with a closing brace.  The position's character
counts the characters of the line. -/
def endsWithBody (lines : List (List Char)) (p : Position) : Bool :=
  match lines[p.line]? with
  | some line => (trimRightBy isBlank (line.take p.character)).getLast?.map Char.toNat == some 0x7d
  | none => false

/-- Splits a text after the parenthesis that closes the first one; all of it if that is never
closed. -/
def balancedPart (depth : Nat) : List Char → List Char
  | [] => []
  | c :: cs =>
    if c = '(' then c :: balancedPart (depth + 1) cs
    else if c = ')' then if depth ≤ 1 then [c] else c :: balancedPart (depth - 1) cs
    else c :: balancedPart depth cs

/-- The return type and the parameters in a server's description of a function. -/
def splitSignature (detail : List Char) : List Char × List (List Char) :=
  if detail.any (· == '(') then
    let returnType := trimBy isBlank (detail.takeWhile (· != '('))
    (if returnType.isEmpty then "void".toList else returnType,
      parametersOf (balancedPart 0 (detail.dropWhile (· != '('))))
  else ("void".toList, [])

/-- The detail of an item of a kind. -/
def detailOf (kind : SymbolKind) (code : Nat) (detail : List Char) (declaration : List Char) :
    SymbolDetail :=
  let words := wordsOf declaration
  match kind with
  | .function =>
    let (returnType, parameters) := splitSignature detail
    .unmeasured (String.ofList returnType) (parameters.map String.ofList)
  | .record => .record []
  | .enumeration => .enumeration []
  | .alias => .alias (String.ofList detail)
  | .global => .global (String.ofList detail) (words.contains "static".toList)
      (code == constantCode || words.contains "const".toList)
  | .define => .define none ""

/-- The symbol of an item, if it is one. -/
def draftOf? (lines : List (List Char)) (item : Json) : Option SymbolDraft := do
  let name ← (item.get? "name").bind Json.text?
  let code ← (item.get? "kind").bind Json.count?
  let range ← rangeOf? item
  let kind ← symbolKind? code
  let start ← (range.get? "start").bind Position.ofJson?
  let stop ← (range.get? "end").bind Position.ofJson?
  if kind = .function ∧ !endsWithBody lines stop then none
  else
    let detail := trimBy isBlank (((item.get? "detail").bind Json.text?).getD "").toList
    let declaration := match lines[start.line]? with
      | some line => trimBy isBlank line
      | none => name.toList
    let line : UInt32 := saturatedWord (start.line + 1)
    some ⟨name, line, String.ofList declaration, detailOf kind code detail declaration⟩

/-- The symbols that an answer describes for a file with the given source. -/
def symbolsOf (answer : Json) (file source : String) : List Symbol :=
  let lines := linesOf source.toList
  ((itemsOf answer).filterMap (draftOf? lines)).zipIdx.map
    (fun (d, ordinal) => d.toSymbol file .clangd ordinal)

end CodeAtlas.LanguageServer
