import CodeAtlas.Json.Basic
import CodeAtlas.Text.Ascii

/-!
# Writing JSON

Two layouts.  The compact one has no white space.  The indented one puts every member and item on a
line of its own, two spaces deeper than what holds it, and writes an empty array or object as the
bare pair of brackets.

In a string the quote, the backslash and the characters below U+0020 are escaped, five of them by a
letter; everything else stands for itself.
-/

namespace CodeAtlas.Json

/-- The written form of one character of a string. -/
def escapeChar (c : Char) : List Char :=
  if c = '"' then ['\\', '"']
  else if c = '\\' then ['\\', '\\']
  else if c = '\n' then ['\\', 'n']
  else if c = '\r' then ['\\', 'r']
  else if c = '\t' then ['\\', 't']
  else if c.toNat = 8 then ['\\', 'b']
  else if c.toNat = 12 then ['\\', 'f']
  else if c.toNat < 0x20 then '\\' :: 'u' :: '0' :: '0' :: Text.hexByte c.toNat.toUInt8
  else [c]

/-- The written form of a string, with its quotes. -/
def quote (s : String) : String :=
  String.ofList ('"' :: s.toList.flatMap escapeChar ++ ['"'])

/-- The line break and indentation at a depth. -/
def lineBreak (depth : Nat) : String :=
  String.ofList ('\n' :: List.replicate (2 * depth) ' ')

/-- The texts of the parts of a bracketed value, put between brackets and separated by commas. -/
def bracketed (opening closing : String) (indented : Bool) (depth : Nat) : List String → String
  | [] => opening ++ closing
  | parts =>
    if indented then
      opening ++ lineBreak (depth + 1) ++ ("," ++ lineBreak (depth + 1)).intercalate parts ++
        lineBreak depth ++ closing
    else opening ++ ",".intercalate parts ++ closing

mutual

/-- The text of a value that stands at a depth. -/
def renderAt (indented : Bool) (depth : Nat) : Json → String
  | .null => "null"
  | .bool true => "true"
  | .bool false => "false"
  | .int n => toString n
  | .decimal literal => literal
  | .str s => quote s
  | .arr items => bracketed "[" "]" indented depth (renderItems indented (depth + 1) items)
  | .obj members =>
    bracketed "\x7b" "\x7d" indented depth (renderMembers indented (depth + 1) members)

/-- The texts of the items of an array. -/
def renderItems (indented : Bool) (depth : Nat) : List Json → List String
  | [] => []
  | item :: items => renderAt indented depth item :: renderItems indented depth items

/-- The texts of the members of an object. -/
def renderMembers (indented : Bool) (depth : Nat) : List (String × Json) → List String
  | [] => []
  | (name, value) :: members =>
    (quote name ++ (if indented then ": " else ":") ++ renderAt indented depth value) ::
      renderMembers indented depth members

end

/-- The compact text of a value. -/
def render (j : Json) : String := renderAt false 0 j

/-- The indented text of a value. -/
def pretty (j : Json) : String := renderAt true 0 j

end CodeAtlas.Json
