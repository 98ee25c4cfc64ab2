import CodeAtlas.Json.Token

/-!
# Reading JSON

The tokens of a document are read by a machine with a stack.  A frame of the stack is an array or
object whose closing bracket is still to come, with what has been read of it; between two tokens the
machine knows what may follow.  A document is accepted when its tokens end with one complete value
and no open frame.

Arrays and objects nest to a depth of at most 127.
-/

namespace CodeAtlas.Json

/-- An array or object that is still open; its items or members are kept in reverse.  A frame of an
object that awaits a value holds the name of that value. -/
inductive Frame where
  | array (items : List Json)
  | object (members : List (String × Json))
  | member (members : List (String × Json)) (name : String)

/-- What may follow. -/
inductive Expect where
  /-- A value. -/
  | value
  /-- A value or the end of the array just opened. -/
  | firstItem
  /-- A name or the end of the object just opened. -/
  | firstName
  /-- A name. -/
  | name
  /-- A colon. -/
  | colon
  /-- A comma or the end of the innermost frame. -/
  | more
  /-- Nothing: the document is complete. -/
  | done (value : Json)

/-- The machine: the open frames, innermost first, and what may follow. -/
structure Reader where
  frames : List Frame := []
  expect : Expect := .value

/-- The greatest number of open frames. -/
def maxDepth : Nat := 127

/-- Puts a complete value into the innermost frame. -/
def Reader.supply (frames : List Frame) (v : Json) : Option Reader :=
  match frames with
  | [] => some ⟨[], .done v⟩
  | .array items :: rest => some ⟨.array (v :: items) :: rest, .more⟩
  | .member members name :: rest => some ⟨.object ((name, v) :: members) :: rest, .more⟩
  | .object _ :: _ => none

/-- Opens a frame, if that is not too deep. -/
def Reader.openFrame (frames : List Frame) (frame : Frame) (expect : Expect) : Option Reader :=
  if frames.length < maxDepth then some ⟨frame :: frames, expect⟩ else none

/-- Reads a token where a value may stand. -/
def Reader.value (frames : List Frame) : Token → Option Reader
  | .scalar v => supply frames v
  | .openBracket => openFrame frames (.array []) .firstItem
  | .openBrace => openFrame frames (.object []) .firstName
  | _ => none

/-- Reads a token where a name must stand. -/
def Reader.name : List Frame → Token → Option Reader
  | .object members :: rest, .scalar (.str s) => some ⟨.member members s :: rest, .colon⟩
  | _, _ => none

/-- Closes the innermost frame. -/
def Reader.close : List Frame → Token → Option Reader
  | .array items :: rest, .closeBracket => supply rest (.arr items.reverse)
  | .object members :: rest, .closeBrace => supply rest (.obj members.reverse)
  | _, _ => none

/-- Reads one token. -/
def Reader.step (r : Reader) (t : Token) : Option Reader :=
  match r.expect with
  | .value => value r.frames t
  | .firstItem =>
    match t with
    | .closeBracket => close r.frames t
    | _ => value r.frames t
  | .firstName =>
    match t with
    | .closeBrace => close r.frames t
    | _ => name r.frames t
  | .name => name r.frames t
  | .colon =>
    match t with
    | .colon => some ⟨r.frames, .value⟩
    | _ => none
  | .more =>
    match t, r.frames with
    | .comma, .array _ :: _ => some ⟨r.frames, .value⟩
    | .comma, .object _ :: _ => some ⟨r.frames, .name⟩
    | _, _ => close r.frames t
  | .done _ => none

/-- The value of a list of tokens. -/
def ofTokens? (ts : List Token) : Option Json :=
  (ts.foldlM Reader.step (⟨[], .value⟩ : Reader)).bind fun r =>
    match r.expect with
    | .done v => some v
    | _ => none

/-- The value of a document. -/
def parse? (s : String) : Option Json := (tokens? s.toList).bind ofTokens?

/-- The value of a document given as bytes, which must be well-formed UTF-8. -/
def parseBytes? (bytes : ByteArray) : Option Json := (String.fromUTF8? bytes).bind parse?

end CodeAtlas.Json
