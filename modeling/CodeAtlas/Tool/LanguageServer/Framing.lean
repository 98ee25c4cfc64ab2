import CodeAtlas.Json.Parser
import CodeAtlas.Json.Printer
import CodeAtlas.Text.Ascii
import CodeAtlas.Text.Search
import CodeAtlas.Word

/-!
# Framed messages

A language server and its client exchange JSON values over byte streams.  Each value is preceded by
a header of lines that ends with a blank line; the line `Content-Length` gives the number of bytes
of the value.  Other lines of the header are passed over.

A stream is read as far as it goes.  When it stops inside a message the rest is kept, because more
bytes may follow; when a header is not text, or a body is not JSON, reading ends for good.
-/

namespace CodeAtlas.LanguageServer

/-- The bytes of a message with its header. -/
def frame (message : Json) : List UInt8 :=
  let body := message.render.toUTF8.toList
  ("Content-Length: " ++ toString body.length ++ "\r\n\r\n").toUTF8.toList ++ body

/-- What the beginning of a stream is. -/
inductive Frame where
  /-- A message, and the bytes behind it. -/
  | message (value : Json) (rest : List UInt8)
  /-- The message is not complete. -/
  | incomplete
  /-- No message can be read any more. -/
  | malformed

/-- The bytes of the first line of a stream, without the line feed, and those behind it. -/
def splitLine? : List UInt8 → Option (List UInt8 × List UInt8)
  | [] => none
  | b :: bs => if b = 10 then some ([], bs) else (splitLine? bs).map (fun (l, r) => (b :: l, r))

/-- The number of bytes that a header line announces: none if the line is about something else, and
nothing if the number cannot be read. -/
def announcedLength? (line : List Char) : Option (Option Nat) :=
  match splitOnce? ':' line with
  | some (name, value) =>
    if Text.lowerAscii (String.ofList (trimBy isBlank name)) == "content-length" then
      some (Text.unsigned? (wordValues 64) (String.ofList (trimBy isBlank value)))
    else none
  | none => none

/-- The body of an announced length at the beginning of a stream.  No body has a length that needs
all 64 bits. -/
def readBody (length : Nat) (bytes : List UInt8) : Frame :=
  let body := bytes.take length
  if wordValues 63 ≤ length then .malformed
  else if body.length < length then .incomplete
  else
    match Json.parseBytes? ⟨body.toArray⟩ with
    | some v => .message v (bytes.drop length)
    | none => .malformed

/-- Reads the next message.  The length is that of the header read so far; `fuel` bounds the number
of its lines, and the number of bytes is enough. -/
def readFrame : Nat → Option Nat → List UInt8 → Frame
  | 0, _, _ => .incomplete
  | fuel + 1, length, bytes =>
    match splitLine? bytes with
    | none => .incomplete
    | some (line, rest) =>
      match String.fromUTF8? ⟨line.toArray⟩ with
      | none => .malformed
      | some line =>
        let line := trimRightBy isBlank line.toList
        if line.isEmpty then
          match length with
          | some n => readBody n rest
          | none => readFrame fuel none rest
        else
          match announcedLength? line with
          | some announced => readFrame fuel announced rest
          | none => readFrame fuel length rest

/-- What was read of a stream: the messages, the bytes that are left, and whether reading has
ended for good. -/
structure Received where
  messages : List Json
  left : List UInt8
  ended : Bool

/-- Reads all complete messages of a stream; `fuel` bounds their number. -/
def readFrames : Nat → List UInt8 → Received
  | 0, bytes => ⟨[], bytes, false⟩
  | fuel + 1, bytes =>
    match readFrame (bytes.length + 1) none bytes with
    | .message v rest =>
      let received := readFrames fuel rest
      { received with messages := v :: received.messages }
    | .incomplete => ⟨[], bytes, false⟩
    | .malformed => ⟨[], [], true⟩

/-- Reads all complete messages of a stream. -/
def receive (bytes : List UInt8) : Received := readFrames (bytes.length + 1) bytes

end CodeAtlas.LanguageServer
