/-!
# Reading bytes as text

Source files are bytes.  Where they are well-formed UTF-8 the text is what they encode; where they
are not, every maximal ill-formed part is read as one replacement character U+FFFD and reading goes
on behind it.  A part is maximal in the sense of the Unicode standard: it is the longest beginning
of a well-formed sequence that stands there, and at least one byte.

The table of well-formed sequences is `continuationRange`: for a lead byte it gives how many bytes
follow and in which range the first of them must lie.  All later ones lie in `0x80 … 0xBF`.
-/

namespace CodeAtlas

/-- For a lead byte of a sequence of two to four bytes: the number of bytes that follow and the
range of the first of them.  The narrowed ranges exclude overlong forms, surrogates and code points
above U+10FFFF. -/
def continuationRange (lead : UInt8) : Option (Nat × UInt8 × UInt8) :=
  if 0xC2 ≤ lead && lead ≤ 0xDF then some (1, 0x80, 0xBF)
  else if lead == 0xE0 then some (2, 0xA0, 0xBF)
  else if lead == 0xED then some (2, 0x80, 0x9F)
  else if 0xE1 ≤ lead && lead ≤ 0xEF then some (2, 0x80, 0xBF)
  else if lead == 0xF0 then some (3, 0x90, 0xBF)
  else if lead == 0xF4 then some (3, 0x80, 0x8F)
  else if 0xF1 ≤ lead && lead ≤ 0xF3 then some (3, 0x80, 0xBF)
  else none

/-- The payload bits of a lead byte. -/
def leadBits (lead : UInt8) : Nat :=
  if lead < 0x80 then lead.toNat
  else if lead < 0xE0 then lead.toNat % 32
  else if lead < 0xF0 then lead.toNat % 16
  else lead.toNat % 8

/-- A partly read sequence: its code point so far, the bytes that are still to come and the range
of the next one. -/
structure PartialSequence where
  bits : Nat
  missing : Nat
  low : UInt8
  high : UInt8

/-- The decoding of bytes as text, from a state that says whether a sequence is open.  The read
characters are collected in reverse, so that long files need no deep recursion. -/
def decodeLossyFrom (state : Option PartialSequence) (done : List Char) :
    List UInt8 → List Char
  | [] =>
    match state with
    | none => done.reverse
    | some _ => ('\uFFFD' :: done).reverse
  | b :: rest =>
    let start (done : List Char) : Option PartialSequence × List Char :=
      if b < 0x80 then (none, Char.ofNat b.toNat :: done)
      else match continuationRange b with
        | none => (none, '\uFFFD' :: done)
        | some (missing, low, high) => (some ⟨leadBits b, missing, low, high⟩, done)
    match state with
    | none =>
      let (state, done) := start done
      decodeLossyFrom state done rest
    | some opened =>
      if opened.low ≤ b && b ≤ opened.high then
        let bits := opened.bits * 64 + b.toNat % 64
        if opened.missing ≤ 1 then decodeLossyFrom none (Char.ofNat bits :: done) rest
        else decodeLossyFrom (some ⟨bits, opened.missing - 1, 0x80, 0xBF⟩) done rest
      else
        let (state, done) := start ('\uFFFD' :: done)
        decodeLossyFrom state done rest

namespace Text

/-- The text of a byte sequence; ill-formed parts are read as U+FFFD. -/
def decodeLossy (bytes : ByteArray) : String :=
  match String.fromUTF8? bytes with
  | some s => s
  | none => String.ofList (decodeLossyFrom none [] bytes.toList)

/-- The text that some bytes of a text encode, when the range lies between two characters of the
text, in this order. -/
def sliceBytes? (bytes : ByteArray) (start stop : Nat) : Option String :=
  if start ≤ stop ∧ stop ≤ bytes.size then String.fromUTF8? (bytes.extract start stop) else none

end Text

end CodeAtlas
