import CodeAtlas.Glob.BytePattern

/-!
# File name patterns

A file name pattern is a list of parts: characters that stand for themselves, `?`, `*` and sets for
what lies within one name, `**` for whole directories, and groups of alternatives.

Matching looks at the bytes of a path, so `?` and a set stand for one byte, and a character beyond
ASCII in a set stands for each of its bytes.
-/

namespace CodeAtlas

/-- A part of a file name pattern. -/
inductive GlobPart where
  | literal (c : Char)
  /-- Any byte but a slash. -/
  | any
  /-- Any bytes but slashes. -/
  | star
  /-- A `**` at the beginning: any directories, or none. -/
  | leadingDirectories
  /-- A `**` at the end: all that is below. -/
  | everythingBelow
  /-- A `**` between slashes: a slash, or slashes with any directories between them. -/
  | innerDirectories
  | set (negated : Bool) (ranges : List (Char × Char))
  | group (alternatives : List (List GlobPart))
  deriving Inhabited

namespace GlobPart

/-- The byte of a slash. -/
def slash : UInt8 := 0x2F

/-- Any byte but a slash. -/
def withinName : BytePattern := .byte ⟨true, [(slash, slash)]⟩

/-- The bytes of a character. -/
def bytesOf (c : Char) : List UInt8 := c.toString.toUTF8.toList

/-- The byte ranges of a range in a set: its first and last characters are given by their bytes, and
the range runs from the last byte of the one to the first byte of the other. -/
def rangeBytes (range : Char × Char) : List (UInt8 × UInt8) :=
  let low := bytesOf range.1
  let high := bytesOf range.2
  if range.1 = range.2 then low.map fun b => (b, b)
  else
    match low.getLast?, high with
    | some last, first :: rest =>
      low.dropLast.map (fun b => (b, b)) ++ (last, first) :: rest.map fun b => (b, b)
    | _, _ => []

mutual

/-- What a part matches. -/
def toPattern : GlobPart → BytePattern
  | .literal c => .ofBytes (bytesOf c)
  | .any => withinName
  | .star => .many withinName
  | .leadingDirectories =>
    .either (.either .empty (.ofByte slash)) (.seq .anything (.ofByte slash))
  | .everythingBelow => .seq (.ofByte slash) .anything
  | .innerDirectories =>
    .either (.ofByte slash) (.seq (.ofByte slash) (.seq .anything (.ofByte slash)))
  | .set negated ranges => .byte ⟨negated, ranges.flatMap rangeBytes⟩
  | .group alternatives =>
    match alternativePatterns alternatives with
    | [] => .empty
    | ps => .choice ps

/-- What parts in a row match. -/
def listPattern : List GlobPart → BytePattern
  | [] => .empty
  | p :: ps => .seq p.toPattern (listPattern ps)

/-- What the alternatives of a group match; those that are written as nothing do not count. -/
def alternativePatterns : List (List GlobPart) → List BytePattern
  | [] => []
  | ps :: rest =>
    let others := alternativePatterns rest
    if isBlankList ps then others else listPattern ps :: others

/-- Whether parts are written as nothing. -/
def isBlankList : List GlobPart → Bool
  | [] => true
  | .group alternatives :: ps => isBlankGroup alternatives && isBlankList ps
  | _ :: _ => false

/-- Whether all alternatives are written as nothing. -/
def isBlankGroup : List (List GlobPart) → Bool
  | [] => true
  | ps :: rest => isBlankList ps && isBlankGroup rest

end

end GlobPart

/-- A file name pattern. -/
structure Glob where
  parts : List GlobPart
  deriving Inhabited

namespace Glob

/-- What a file name pattern matches.  A `**` alone matches everything. -/
def toPattern (g : Glob) : BytePattern :=
  match g.parts with
  | [.leadingDirectories] => .anything
  | parts => GlobPart.listPattern parts

/-- Whether a file name pattern matches a path. -/
def isMatch (g : Glob) (path : String) : Bool := g.toPattern.isMatch path.toUTF8.toList

end Glob

end CodeAtlas
