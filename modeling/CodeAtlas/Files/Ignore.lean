import CodeAtlas.Glob.Parser
import CodeAtlas.Text.Blank
import CodeAtlas.Text.Lines
import CodeAtlas.Text.Search

/-!
# Ignore rules

An ignore file has one rule on each line.  A rule is a file name pattern that excludes what it
matches, or, behind a `!`, keeps it.  A pattern with a slash is matched against the whole path below
the directory of the file; one without is matched against the path at any depth.  A slash at the end
restricts a rule to directories.  The last rule that matches decides.

Blank lines and lines that begin with `#` are no rules; a backslash takes the meaning from a `#` or
`!` at the beginning.  A rule whose pattern cannot be read is passed over.
-/

namespace CodeAtlas

/-- What a rule does to a path that it matches. -/
inductive Verdict where
  | exclude
  | keep
  deriving DecidableEq, Repr, Inhabited

/-- One rule of an ignore file. -/
structure IgnoreRule where
  pattern : BytePattern
  verdict : Verdict
  directoriesOnly : Bool
  deriving Inhabited

namespace IgnoreRule

/-- The beginning of a pattern that is matched at any depth. -/
def anyDepth : List Char := ['*', '*', '/']

/-- The pattern of a rule without its marks: `anchored` says that it began with a slash.  A pattern
that has no slash is matched at any depth, and one that ends in `/**` matches what is in a directory
but not the directory. -/
def completePattern (anchored : Bool) (cs : List Char) : List Char :=
  let cs :=
    if anchored ∨ cs.contains '/' ∨ anyDepth.isPrefixOf cs ∨ cs = ['*', '*'] then cs
    else anyDepth ++ cs
  if ['*', '*', '/'].isPrefixOf cs.reverse then cs ++ ['/', '*'] else cs

/-- A rule without the slash that restricts it to directories, and whether it had one.  A backslash
before that slash goes with it. -/
def splitDirectoryMark (cs : List Char) : Bool × List Char :=
  match cs.reverse with
  | '/' :: '\\' :: rest => (true, rest.reverse)
  | '/' :: rest => (true, rest.reverse)
  | _ => (false, cs)

/-- The rule of a pattern with given marks. -/
def ofPattern? (lenient : Bool) (verdict : Verdict) (anchored : Bool) (cs : List Char) :
    Option IgnoreRule :=
  let (directoriesOnly, cs) := splitDirectoryMark cs
  (Glob.parse? lenient (String.ofList (completePattern anchored cs))).map fun glob =>
    ⟨glob.toPattern, verdict, directoriesOnly⟩

/-- The rule of a line that is neither blank nor a comment. -/
def ofTrimmed? (lenient : Bool) : List Char → Option IgnoreRule
  | '\\' :: '!' :: cs => ofPattern? lenient .exclude false ('!' :: cs)
  | '\\' :: '#' :: cs => ofPattern? lenient .exclude false ('#' :: cs)
  | '!' :: '/' :: cs => ofPattern? lenient .keep true cs
  | '!' :: cs => ofPattern? lenient .keep false cs
  | '/' :: cs => ofPattern? lenient .exclude true cs
  | cs => ofPattern? lenient .exclude false cs

/-- The rule of a line.  Blanks at its end do not count, unless a backslash stands before a space
there. -/
def ofLine? (lenient : Bool) (line : List Char) : Option IgnoreRule :=
  if line.head? = some '#' then none
  else
    let line := if [' ', '\\'].isPrefixOf line.reverse then line else trimRightBy isBlank line
    if line.isEmpty then none else ofTrimmed? lenient line

/-- Whether a rule matches a path below the directory of its file. -/
def isMatch (r : IgnoreRule) (path : List UInt8) (isDirectory : Bool) : Bool :=
  (!r.directoriesOnly || isDirectory) && r.pattern.isMatch path

end IgnoreRule

/-- The rules of one ignore file. -/
abbrev IgnoreRules := List IgnoreRule

namespace IgnoreRules

/-- What rules say about a path below the directory of their file: the last one that matches
decides. -/
def verdict? (rules : IgnoreRules) (names : List String) (isDirectory : Bool) : Option Verdict :=
  let path := ("/".intercalate names).toUTF8.toList
  (rules.reverse.find? fun r => r.isMatch path isDirectory).map (·.verdict)

/-- The byte that ends a line. -/
def lineFeed : UInt8 := 0x0A

/-- The lines of bytes as far as they can be read as text. -/
def readableLines (bytes : ByteArray) : List (List Char) :=
  let pieces := (bytes.toList.splitOn lineFeed).map fun piece => String.fromUTF8? ⟨piece.toArray⟩
  let readable := (pieces.takeWhile Option.isSome).filterMap fun text => text.map String.toList
  linesOfPieces (if readable.length < pieces.length then readable ++ [[]] else readable)

/-- The rules of an ignore file, which may begin with byte order marks. -/
def ofBytes (bytes : ByteArray) : IgnoreRules :=
  let lines := match readableLines bytes with
    | [] => []
    | first :: rest => trimLeftBy (· == '\uFEFF') first :: rest
  lines.filterMap (IgnoreRule.ofLine? true)

/-- The rules of the patterns that the settings exclude.  They are written like the patterns of an
ignore file behind a `!`, and a bracket that is not closed makes a pattern void. -/
def ofExcluded (patterns : List String) : IgnoreRules :=
  patterns.filterMap fun p =>
    (IgnoreRule.ofLine? false ('!' :: p.toList)).map fun r => { r with verdict := .exclude }

end IgnoreRules

end CodeAtlas
