import CodeAtlas.Extraction.Basic
import CodeAtlas.Text.Lines
import CodeAtlas.Text.Search
import CodeAtlas.Tool.Parameters
import CodeAtlas.Tool.Run
import CodeAtlas.Word

/-!
# Tag streams

A tag stream has one line for each definition: a name, a file and a command for finding the place,
separated by tabs, and behind `;"` further fields, also separated by tabs.  A field is a kind or has
a key before a colon.  Lines that begin with `!_` describe the stream and are passed over, as are
blank lines.

The line of a definition is the last `line` field that is a number, or else the command if that is
a number, or else 1.  The last field of each other key counts.
-/

namespace CodeAtlas

/-- A line of a tag stream. -/
structure TagEntry where
  name : String
  file : String
  /-- The command for finding the place: a line number or a search pattern. -/
  command : String
  kind : String := ""
  line : Option Nat := none
  signature : Option String := none
  typeref : Option String := none
  deriving DecidableEq, Repr, Inhabited

namespace TagEntry

/-- A line number of 32 bits. -/
def lineNumber? (s : String) : Option Nat := Text.unsigned? (wordValues 32) s

/-- Reads a field into an entry. -/
def addField (e : TagEntry) (field : List Char) : TagEntry :=
  match splitOnce? ':' field with
  | none => { e with kind := String.ofList field }
  | some (key, value) =>
    let value := String.ofList value
    match String.ofList key with
    | "kind" => { e with kind := value }
    | "line" => { e with line := (lineNumber? value).orElse (fun _ => e.line) }
    | "signature" => { e with signature := some value }
    | "typeref" => { e with typeref := some ((Text.after? "typename:" value).getD value) }
    | _ => e

/-- The command and the fields in what follows the file of an entry. -/
def splitFields (rest : List Char) : List Char × List (List Char) :=
  match splitAtInfix? [';', '"', '\t'] rest with
  | some (command, found) =>
    (command, (splitAtClass (· == '\t') (found.drop 3)).filter (fun f => !f.isEmpty))
  | none => (dropTrailingCopies [';', '"'] rest, [])

/-- Reads a line of a tag stream; none if it describes the stream, is blank or lacks a part. -/
def ofLine? (line : List Char) : Option TagEntry :=
  if ['!', '_'].isPrefixOf line ∨ trimBy isBlank line = [] then none
  else
    match splitFirst '\t' 2 line with
    | [name, file, rest] =>
      let (command, fields) := splitFields rest
      let command := String.ofList command
      let entry : TagEntry :=
        { name := String.ofList name, file := String.ofList file, command
          line := lineNumber? (Text.trim command) }
      some (fields.foldl addField entry)
    | _ => none

/-- The kind of symbols that a kind of tags stands for.  Prototypes, locals, parameters, labels,
headers and names of scopes are no symbols; an unknown kind is taken for a variable. -/
def symbolKind? (kind : String) : Option SymbolKind :=
  if ["f", "function", "method"].contains kind then some .function
  else if ["s", "struct", "c", "class", "u", "union"].contains kind then some .record
  else if ["d", "macro"].contains kind then some .define
  else if ["v", "variable", "m", "member", "x", "externvar"].contains kind then some .global
  else if ["t", "typedef"].contains kind then some .alias
  else if ["g", "enum"].contains kind then some .enumeration
  else if ["p", "prototype", "l", "local", "z", "parameter", "L", "label", "h", "header", "n",
    "namespace", "N", "name", "U", "using"].contains kind then none
  else some .global

/-- The source line that a command searches for: the pattern without its delimiters, its anchors and
the escapes of slashes.  A line number stands for itself. -/
def patternText (command : String) : String :=
  let cs := trimBy isBlank command.toList
  let cs := trimLeftBy (· == '^') (trimLeftBy (· == '?') (trimLeftBy (· == '/') cs))
  let cs := trimRightBy (· == '$') (trimRightBy (· == '?') (trimRightBy (· == '/') cs))
  String.ofList (trimBy isBlank (replaceAll ['\\', '/'] ['/'] cs))

/-- A file as tools name it, without leading `./` and with forward slashes. -/
def projectFile (file : String) : String :=
  String.ofList ((dropLeadingCopies ['.', '/'] file.toList).map
    fun c => if c = '\\' then '/' else c)

/-- The detail of an entry that stands for a kind of symbols. -/
def detail (e : TagEntry) : SymbolKind → SymbolDetail
  | .function => .unmeasured (if (e.typeref.getD "").isEmpty then "void" else e.typeref.getD "")
      ((e.signature.map splitParameters).getD [])
  | .record => .record []
  | .define => .define (e.signature.map splitParameters) ""
  | .global => .global (e.typeref.getD "") false false
  | .alias => .alias (e.typeref.getD "")
  | .enumeration => .enumeration []

/-- The symbol of the entry that is the `ordinal`-th of a stream. -/
def toSymbol? (e : TagEntry) (ordinal : Nat) : Option Symbol :=
  (symbolKind? e.kind).map fun kind =>
    SymbolDraft.toSymbol ⟨e.name, (e.line.getD 1).toUInt32, patternText e.command, e.detail kind⟩
      (projectFile e.file) .ctags ordinal

end TagEntry

namespace TagStream

/-- The entries of a stream. -/
def entries (stream : String) : List TagEntry :=
  (linesOf stream.toList).filterMap TagEntry.ofLine?

/-- The symbols of a stream.  Entries are numbered before those that are no symbols are left out. -/
def symbols (stream : String) : List Symbol :=
  (entries stream).zipIdx.filterMap (fun (e, ordinal) => e.toSymbol? ordinal)

/-- The arguments with which the tool is run on a list of files. -/
def arguments (list : String) : List String :=
  ["--languages=C,C++", "--fields=+n+k+S+t", "--sort=no", "-f", "-", "-L", list]

/-- What the tool reports; without files it is not run. -/
def extract (files : List String) (run : ToolRun) : Except IndexError (List Symbol) :=
  if files.isEmpty then .ok [] else (run.output .ctags).map symbols

end TagStream

end CodeAtlas
