import CodeAtlas.Text.WordChar
import CodeAtlas.Tool.Tags

/-!
# Cross-reference listings

A cross-reference database is built from the list of files and then asked for all definitions.  Each
line of the answer gives a file, a name, a line number and the text of that line, separated by
spaces; it does not say what was defined.  The kind is therefore guessed from the text, with the
tests in a fixed order: a definition of the preprocessor, a type definition, an enumeration, a
record, a function, and otherwise a variable.
-/

namespace CodeAtlas.CrossReference

/-- Drops blanks, of which there must be at least one. -/
def skipBlanks? (cs : List Char) : Option (List Char) :=
  match cs with
  | c :: rest => if isBlank c then some (rest.dropWhile isBlank) else none
  | [] => none

/-- Drops the characters of a word, of which there must be at least one. -/
def skipWord? (cs : List Char) : Option (List Char) :=
  match cs with
  | c :: rest => if isWordCharacter c then some (rest.dropWhile isWordCharacter) else none
  | [] => none

/-- What follows the name in a definition of the preprocessor. -/
def afterDefinedName? (context : List Char) : Option (List Char) := do
  let rest ← afterBeginning? ['#'] (context.dropWhile isBlank)
  let rest ← afterBeginning? "define".toList (rest.dropWhile isBlank)
  let rest ← skipBlanks? rest
  skipWord? rest

/-- The argument list right behind the name in a definition of the preprocessor, up to the first
closing parenthesis. -/
def argumentList? (rest : List Char) : Option (List Char) :=
  match rest with
  | '(' :: _ => (splitOnce? ')' rest).map (fun (before, _) => before ++ [')'])
  | _ => none

/-- Whether the context of a definition is a type definition. -/
def isTypeDefinition (context : List Char) : Bool :=
  match afterBeginning? "typedef".toList (context.dropWhile isBlank) with
  | some (c :: _) => !isWordCharacter c
  | some [] => true
  | none => false

/-- Whether a name, and then a brace, a colon or the end stand next. -/
def opensBody (cs : List Char) : Bool :=
  match skipWord? cs with
  | some rest =>
    match rest.dropWhile isBlank with
    | [] => true
    | c :: _ => c == ':' || c.toNat == 0x7b
  | none => false

/-- Whether an enumeration is defined right here. -/
def enumerationHere (cs : List Char) : Bool :=
  match (afterBeginning? "enum".toList cs).bind skipBlanks? with
  | some rest =>
    opensBody rest ||
      match (afterBeginning? "class".toList rest).bind skipBlanks? with
      | some rest => opensBody rest
      | none => false
  | none => false

/-- Whether a record is defined right here. -/
def recordHere (cs : List Char) : Bool :=
  ["struct", "union", "class"].any fun keyword =>
    match (afterBeginning? keyword.toList cs).bind skipBlanks? with
    | some rest => opensBody rest
    | none => false

/-- Whether a test holds at the start of some word; `inWord` says whether a character of a word
stands right before. -/
def atWordStart (test : List Char → Bool) (inWord : Bool) : List Char → Bool
  | [] => false
  | c :: cs => (!inWord && test (c :: cs)) || atWordStart test (isWordCharacter c) cs

/-- The words that say how a function is stored and not what it returns. -/
def storageWords : List (List Char) := ["static".toList, "inline".toList, "extern".toList]

/-- The detail of a function whose name is followed by an opening parenthesis in the normalised
context. -/
def functionDetail? (name compact : List Char) : Option SymbolDetail :=
  (splitAtInfix? (name ++ ['(']) compact).map fun (before, found) =>
    let words := (wordsOf before).filter (fun w => !storageWords.contains w)
    let returnType := if words.isEmpty then "void" else " ".intercalate (words.map String.ofList)
    let parameters := match splitOnce? ')' (found.drop name.length) with
      | some (list, _) => parametersOf (list ++ [')'])
      | none => []
    .unmeasured returnType (parameters.map String.ofList)

/-- The text with single spaces between its words. -/
def squeeze (cs : List Char) : List Char := [' '].intercalate (wordsOf cs)

/-- The guess from the context in which a name is defined. -/
def classify (name context : List Char) : SymbolDetail :=
  let squeezed := squeeze context
  let called := name ++ ['(']
  match afterDefinedName? context with
  | some rest => .define ((argumentList? rest).map (fun l => (parametersOf l).map String.ofList)) ""
  | none =>
    if isTypeDefinition context then .alias ""
    else if atWordStart enumerationHere false context then .enumeration []
    else if atWordStart recordHere false context && !hasInfix called squeezed then .record []
    else
      match functionDetail? name (replaceAll (name ++ [' ', '(']) called squeezed) with
      | some detail => detail
      | none =>
        let words := wordsOf context
        .global "" (words.contains "static".toList) (words.contains "const".toList)

/-- The symbol of a line of a listing, which is its `ordinal`-th. -/
def symbolOfLine? (line : List Char) (ordinal : Nat) : Option Symbol :=
  match splitFirst ' ' 3 line with
  | file :: name :: number :: rest =>
    (TagEntry.lineNumber? (String.ofList number)).map fun n =>
      let context := trimBy isBlank (rest.headD [])
      SymbolDraft.toSymbol
        ⟨String.ofList name, n.toUInt32, String.ofList context, classify name context⟩
        (TagEntry.projectFile (String.ofList file)) .cscope ordinal
  | _ => none

/-- The symbols of a listing. -/
def symbols (listing : String) : List Symbol :=
  (linesOf listing.toList).zipIdx.filterMap (fun (line, ordinal) => symbolOfLine? line ordinal)

/-- The arguments with which a database is built from a list of files. -/
def buildArguments (list database : String) : List String :=
  ["-b", "-k", "-i", list, "-f", database]

/-- The arguments with which a database is asked for all definitions. -/
def queryArguments (database : String) : List String := ["-d", "-L", "-1", ".*", "-f", database]

/-- What the tool reports in a run that builds the database and one that asks it; without files it
is not run. -/
def extract (files : List String) (build query : ToolRun) : Except IndexError (List Symbol) :=
  if files.isEmpty then .ok []
  else do
    let _ ← build.output .cscope
    let listing ← query.output .cscope
    return symbols listing

end CodeAtlas.CrossReference
