import CodeAtlas.Toml.Document
import CodeAtlas.Toml.Quoted
import CodeAtlas.Toml.Scalar

/-!
# Reading a settings file

The document is read statement by statement: blank lines, comments, headers, and entries.  Every
reader takes the characters that are left and returns what it read with those that are still left.
Readers that call one another are given fuel; each call uses up a unit, and none can be made without
reading a character first, so the length of the document is enough.
-/

namespace CodeAtlas.Toml

/-- Drops blanks within a line. -/
def skipSpace (cs : List Char) : List Char := cs.dropWhile fun c => c = ' ' ∨ c = '\t'

/-- What follows a comment, if one stands here; a comment holds no control characters. -/
def skipComment? (cs : List Char) : Option (List Char) :=
  match cs with
  | '#' :: rest =>
    match rest.dropWhile isPlain with
    | [] => some []
    | '\n' :: after => some ('\n' :: after)
    | '\r' :: '\n' :: after => some ('\r' :: '\n' :: after)
    | _ => none
  | cs => some cs

/-- What follows the end of a line, blanks and a comment before it included. -/
def endLine? (cs : List Char) : Option (List Char) := do
  match ← skipComment? (skipSpace cs) with
  | [] => some []
  | '\n' :: rest => some rest
  | '\r' :: '\n' :: rest => some rest
  | _ => none

/-- Drops blanks, comments and ends of lines. -/
def skipLines? (fuel : Nat) (cs : List Char) : Option (List Char) :=
  match fuel with
  | 0 => none
  | fuel + 1 => do
    match ← skipComment? (skipSpace cs) with
    | '\n' :: rest => skipLines? fuel rest
    | '\r' :: '\n' :: rest => skipLines? fuel rest
    | rest => some rest

/-- Reads one name of a dotted name. -/
def readName? (cs : List Char) : Option (String × List Char) :=
  match shortString? cs with
  | some found => some found
  | none =>
    let name := cs.takeWhile isBareChar
    if name.isEmpty then none else some (String.ofList name, cs.drop name.length)

/-- Reads the names of a dotted name, and the blanks behind it. -/
def readPath? (fuel : Nat) (cs : List Char) : Option (List String × List Char) :=
  match fuel with
  | 0 => none
  | fuel + 1 => do
    let (name, rest) ← readName? (skipSpace cs)
    match skipSpace rest with
    | '.' :: rest => (readPath? fuel rest).map fun (names, rest) => (name :: names, rest)
    | rest => some ([name], rest)

/-- A list of names without its last one, and that one. -/
def splitLast? (names : List String) : Option (List String × String) :=
  names.getLast?.map fun last => (names.dropLast, last)

/-- How deep lists and inline tables may lie in each other. -/
def maxDepth : Nat := 79

/-- The names of a dotted name, of which there are not too many, without the last one, and that
one. -/
def splitPath? (names : List String) : Option (List String × String) :=
  if names.length ≤ maxDepth then splitLast? names else none

mutual

/-- Reads a value.  `depth` says how many more lists and tables may be opened. -/
def readValue? (fuel depth : Nat) (cs : List Char) : Option (ConfigValue × List Char) :=
  match fuel with
  | 0 => none
  | fuel + 1 =>
    match cs with
    | '[' :: rest =>
      match depth with
      | 0 => none
      | depth + 1 =>
        (readItems? fuel depth [] rest).map fun (items, rest) => (.list items, rest)
    | c :: rest =>
      if c.toNat = 0x7b then
        match depth with
        | 0 => none
        | depth + 1 =>
          (readEntries? fuel depth true [] rest).map fun (entries, rest) =>
            (.table (TomlNode.entriesToConfig entries), rest)
      else if c = '"' ∨ c = '\'' then (string? cs).map fun (s, rest) => (.text s, rest)
      else readScalar? cs
    | [] => none

/-- Reads the items of a list behind those that were read already, which stand in reverse. -/
def readItems? (fuel depth : Nat) (done : List ConfigValue) (cs : List Char) :
    Option (List ConfigValue × List Char) :=
  match fuel with
  | 0 => none
  | fuel + 1 => do
    let cs ← skipLines? (cs.length + 1) cs
    match cs with
    | ']' :: rest => some (done.reverse, rest)
    | cs =>
      let (item, rest) ← readValue? fuel depth cs
      match ← skipLines? (rest.length + 1) rest with
      | ',' :: rest => readItems? fuel depth (item :: done) rest
      | ']' :: rest => some ((item :: done).reverse, rest)
      | _ => none

/-- Reads the entries of an inline table behind those that were read already. -/
def readEntries? (fuel depth : Nat) (first : Bool) (done : TomlNode.Entries) (cs : List Char) :
    Option (TomlNode.Entries × List Char) :=
  match fuel with
  | 0 => none
  | fuel + 1 => do
    let cs := skipSpace cs
    if first ∧ (cs.head?.map Char.toNat) = some 0x7d then some (done, cs.drop 1)
    else
      let (names, rest) ← readPath? (cs.length + 1) cs
      let (path, name) ← splitPath? names
      let rest ← after? '=' rest
      let (value, rest) ← readValue? fuel depth (skipSpace rest)
      let done ← TomlNode.addValue path name value done
      match skipSpace rest with
      | c :: rest =>
        if c = ',' then readEntries? fuel depth false done rest
        else if c.toNat = 0x7d then some (done, rest)
        else none
      | [] => none

end

/-- A document that is being read: its entries so far, and the header that was opened last. -/
structure Draft where
  root : TomlNode.Entries := []
  header : List String := []
  deriving Inhabited

/-- Reads a header behind its opening brackets. -/
def readHeader? (closing : List Char)
    (opening : List String → String → TomlNode.Entries → Option TomlNode.Entries) (d : Draft)
    (cs : List Char) : Option (Draft × List Char) := do
  let (names, rest) ← readPath? (cs.length + 1) cs
  let (path, name) ← splitPath? names
  let rest ← afterBeginning? closing rest
  let root ← opening path name d.root
  return (⟨root, names⟩, ← endLine? rest)

/-- Reads an entry. -/
def readEntry? (d : Draft) (cs : List Char) : Option (Draft × List Char) := do
  let (names, rest) ← readPath? (cs.length + 1) cs
  let (path, name) ← splitPath? names
  let rest ← after? '=' rest
  let (value, rest) ← readValue? (rest.length + 1) maxDepth (skipSpace rest)
  let root ← TomlNode.addBelow d.header path name value d.root
  return ({ d with root }, ← endLine? rest)

/-- Reads the statements of a document. -/
def readStatements? (fuel : Nat) (d : Draft) (cs : List Char) : Option Draft :=
  match fuel with
  | 0 => none
  | fuel + 1 => do
    let cs ← skipLines? (cs.length + 1) cs
    match cs with
    | [] => some d
    | '[' :: '[' :: rest =>
      let (d, rest) ← readHeader? [']', ']'] TomlNode.openNextTable d rest
      readStatements? fuel d rest
    | '[' :: rest =>
      let (d, rest) ← readHeader? [']'] TomlNode.openTable d rest
      readStatements? fuel d rest
    | cs =>
      let (d, rest) ← readEntry? d cs
      readStatements? fuel d rest

/-- Reads a settings file, which may begin with a byte order mark. -/
def parse? (s : String) : Option ConfigValue :=
  let cs := match s.toList with
    | '\uFEFF' :: cs => cs
    | cs => cs
  (readStatements? (cs.length + 1) {} cs).map fun d => .table (TomlNode.entriesToConfig d.root)

end CodeAtlas.Toml
