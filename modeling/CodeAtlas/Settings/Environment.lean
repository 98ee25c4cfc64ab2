import CodeAtlas.Settings.Value
import CodeAtlas.Text.Blank
import CodeAtlas.Text.Search
import CodeAtlas.Toml.Quoted
import CodeAtlas.Word

/-!
# Settings in the environment

A variable whose name begins with `SYMGRAPH_` overrides the setting that the rest of its name says:
two underscores stand between the names of a table and of what is in it, and the case of the letters
does not count.

The text of a variable is a number, a truth value, a string between double quotes, a character
between single quotes, a list in brackets, a table in braces, or else a string that stands for
itself.  A text that has none of these forms as a whole stands for itself as well.
-/

namespace CodeAtlas.Environment

/-- Variables with their texts. -/
abbrev Variables := List (String × String)

/-- The beginning of the names of the variables that are settings. -/
def namePrefix : String := "SYMGRAPH_"

/-- Whether a character is white space in the syntax of values. -/
def isSpace (c : Char) : Bool :=
  c == ' ' || c == '\t' || c == '\n' || c == '\r' || c == '\x0c'

/-- Whether a character ends a bare word. -/
def isSeparator (c : Char) : Bool :=
  c == ',' || c == '[' || c == ']' || c.toNat == 0x7b || c.toNat == 0x7d

/-- Whether a text is a fraction: digits around a point, and perhaps an exponent. -/
def isFraction (cs : List Char) : Bool :=
  let unsigned := match cs with
    | '-' :: rest => rest
    | '+' :: rest => rest
    | cs => cs
  match splitOnce? '.' unsigned with
  | none => false
  | some (whole, rest) =>
    let isDigit (c : Char) : Bool := (Text.digit? c).isSome
    let part := rest.takeWhile isDigit
    let digits := whole ++ part
    let exponentOk := match rest.dropWhile isDigit with
      | [] => true
      | e :: exponent =>
        let exponent := match exponent with
          | '-' :: ds => ds
          | '+' :: ds => ds
          | ds => ds
        (e == 'e' || e == 'E') && !exponent.isEmpty && exponent.all isDigit
    !digits.isEmpty && digits.all isDigit && exponentOk

/-- An integer of 64 bits, with or without a sign. -/
def integer? (cs : List Char) : Option Int :=
  match cs with
  | '-' :: digits =>
    (Text.digits? 10 Text.digit? digits).bind fun n =>
      if n ≤ wordValues 63 then some (-(n : Int)) else none
  | cs => (Text.unsigned? (wordValues 64) (String.ofList cs)).map fun n => (n : Int)

/-- The value of a bare word. -/
def word (cs : List Char) : ConfigValue :=
  let cs := trimBy isBlank cs
  if isFraction cs then .fraction
  else
    match integer? cs with
    | some n => .integer n
    | none =>
      let s := String.ofList cs
      if s = "true" then .boolean true
      else if s = "false" then .boolean false
      else .text s

/-- Whether a character can be part of a name in a table. -/
def isNameChar (c : Char) : Bool := c.isAlphanum || c == '_' || c == '-'

/-- Reads a name in a table. -/
def name? (cs : List Char) : Option (String × List Char) :=
  match cs with
  | '"' :: rest => (Toml.basic? rest).map fun (s, rest) => (String.ofList s, rest)
  | cs =>
    let name := cs.takeWhile isNameChar
    if name.isEmpty then none else some (String.ofList name, cs.drop name.length)

/-- Drops white space. -/
def skip (cs : List Char) : List Char := cs.dropWhile isSpace

mutual

/-- Reads a value and the white space around it. -/
def value? (fuel : Nat) (cs : List Char) : Option (ConfigValue × List Char) :=
  match fuel with
  | 0 => none
  | fuel + 1 =>
    let found : Option (ConfigValue × List Char) := match skip cs with
      | '"' :: rest => (Toml.basic? rest).map fun (s, rest) => (.text (String.ofList s), rest)
      | '\'' :: c :: '\'' :: rest => some (.text (String.ofList [c]), rest)
      | '\'' :: _ => none
      | '[' :: rest => (items? fuel rest).map fun (items, rest) => (.list items, rest)
      | cs =>
        if (cs.head?.map Char.toNat) = some 0x7b then
          (entries? fuel (cs.drop 1)).map fun (entries, rest) =>
            (.table (entries.foldl (fun t e => ConfigValue.mergeEntries false t [e]) []), rest)
        else
          let bare := cs.takeWhile fun c => !isSeparator c
          some (word bare, cs.drop bare.length)
    found.map fun (v, rest) => (v, skip rest)

/-- Reads the items of a list. -/
def items? (fuel : Nat) (cs : List Char) : Option (List ConfigValue × List Char) :=
  match fuel with
  | 0 => none
  | fuel + 1 =>
    match cs with
    | ']' :: rest => some ([], rest)
    | cs => do
      let (item, rest) ← value? fuel cs
      match rest with
      | ',' :: rest => (items? fuel rest).map fun (items, rest) => (item :: items, rest)
      | ']' :: rest => some ([item], rest)
      | _ => none

/-- Reads the entries of a table. -/
def entries? (fuel : Nat) (cs : List Char) : Option (List (String × ConfigValue) × List Char) :=
  match fuel with
  | 0 => none
  | fuel + 1 =>
    if (cs.head?.map Char.toNat) = some 0x7d then some ([], cs.drop 1)
    else do
      let (name, rest) ← name? (skip cs)
      match skip rest with
      | '=' :: rest =>
        let (v, rest) ← value? fuel rest
        match rest with
        | [] => none
        | c :: rest =>
          if c = ',' then
            (entries? fuel rest).map fun (entries, rest) => ((name, v) :: entries, rest)
          else if c.toNat = 0x7d then some ([(name, v)], rest)
          else none
      | _ => none

end

/-- The value of the text of a variable. -/
def parse (s : String) : ConfigValue :=
  match value? (s.length + 2) s.toList with
  | some (v, []) => v
  | _ => .text s

/-- The names that the name of a variable stands for; none if the variable is no setting. -/
def path? (name : String) : Option (List String) :=
  let name := Text.trim name
  (afterBeginning? (Text.lowerAscii namePrefix).toList (Text.lowerAscii name).toList).bind
    fun rest =>
      let names := Text.splitAt '.' (String.ofList (replaceAll ['_', '_'] ['.'] rest))
      if names.contains "" then none else some names

/-- The layer of settings that the environment gives.  Variables are taken in the order of their
names. -/
def layer (environment : Variables) : ConfigValue :=
  let sorted := environment.mergeSort fun a b => decide (a.1 ≤ b.1)
  let settings := sorted.filterMap fun (name, s) => (path? name).map fun path => (path, parse s)
  settings.foldl (fun below (path, v) => below.merge true (ConfigValue.nested path v)) (.table [])

end CodeAtlas.Environment
