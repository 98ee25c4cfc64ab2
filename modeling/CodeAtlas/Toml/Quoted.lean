import CodeAtlas.Text.Ascii
import CodeAtlas.Text.Search

/-!
# Strings in a settings file

A string is written between double quotes, where a backslash begins an escape, or between single
quotes, where every character stands for itself.  Three quotes of either sort enclose a string that
may run over several lines.
-/

namespace CodeAtlas.Toml

/-- Whether a character may stand in a string or a comment: a tab, or no control character. -/
def isPlain (c : Char) : Bool := c == '\t' || (0x20 ≤ c.toNat && c.toNat != 0x7F)

/-- The character that is written as a backslash and a letter. -/
def shortEscape? (c : Char) : Option Char :=
  if c = 'b' then some '\x08'
  else if c = 't' then some '\t'
  else if c = 'n' then some '\n'
  else if c = 'f' then some '\x0c'
  else if c = 'r' then some '\r'
  else if c = '"' then some '"'
  else if c = '\\' then some '\\'
  else none

/-- The character with a code point given in hexadecimal digits. -/
def codePoint? (digits : List Char) : Option Char := do
  let n ← Text.digits? 16 Text.hexDigit? digits
  if n < 0xD800 ∨ (0xE000 ≤ n ∧ n < 0x110000) then some (Char.ofNat n) else none

/-- The inside of a string between double quotes, and what follows the closing quote. -/
def basic? : List Char → Option (List Char × List Char)
  | [] => none
  | '"' :: rest => some ([], rest)
  | '\\' :: 'u' :: a :: b :: c :: d :: rest => do
    let x ← codePoint? [a, b, c, d]
    let (s, rest) ← basic? rest
    return (x :: s, rest)
  | '\\' :: 'U' :: a :: b :: c :: d :: e :: f :: g :: h :: rest => do
    let x ← codePoint? [a, b, c, d, e, f, g, h]
    let (s, rest) ← basic? rest
    return (x :: s, rest)
  | '\\' :: e :: rest => do
    let x ← shortEscape? e
    let (s, rest) ← basic? rest
    return (x :: s, rest)
  | c :: rest => do
    if isPlain c ∧ c ≠ '\\' then
      let (s, rest) ← basic? rest
      return (c :: s, rest)
    else none

/-- The inside of a string between single quotes, and what follows the closing quote. -/
def literal? : List Char → Option (List Char × List Char)
  | [] => none
  | c :: rest => do
    if c = '\'' then some ([], rest)
    else if isPlain c then
      let (s, rest) ← literal? rest
      return (c :: s, rest)
    else none

/-- What three quotes and up to two more at the end of a string leave: the quotes that belong to the
string, and what follows.  None if there are fewer than three. -/
def closing? (quote : Char) (cs : List Char) : Option (Option (List Char × List Char)) :=
  let run := (cs.takeWhile (· == quote)).length
  if run < 3 then none
  else if run ≤ 5 then some (some (List.replicate (run - 3) quote, cs.drop run))
  else some none

/-- Whether a line ends here, apart from blanks. -/
def endsLine (cs : List Char) : Bool :=
  match cs.dropWhile fun c => c = ' ' ∨ c = '\t' with
  | '\n' :: _ => true
  | '\r' :: '\n' :: _ => true
  | _ => false

/-- The inside of a string between three double quotes.  A backslash at the end of a line joins it
with what follows; `joining` says that the blanks behind such a backslash are being passed over. -/
def longBasic? (joining : Bool) : List Char → Option (List Char × List Char)
  | [] => none
  | '\\' :: 'u' :: a :: b :: c :: d :: rest => do
    let x ← codePoint? [a, b, c, d]
    let (s, rest) ← longBasic? false rest
    return (x :: s, rest)
  | '\\' :: 'U' :: a :: b :: c :: d :: e :: f :: g :: h :: rest => do
    let x ← codePoint? [a, b, c, d, e, f, g, h]
    let (s, rest) ← longBasic? false rest
    return (x :: s, rest)
  | '\\' :: e :: rest => do
    if endsLine (e :: rest) then longBasic? true rest
    else
      let x ← shortEscape? e
      let (s, rest) ← longBasic? false rest
      return (x :: s, rest)
  | '\r' :: '\n' :: rest => do
    let (s, rest) ← longBasic? joining rest
    return (if joining then s else '\n' :: s, rest)
  | c :: rest => do
    match closing? '"' (c :: rest) with
    | some closed => closed
    | none =>
      if joining ∧ (c = ' ' ∨ c = '\t' ∨ c = '\n') then longBasic? true rest
      else if c = '\n' ∨ (isPlain c ∧ c ≠ '\\') then
        let (s, rest) ← longBasic? false rest
        return (c :: s, rest)
      else none

/-- The inside of a string between three single quotes. -/
def longLiteral? : List Char → Option (List Char × List Char)
  | [] => none
  | '\r' :: '\n' :: rest => (longLiteral? rest).map fun (s, rest) => ('\n' :: s, rest)
  | c :: rest => do
    match closing? '\'' (c :: rest) with
    | some closed => closed
    | none =>
      if c = '\n' ∨ isPlain c then
        let (s, rest) ← longLiteral? rest
        return (c :: s, rest)
      else none

/-- Drops the line feed that may follow three opening quotes. -/
def dropFirstFeed : List Char → List Char
  | '\n' :: cs => cs
  | '\r' :: '\n' :: cs => cs
  | cs => cs

/-- Reads a string on one line. -/
def shortString? : List Char → Option (String × List Char)
  | '"' :: cs => (basic? cs).map fun (s, rest) => (String.ofList s, rest)
  | '\'' :: cs => (literal? cs).map fun (s, rest) => (String.ofList s, rest)
  | _ => none

/-- Reads a string. -/
def string? : List Char → Option (String × List Char)
  | '"' :: '"' :: '"' :: cs =>
    (longBasic? false (dropFirstFeed cs)).map fun (s, rest) => (String.ofList s, rest)
  | '\'' :: '\'' :: '\'' :: cs =>
    (longLiteral? (dropFirstFeed cs)).map fun (s, rest) => (String.ofList s, rest)
  | cs => shortString? cs

/-! ### Writing -/

/-- The longest run of a character. -/
def longestRun (x : Char) (cs : List Char) : Nat :=
  (cs.foldl (fun (run, longest) c =>
    if c = x then (run + 1, max longest (run + 1)) else (0, longest)) (0, 0)).2

/-- Whether a character needs an escape wherever it stands. -/
def needsEscape (c : Char) : Bool := c != '\n' && !isPlain c

/-- The escape of a control character. -/
def escapeControl (c : Char) : List Char :=
  if c = '\x08' then ['\\', 'b']
  else if c = '\t' then ['\\', 't']
  else if c = '\n' then ['\\', 'n']
  else if c = '\x0c' then ['\\', 'f']
  else if c = '\r' then ['\\', 'r']
  else ['\\', 'u', '0', '0'] ++ (Text.hexByte c.toNat.toUInt8).map Char.toUpper

/-- The inside of a string between double quotes.  In a long string line feeds stand for themselves
and up to two quotes in a row need no escape; `quotes` counts those before. -/
def escaped (long : Bool) (quotes : Nat) : List Char → List Char
  | [] => []
  | c :: cs =>
    if c = '"' then
      if long ∧ quotes < 2 then '"' :: escaped long (quotes + 1) cs
      else '\\' :: '"' :: escaped long 0 cs
    else if c = '\\' then '\\' :: '\\' :: escaped long 0 cs
    else if c = '\n' ∧ long then '\n' :: escaped long 0 cs
    else if c.toNat < 0x20 ∨ c.toNat = 0x7F then escapeControl c ++ escaped long 0 cs
    else c :: escaped long 0 cs

/-- The written form of a string: the first that does without escapes among the short one with
double quotes, the short one with single quotes, the long one with double quotes and the long one
with single quotes; if none does, one with escapes. -/
def quoted (s : String) : String :=
  let cs := s.toList
  let feeds := cs.contains '\n'
  let controls := cs.any needsEscape
  let backslash := cs.contains '\\'
  let doubles := longestRun '"' cs
  let singles := longestRun '\'' cs
  let feed := if feeds then "\n" else ""
  let long := "\"\"\"" ++ feed ++ String.ofList (escaped true 0 cs) ++ "\"\"\""
  let short := "\"" ++ String.ofList (escaped false 0 cs) ++ "\""
  if !controls && !backslash && doubles == 0 && !feeds then short
  else if !controls && singles == 0 && !feeds then "'" ++ s ++ "'"
  else if !controls && !backslash && doubles ≤ 2 then long
  else if !controls && singles ≤ 2 then "'''" ++ feed ++ s ++ "'''"
  else if feeds then long
  else short

/-- Whether a character may stand in a name without quotes. -/
def isBareChar (c : Char) : Bool := c.isAlphanum || c == '_' || c == '-'

/-- The written form of a name. -/
def quotedName (s : String) : String :=
  let cs := s.toList
  let controls := cs.any fun c => !isPlain c
  if !cs.isEmpty && cs.all isBareChar then s
  else if !controls && !cs.contains '\\' && !cs.contains '"' then
    "\"" ++ String.ofList (escaped false 0 cs) ++ "\""
  else if !controls && !cs.contains '\'' then "'" ++ s ++ "'"
  else "\"" ++ String.ofList (escaped false 0 cs) ++ "\""

end CodeAtlas.Toml
