import CodeAtlas.Json.Basic
import CodeAtlas.Text.Ascii
import CodeAtlas.Text.Decimal
import CodeAtlas.Word

/-!
# The tokens of a JSON document

A document is read one character at a time by a machine that stands between tokens, inside a
string, inside an escape of a string, or inside a bare word (a number or one of the three names).
The machine refuses a character that can stand at no such place; a document is refused too when the
end comes inside a string.

An escape of the form `\u` gives a UTF-16 unit.  Two units that form a surrogate pair give one
character; a surrogate without its partner is refused.
-/

namespace CodeAtlas.Json

/-- A token of a JSON document. -/
inductive Token where
  | openBrace
  | closeBrace
  | openBracket
  | closeBracket
  | colon
  | comma
  | scalar (value : Json)
  deriving Inhabited

/-- Where the machine stands.  Texts being read are kept in reverse. -/
inductive LexMode where
  | between
  | word (letters : List Char)
  | string (text : List Char)
  | escape (text : List Char)
  | unit (text : List Char) (missing : Nat) (value : Nat) (high : Option Nat)
  | lowBackslash (text : List Char) (high : Nat)
  | lowLetter (text : List Char) (high : Nat)

/-- The machine: where it stands and the tokens it has read, in reverse. -/
structure Lexer where
  mode : LexMode := .between
  tokens : List Token := []

/-- Whether digits, a fraction and an exponent follow the grammar of JSON numbers. -/
def isNumber (cs : List Char) : Bool :=
  let unsigned := match cs with
    | '-' :: rest => rest
    | rest => rest
  let whole := unsigned.takeWhile Char.isDigit
  let afterWhole := unsigned.dropWhile Char.isDigit
  let wholeOk := match whole with
    | [] => false
    | ['0'] => true
    | '0' :: _ => false
    | _ => true
  let (fractionOk, afterFraction) := match afterWhole with
    | '.' :: rest => (!(rest.takeWhile Char.isDigit).isEmpty, rest.dropWhile Char.isDigit)
    | rest => (true, rest)
  let exponentOk := match afterFraction with
    | [] => true
    | e :: rest =>
      let digits := match rest with
        | '+' :: ds => ds
        | '-' :: ds => ds
        | ds => ds
      (e == 'e' || e == 'E') && !digits.isEmpty && digits.all Char.isDigit
  wholeOk && fractionOk && exponentOk

/-- The value that a bare word stands for. -/
def wordValue? (cs : List Char) : Option Json :=
  if cs = ['t', 'r', 'u', 'e'] then some (.bool true)
  else if cs = ['f', 'a', 'l', 's', 'e'] then some (.bool false)
  else if cs = ['n', 'u', 'l', 'l'] then some .null
  else if !isNumber cs then none
  else
    let literal := Json.decimal (String.ofList cs)
    match cs with
    | '-' :: digits =>
      match Text.digits? 10 Text.digit? digits with
      | some n =>
        if n ≠ 0 ∧ n ≤ wordValues 63 then some (.int (-n))
        else if Text.exceedsDouble digits then none else some literal
      | none => if Text.exceedsDouble digits then none else some literal
    | digits =>
      match Text.digits? 10 Text.digit? digits with
      | some n =>
        if n < wordValues 64 then some (.int n)
        else if Text.exceedsDouble digits then none
        else some literal
      | none => if Text.exceedsDouble digits then none else some literal

/-- Whether a character may stand in a bare word. -/
def isWordChar (c : Char) : Bool :=
  c.isAlphanum || c == '-' || c == '+' || c == '.'

/-- Reads a character between two tokens. -/
def lexBetween (tokens : List Token) (c : Char) : Option Lexer :=
  if c = ' ' ∨ c = '\n' ∨ c = '\t' ∨ c = '\r' then some ⟨.between, tokens⟩
  else if c.toNat = 0x7b then some ⟨.between, .openBrace :: tokens⟩
  else if c.toNat = 0x7d then some ⟨.between, .closeBrace :: tokens⟩
  else if c = '[' then some ⟨.between, .openBracket :: tokens⟩
  else if c = ']' then some ⟨.between, .closeBracket :: tokens⟩
  else if c = ':' then some ⟨.between, .colon :: tokens⟩
  else if c = ',' then some ⟨.between, .comma :: tokens⟩
  else if c = '"' then some ⟨.string [], tokens⟩
  else if isWordChar c then some ⟨.word [c], tokens⟩
  else none

/-- The character of an escape that is a single letter. -/
def escapedChar? (c : Char) : Option Char :=
  if c = '"' ∨ c = '\\' ∨ c = '/' then some c
  else if c = 'n' then some '\n'
  else if c = 'r' then some '\r'
  else if c = 't' then some '\t'
  else if c = 'b' then some (Char.ofNat 8)
  else if c = 'f' then some (Char.ofNat 12)
  else none

/-- What a complete UTF-16 unit does to the string being read. -/
def closeUnit (tokens : List Token) (text : List Char) (high : Option Nat) (value : Nat) :
    Option Lexer :=
  match high with
  | some h =>
    if 0xDC00 ≤ value ∧ value ≤ 0xDFFF then
      some ⟨.string (Char.ofNat (0x10000 + (h - 0xD800) * 0x400 + (value - 0xDC00)) :: text),
        tokens⟩
    else none
  | none =>
    if 0xD800 ≤ value ∧ value ≤ 0xDBFF then some ⟨.lowBackslash text value, tokens⟩
    else if 0xDC00 ≤ value ∧ value ≤ 0xDFFF then none
    else some ⟨.string (Char.ofNat value :: text), tokens⟩

/-- Reads one character. -/
def Lexer.step (l : Lexer) (c : Char) : Option Lexer :=
  match l.mode with
  | .between => lexBetween l.tokens c
  | .word letters =>
    if isWordChar c then some ⟨.word (c :: letters), l.tokens⟩
    else (wordValue? letters.reverse).bind fun v => lexBetween (.scalar v :: l.tokens) c
  | .string text =>
    if c = '"' then some ⟨.between, .scalar (.str (String.ofList text.reverse)) :: l.tokens⟩
    else if c = '\\' then some ⟨.escape text, l.tokens⟩
    else if c.toNat < 0x20 then none
    else some ⟨.string (c :: text), l.tokens⟩
  | .escape text =>
    if c = 'u' then some ⟨.unit text 4 0 none, l.tokens⟩
    else (escapedChar? c).map fun x => ⟨.string (x :: text), l.tokens⟩
  | .unit text missing value high =>
    (Text.hexDigit? c).bind fun d =>
      if missing ≤ 1 then closeUnit l.tokens text high (value * 16 + d)
      else some ⟨.unit text (missing - 1) (value * 16 + d) high, l.tokens⟩
  | .lowBackslash text high => if c = '\\' then some ⟨.lowLetter text high, l.tokens⟩ else none
  | .lowLetter text high => if c = 'u' then some ⟨.unit text 4 0 (some high), l.tokens⟩ else none

/-- The tokens read, when the document may end here. -/
def Lexer.finish (l : Lexer) : Option (List Token) :=
  match l.mode with
  | .between => some l.tokens.reverse
  | .word letters =>
    (wordValue? letters.reverse).map fun v => (Token.scalar v :: l.tokens).reverse
  | _ => none

/-- The tokens of a document. -/
def tokens? (cs : List Char) : Option (List Token) :=
  (cs.foldlM Lexer.step (⟨.between, []⟩ : Lexer)).bind Lexer.finish

end CodeAtlas.Json
