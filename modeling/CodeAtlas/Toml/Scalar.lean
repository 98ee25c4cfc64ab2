import CodeAtlas.Settings.Value
import CodeAtlas.Text.Ascii
import CodeAtlas.Text.Decimal
import CodeAtlas.Text.Search
import CodeAtlas.Timestamp
import CodeAtlas.Word

/-!
# Numbers, dates and truth values in a settings file

A scalar that is not a string is one run of letters, digits and signs.  Which kind it is of is seen
from its form: integers are written in base 10, 16, 8 or 2 with single underscores between digits
and fit into 64 bits with a sign; fractions have a point or an exponent; dates and times have the
form of RFC 3339, any part of which may be missing.
-/

namespace CodeAtlas.Toml

/-- Digits with single underscores between them, without the underscores. -/
def plainDigits? (isDigit : Char → Bool) : List Char → Option (List Char)
  | [] => none
  | [c] => if isDigit c then some [c] else none
  | c :: '_' :: rest =>
    if isDigit c then (plainDigits? isDigit rest).map (c :: ·) else none
  | c :: rest => if isDigit c then (plainDigits? isDigit rest).map (c :: ·) else none

/-- Whether a character is a decimal digit. -/
def isDecimal (c : Char) : Bool := (Text.digit? c).isSome

/-- The sign of a number and what follows it. -/
def splitSign : List Char → Bool × List Char
  | '-' :: cs => (true, cs)
  | '+' :: cs => (false, cs)
  | cs => (false, cs)

/-- The digits of a number in base 10, which do not begin with a needless zero. -/
def decimalDigits? (cs : List Char) : Option (List Char) :=
  match cs with
  | ['0'] => some ['0']
  | '0' :: _ => none
  | cs => plainDigits? isDecimal cs

/-- A number that fits into 64 bits with a sign. -/
def fitting? (n : Int) : Option ConfigValue :=
  if -(wordValues 63 : Int) ≤ n ∧ n < wordValues 63 then some (.integer n) else none

/-- An integer in another base than 10, behind its mark. -/
def based? (base : Nat) (cs : List Char) : Option ConfigValue := do
  let isDigit (c : Char) : Bool := ((Text.hexDigit? c).map fun d => decide (d < base)).getD false
  let n ← Text.digits? base Text.hexDigit? (← plainDigits? isDigit cs)
  fitting? n

/-- An integer. -/
def integer? (cs : List Char) : Option ConfigValue :=
  match cs with
  | '0' :: 'x' :: rest => based? 16 rest
  | '0' :: 'o' :: rest => based? 8 rest
  | '0' :: 'b' :: rest => based? 2 rest
  | cs => do
    let (negative, digits) := splitSign cs
    let n ← Text.digits? 10 Text.digit? (← decimalDigits? digits)
    fitting? (if negative then -n else n)

/-- Whether a text is an exponent behind its mark. -/
def isExponent (cs : List Char) : Bool := (plainDigits? isDecimal (splitSign cs).2).isSome

/-- The parts of a fraction before and behind the mark of its exponent. -/
def splitExponent (cs : List Char) : List Char × Option (List Char) :=
  match cs.dropWhile fun c => c ≠ 'e' ∧ c ≠ 'E' with
  | [] => (cs, none)
  | _ :: exponent => (cs.takeWhile fun c => c ≠ 'e' ∧ c ≠ 'E', some exponent)

/-- Whether a text has the form of a fraction. -/
def isFraction (cs : List Char) : Bool :=
  let unsigned := (splitSign cs).2
  if unsigned = ['i', 'n', 'f'] ∨ unsigned = ['n', 'a', 'n'] then true
  else
    let (mantissa, exponent) := splitExponent unsigned
    let exponentOk := (exponent.map isExponent).getD true
    match splitOnce? '.' mantissa with
    | some (whole, part) =>
      (decimalDigits? whole).isSome && (plainDigits? isDecimal part).isSome && exponentOk
    | none => exponent.isSome && (decimalDigits? mantissa).isSome && exponentOk

/-- Whether a fraction is finite, as far as that is asked for: a number below zero may be too large
to be one, and infinity may be named. -/
def isFinite (cs : List Char) : Bool :=
  let (negative, unsigned) := splitSign cs
  negative || !Text.exceedsDouble (unsigned.filter (· != '_'))

/-- A number of exactly the given count of digits, and what follows it. -/
def fixedDigits? (count : Nat) (cs : List Char) : Option (Nat × List Char) :=
  if (cs.take count).length = count ∧ (cs.take count).all isDecimal then
    (Text.digits? 10 Text.digit? (cs.take count)).map fun n => (n, cs.drop count)
  else none

/-- What follows a given character. -/
def after? (x : Char) : List Char → Option (List Char)
  | [] => none
  | c :: cs => if c = x then some cs else none

/-- What follows a date. -/
def afterDate? (cs : List Char) : Option (List Char) := do
  let (year, cs) ← fixedDigits? 4 cs
  let (month, cs) ← (after? '-' cs).bind (fixedDigits? 2)
  let (day, cs) ← (after? '-' cs).bind (fixedDigits? 2)
  if (CalendarDate.mk year month day).isValid then some cs else none

/-- What follows a time of day. -/
def afterTime? (cs : List Char) : Option (List Char) := do
  let (hour, cs) ← fixedDigits? 2 cs
  let (minute, cs) ← (after? ':' cs).bind (fixedDigits? 2)
  let (second, cs) ← (after? ':' cs).bind (fixedDigits? 2)
  if hour < 24 ∧ minute < 60 ∧ second ≤ 60 then
    match cs with
    | '.' :: rest =>
      let rest' := rest.dropWhile isDecimal
      if rest'.length < rest.length then some rest' else none
    | cs => some cs
  else none

/-- Whether a text is an offset from UTC, or nothing. -/
def isOffset (cs : List Char) : Bool :=
  match cs with
  | [] => true
  | ['Z'] => true
  | ['z'] => true
  | c :: rest =>
    (c = '+' ∨ c = '-') && ((do
      let (hour, rest) ← fixedDigits? 2 rest
      let (minute, rest) ← (after? ':' rest).bind (fixedDigits? 2)
      return hour < 24 && minute < 60 && rest.isEmpty).getD false)

/-- Whether a text is a date, a time of day, or both. -/
def isMoment (cs : List Char) : Bool :=
  match afterDate? cs with
  | some [] => true
  | some (mark :: rest) =>
    (mark = 'T' ∨ mark = 't' ∨ mark = ' ') && ((afterTime? rest).map isOffset).getD false
  | none => ((afterTime? cs).map List.isEmpty).getD false

/-- The name under which a date or time stands in the table that it is handed on as. -/
def momentKey : String := "$__toml_private_datetime"

/-- The value of a scalar that is not a string. -/
def scalar? (cs : List Char) : Option ConfigValue :=
  if cs = ['t', 'r', 'u', 'e'] then some (.boolean true)
  else if cs = ['f', 'a', 'l', 's', 'e'] then some (.boolean false)
  else
    (integer? cs).orElse fun _ =>
      if isFraction cs ∧ isFinite cs then some .fraction
      else if isMoment cs then some (.table [(momentKey, .text (String.ofList cs))])
      else none

/-- Whether a character can be part of a scalar that is not a string. -/
def isScalarChar (c : Char) : Bool :=
  c.isAlphanum || c == '+' || c == '-' || c == '_' || c == '.' || c == ':'

/-- Reads a scalar that is not a string.  A space may stand between a date and a time. -/
def readScalar? (cs : List Char) : Option (ConfigValue × List Char) :=
  let word := cs.takeWhile isScalarChar
  let rest := cs.drop word.length
  match afterDate? word, rest with
  | some [], ' ' :: d :: _ =>
    if isDecimal d then
      let time := (rest.drop 1).takeWhile isScalarChar
      (scalar? (word ++ ' ' :: time)).map fun v => (v, rest.drop (1 + time.length))
    else (scalar? word).map fun v => (v, rest)
  | _, _ => (scalar? word).map fun v => (v, rest)

end CodeAtlas.Toml
