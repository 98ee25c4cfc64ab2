/-!
# Case, padding and digits

Names of kinds, file extensions and variables of the environment are compared without regard to
the case of the ASCII letters; all other characters stand for themselves.  Columns of a listing are
padded with spaces, and a text that is too long for its column is kept whole.
-/

namespace CodeAtlas.Text

/-- A text with the ASCII letters in lower case. -/
def lowerAscii (s : String) : String := String.ofList (s.toList.map Char.toLower)

/-- A text padded with spaces on the right to a width in characters. -/
def padRight (width : Nat) (s : String) : String :=
  s ++ String.ofList (List.replicate (width - s.length) ' ')

/-- A text padded with spaces on the left to a width in characters. -/
def padLeft (width : Nat) (s : String) : String :=
  String.ofList (List.replicate (width - s.length) ' ') ++ s

/-- The value of an ASCII digit. -/
def digit? (c : Char) : Option Nat :=
  if '0' ≤ c ∧ c ≤ '9' then some (c.toNat - '0'.toNat) else none

/-- The value of a hexadecimal digit of either case. -/
def hexDigit? (c : Char) : Option Nat :=
  if '0' ≤ c ∧ c ≤ '9' then some (c.toNat - '0'.toNat)
  else if 'a' ≤ c ∧ c ≤ 'f' then some (c.toNat - 'a'.toNat + 10)
  else if 'A' ≤ c ∧ c ≤ 'F' then some (c.toNat - 'A'.toNat + 10)
  else none

/-- The value of a list of digits in a base, most significant first; none for the empty list. -/
def digits? (base : Nat) (value : Char → Option Nat) : List Char → Option Nat
  | [] => none
  | c :: cs =>
    (c :: cs).foldlM (fun acc c => (value c).bind fun d =>
      if d < base then some (acc * base + d) else none) 0

/-- The two lower-case hexadecimal digits of a byte. -/
def hexByte (b : UInt8) : List Char :=
  [Nat.digitChar (b.toNat / 16), Nat.digitChar (b.toNat % 16)]

/-- An unsigned decimal number of at least one digit, optionally behind a plus sign, below a
bound. -/
def unsigned? (bound : Nat) (s : String) : Option Nat :=
  let digits := match s.toList with
    | '+' :: cs => cs
    | cs => cs
  (digits? 10 digit? digits).bind fun n => if n < bound then some n else none

end CodeAtlas.Text
