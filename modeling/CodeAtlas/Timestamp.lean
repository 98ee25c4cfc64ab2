import CodeAtlas.Text.Ascii
import CodeAtlas.Text.Blank

/-!
# Points in time

A point in time is a count of seconds since the beginning of 1970 in UTC and a count of nanoseconds
within the second.  A leap second is written as second 60; it is kept as the second before it with
more than a second's worth of nanoseconds.

Points in time are written in the form of RFC 3339, in UTC and with as many digits of the fraction
as are needed in groups of three.  Reading is more liberal: blanks may stand between the parts,
leading zeros may be missing, years may have a sign, and any offset from UTC is taken.
-/

namespace CodeAtlas

/-- A point in time. -/
structure Timestamp where
  /-- Seconds since the beginning of 1970. -/
  seconds : Int
  nanoseconds : Nat
  deriving DecidableEq, Repr, Inhabited

/-- A date of the Gregorian calendar. -/
structure CalendarDate where
  year : Int
  month : Nat
  day : Nat
  deriving DecidableEq, Repr, Inhabited

namespace CalendarDate

/-- Whether a year has a 29th of February. -/
def isLeapYear (year : Int) : Bool :=
  (year % 4 == 0 && year % 100 != 0) || year % 400 == 0

/-- The number of days of a month. -/
def daysInMonth (year : Int) (month : Nat) : Nat :=
  if month = 2 then if isLeapYear year then 29 else 28
  else if month = 4 ∨ month = 6 ∨ month = 9 ∨ month = 11 then 30
  else 31

/-- The years that a date may have. -/
def minYear : Int := -262143

/-- The years that a date may have. -/
def maxYear : Int := 262142

/-- Whether there is such a date. -/
def isValid (d : CalendarDate) : Bool :=
  minYear ≤ d.year && d.year ≤ maxYear && 1 ≤ d.month && d.month ≤ 12 && 1 ≤ d.day &&
    d.day ≤ daysInMonth d.year d.month

/-- The number of days from the first day of 1970 to a date.  Years are counted from March, so that
the leap day is the last day of a year, in cycles of 400 years with 146097 days. -/
def toDays (d : CalendarDate) : Int :=
  let year := if d.month ≤ 2 then d.year - 1 else d.year
  let cycle := year / 400
  let yearOfCycle := year % 400
  let monthFromMarch : Int := (d.month + 9) % 12
  let dayOfYear := (153 * monthFromMarch + 2) / 5 + d.day - 1
  let dayOfCycle := yearOfCycle * 365 + yearOfCycle / 4 - yearOfCycle / 100 + dayOfYear
  cycle * 146097 + dayOfCycle - 719468

/-- The date a number of days after the first day of 1970. -/
def ofDays (days : Int) : CalendarDate :=
  let days := days + 719468
  let cycle := days / 146097
  let dayOfCycle := days % 146097
  let yearOfCycle :=
    (dayOfCycle - dayOfCycle / 1460 + dayOfCycle / 36524 - dayOfCycle / 146096) / 365
  let dayOfYear := dayOfCycle - (365 * yearOfCycle + yearOfCycle / 4 - yearOfCycle / 100)
  let monthFromMarch := (5 * dayOfYear + 2) / 153
  let day := dayOfYear - (153 * monthFromMarch + 2) / 5 + 1
  let month := if monthFromMarch < 10 then monthFromMarch + 3 else monthFromMarch - 9
  let year := yearOfCycle + cycle * 400
  ⟨if month ≤ 2 then year + 1 else year, month.toNat, day.toNat⟩

end CalendarDate

namespace Timestamp

/-- The seconds of a day. -/
def secondsPerDay : Int := 86400

/-- The nanoseconds of a second. -/
def nanosPerSecond : Nat := 1000000000

/-- Whether a point in time comes before another or is the same. -/
def isNotAfter (a b : Timestamp) : Bool :=
  a.seconds < b.seconds || (a.seconds == b.seconds && a.nanoseconds ≤ b.nanoseconds)

/-- A number with leading zeros up to a width. -/
def padded (width n : Nat) : String :=
  let digits := toString n
  String.ofList (List.replicate (width - digits.length) '0') ++ digits

/-- The written form of a year: one outside the first ten thousand has a sign. -/
def yearText (year : Int) : String :=
  if 0 ≤ year ∧ year ≤ 9999 then padded 4 year.toNat
  else (if year < 0 then "-" else "+") ++ padded 4 year.natAbs

/-- The written form of a fraction of a second. -/
def fractionText (nanos : Nat) : String :=
  if nanos = 0 then ""
  else if nanos % 1000000 = 0 then "." ++ padded 3 (nanos / 1000000)
  else if nanos % 1000 = 0 then "." ++ padded 6 (nanos / 1000)
  else "." ++ padded 9 nanos

/-- The written form of the date of a point in time. -/
def dateText (t : Timestamp) : String :=
  let date := CalendarDate.ofDays (t.seconds / secondsPerDay)
  yearText date.year ++ "-" ++ padded 2 date.month ++ "-" ++ padded 2 date.day

/-- Whether a point in time lies in a leap second, as a number of seconds. -/
def leap (t : Timestamp) : Nat := if nanosPerSecond ≤ t.nanoseconds then 1 else 0

/-- The written form of the time of day of a point in time, in whole seconds. -/
def timeText (t : Timestamp) : String :=
  let second := (t.seconds % secondsPerDay).toNat
  padded 2 (second / 3600) ++ ":" ++ padded 2 (second / 60 % 60) ++ ":" ++
    padded 2 (second % 60 + t.leap)

/-- The written form of a point in time. -/
def toText (t : Timestamp) : String :=
  t.dateText ++ "T" ++ t.timeText ++ fractionText (t.nanoseconds - t.leap * nanosPerSecond) ++ "Z"

/-! ### Reading -/

/-- Drops leading blanks. -/
def skipBlanks (cs : List Char) : List Char := trimLeftBy isBlank cs

/-- The digits at the beginning, at least one and at most a given number of them, and the rest. -/
def digitsUpTo? (most : Nat) (cs : List Char) : Option (Nat × List Char) :=
  let digits := (cs.take most).takeWhile fun c => (Text.digit? c).isSome
  (Text.digits? 10 Text.digit? digits).map fun n => (n, cs.drop digits.length)

/-- A number of at most two digits behind blanks. -/
def twoDigits? (cs : List Char) : Option (Nat × List Char) := digitsUpTo? 2 (skipBlanks cs)

/-- A year behind blanks.  One with a sign may have any number of digits. -/
def year? (cs : List Char) : Option (Int × List Char) :=
  match skipBlanks cs with
  | '-' :: cs => (digitsUpTo? cs.length cs).map fun (n, rest) => (-n, rest)
  | '+' :: cs => (digitsUpTo? cs.length cs).map fun (n, rest) => ((n : Int), rest)
  | cs => (digitsUpTo? 4 cs).map fun (n, rest) => ((n : Int), rest)

/-- What follows a given character behind blanks. -/
def afterChar? (x : Char) (cs : List Char) : Option (List Char) :=
  match skipBlanks cs with
  | [] => none
  | c :: rest => if c = x then some rest else none

/-- The fraction of a second, if there is one, in nanoseconds.  More than nine digits do not
count. -/
def fraction? : List Char → Option (Nat × List Char)
  | '.' :: cs => do
    let (n, rest) ← digitsUpTo? 9 cs
    let used := cs.length - rest.length
    return (n * Nat.pow 10 (9 - used), rest.dropWhile fun c => (Text.digit? c).isSome)
  | cs => some (0, cs)

/-- An offset of hours and minutes, in seconds. -/
def hoursAndMinutes? : List Char → Option (Nat × List Char)
  | h₁ :: h₂ :: rest => do
    let h₁ ← Text.digit? h₁
    let h₂ ← Text.digit? h₂
    match rest.dropWhile fun c => c = ':' || isBlank c with
    | m₁ :: m₂ :: rest =>
      let m₁ ← Text.digit? m₁
      let m₂ ← Text.digit? m₂
      if m₁ < 6 then some ((h₁ * 10 + h₂) * 3600 + (m₁ * 10 + m₂) * 60, rest) else none
    | _ => none
  | _ => none

/-- The offset from UTC, in seconds. -/
def offset? (cs : List Char) : Option (Int × List Char) :=
  match cs with
  | 'Z' :: rest => some (0, rest)
  | 'z' :: rest => some (0, rest)
  | '+' :: rest => (hoursAndMinutes? rest).map fun (n, rest) => ((n : Int), rest)
  | '-' :: rest => (hoursAndMinutes? rest).map fun (n, rest) => (-n, rest)
  | '\u2212' :: rest => (hoursAndMinutes? rest).map fun (n, rest) => (-n, rest)
  | _ =>
    if (cs.take 3).map Char.toUpper = ['U', 'T', 'C'] then some (0, cs.drop 3) else none

/-- What follows the mark between date and time. -/
def afterMark? : List Char → Option (List Char)
  | [] => none
  | c :: rest => if c = 'T' ∨ c = 't' ∨ c = ' ' then some rest else none

/-- Reads a point in time. -/
def ofText? (s : String) : Option Timestamp := do
  let (year, cs) ← year? s.toList
  let (month, cs) ← (afterChar? '-' cs).bind twoDigits?
  let (day, cs) ← (afterChar? '-' cs).bind twoDigits?
  let cs ← afterMark? cs
  let (hour, cs) ← twoDigits? cs
  let (minute, cs) ← (afterChar? ':' cs).bind twoDigits?
  let (second, cs) ← (afterChar? ':' cs).bind twoDigits?
  let (nanos, cs) ← fraction? cs
  let (offset, cs) ← offset? (skipBlanks cs)
  let date : CalendarDate := ⟨year, month, day⟩
  if date.isValid ∧ hour < 24 ∧ minute < 60 ∧ second ≤ 60 ∧ offset.natAbs < 86400 ∧
      skipBlanks cs = [] then
    let leap : Nat := if second = 60 then 1 else 0
    let clock := hour * 3600 + minute * 60 + (second - leap)
    return ⟨date.toDays * secondsPerDay + clock - offset, nanos + leap * nanosPerSecond⟩
  else none

end Timestamp

end CodeAtlas
