import CodeAtlas.Text.Ascii
import CodeAtlas.Word

/-!
# Decimal numbers as texts

A number with a fraction or an exponent is not computed with, but it has to fit: one that is too
large for a binary64 number is refused.  The greatest finite number of that form is
`2 ^ 1024 - 2 ^ 971`, and what lies less than half a step above it is still rounded down to it.
-/

namespace CodeAtlas.Text

/-- Whether a number without a sign, written with a fraction or an exponent or with many digits, is
at least half a step above the greatest finite binary64 number. -/
def exceedsDouble (cs : List Char) : Bool :=
  let whole := cs.takeWhile Char.isDigit
  let afterWhole := cs.dropWhile Char.isDigit
  let fraction := match afterWhole with
    | '.' :: rest => rest.takeWhile Char.isDigit
    | _ => []
  let exponentText := (cs.dropWhile (fun c => c != 'e' && c != 'E')).drop 1
  let exponentDigits := exponentText.dropWhile (fun c => c == '+' || c == '-')
  let magnitude := (Text.digits? 10 Text.digit? exponentDigits).getD 0
  let negative := exponentText.head? == some '-'
  let mantissa := (Text.digits? 10 Text.digit? (whole ++ fraction)).getD 0
  let limit := wordValues 1024 - wordValues 970
  if mantissa = 0 then false
  else if negative then
    let shift := magnitude + fraction.length
    if shift > whole.length + fraction.length then false
    else decide (limit * Nat.pow 10 shift ≤ mantissa)
  else if magnitude > fraction.length + 400 then true
  else decide (limit * Nat.pow 10 fraction.length ≤ mantissa * Nat.pow 10 magnitude)

end CodeAtlas.Text
