/-!
# Blank characters, words and trimming

Text from source files, tag lines and server answers is compared and shown with its white space
normalised.  This module fixes which characters are blank (the Unicode property `White_Space`),
cuts a text at the characters of a class, and derives from the cut the words of a text, the text
with every run of blanks replaced by one space, and trimming at either end.

The functions on `List Char` carry the rules; the functions on `String` only wrap them.
-/

namespace CodeAtlas

/-- The characters of the Unicode property `White_Space`. -/
def isBlank (c : Char) : Bool :=
  let n := c.toNat
  (9 ≤ n && n ≤ 13) || n == 0x20 || n == 0x85 || n == 0xA0 || n == 0x1680 ||
    (0x2000 ≤ n && n ≤ 0x200A) || n == 0x2028 || n == 0x2029 || n == 0x202F || n == 0x205F ||
    n == 0x3000

/-- Cuts a list at every character of a class: `k` such characters give `k + 1` pieces, and the
pieces hold none of them. -/
def splitAtClass (p : Char → Bool) : List Char → List (List Char)
  | [] => [[]]
  | c :: cs =>
    if p c then [] :: splitAtClass p cs
    else match splitAtClass p cs with
      | [] => [[c]]
      | piece :: pieces => (c :: piece) :: pieces

@[simp] theorem splitAtClass_ne_nil (p : Char → Bool) (cs : List Char) :
    splitAtClass p cs ≠ [] := by
  cases cs with
  | nil => simp [splitAtClass]
  | cons c cs =>
    unfold splitAtClass
    split
    · simp
    · split <;> simp

/-- The words of a text: its maximal runs of characters that are not blank. -/
def wordsOf (cs : List Char) : List (List Char) :=
  (splitAtClass isBlank cs).filter (fun w => !w.isEmpty)

/-- Drops the leading characters of a class. -/
def trimLeftBy (p : Char → Bool) (cs : List Char) : List Char := cs.dropWhile p

/-- Drops the trailing characters of a class. -/
def trimRightBy (p : Char → Bool) (cs : List Char) : List Char :=
  (cs.reverse.dropWhile p).reverse

/-- Drops the characters of a class at both ends. -/
def trimBy (p : Char → Bool) (cs : List Char) : List Char := trimRightBy p (trimLeftBy p cs)

namespace Text

/-- The words of a text, in order. -/
def words (s : String) : List String := (wordsOf s.toList).map String.ofList

/-- The words of a text joined by single spaces. -/
def collapse (s : String) : String := " ".intercalate (words s)

/-- A text without its leading and trailing blanks. -/
def trim (s : String) : String := String.ofList (trimBy isBlank s.toList)

/-- A text without the leading copies of one character. -/
def trimLeftChar (x : Char) (s : String) : String :=
  String.ofList (trimLeftBy (· == x) s.toList)

/-- A text without the trailing copies of one character. -/
def trimRightChar (x : Char) (s : String) : String :=
  String.ofList (trimRightBy (· == x) s.toList)

/-- A text without the copies of one character at both ends. -/
def trimChar (x : Char) (s : String) : String := String.ofList (trimBy (· == x) s.toList)

/-- The pieces of a text between the occurrences of one character. -/
def splitAt (x : Char) (s : String) : List String :=
  (splitAtClass (· == x) s.toList).map String.ofList

end Text

end CodeAtlas
