import CodeAtlas.Text.Blank

/-!
# Searching and replacing

Finding a text inside a text, replacing all its occurrences from left to right, taking off all its
copies at either end, and cutting a text at the first occurrences of a character.  Occurrences that
overlap an earlier one do not count.
-/

namespace CodeAtlas

/-- The parts of a list before the first occurrence of a pattern and from it on. -/
def splitAtInfix? (pattern : List Char) : List Char → Option (List Char × List Char)
  | [] => if pattern.isEmpty then some ([], []) else none
  | c :: cs =>
    if pattern.isPrefixOf (c :: cs) then some ([], c :: cs)
    else (splitAtInfix? pattern cs).map (fun (before, found) => (c :: before, found))

/-- Whether a pattern occurs in a list. -/
def hasInfix (pattern cs : List Char) : Bool := (splitAtInfix? pattern cs).isSome

/-- Replaces the occurrences of a pattern that is not empty; the first `skip` characters are those
left of an occurrence that was just replaced. -/
def replaceFrom (pattern replacement : List Char) : Nat → List Char → List Char
  | _, [] => []
  | skip + 1, _ :: cs => replaceFrom pattern replacement skip cs
  | 0, c :: cs =>
    if pattern.isPrefixOf (c :: cs) then
      replacement ++ replaceFrom pattern replacement (pattern.length - 1) cs
    else c :: replaceFrom pattern replacement 0 cs

/-- Replaces all occurrences of a pattern that is not empty. -/
def replaceAll (pattern replacement cs : List Char) : List Char :=
  replaceFrom pattern replacement 0 cs

/-- Takes off all copies of a pattern, which is not empty, at the front; the first `skip` characters
are those left of a copy that was just taken off. -/
def dropCopiesFrom (pattern : List Char) : Nat → List Char → List Char
  | _, [] => []
  | skip + 1, _ :: cs => dropCopiesFrom pattern skip cs
  | 0, c :: cs =>
    if pattern.isPrefixOf (c :: cs) then dropCopiesFrom pattern (pattern.length - 1) cs
    else c :: cs

/-- Takes off all copies of a pattern at the front. -/
def dropLeadingCopies (pattern cs : List Char) : List Char := dropCopiesFrom pattern 0 cs

/-- Takes off all copies of a pattern at the end. -/
def dropTrailingCopies (pattern cs : List Char) : List Char :=
  (dropLeadingCopies pattern.reverse cs.reverse).reverse

/-- What follows a given beginning. -/
def afterBeginning? : List Char → List Char → Option (List Char)
  | [], cs => some cs
  | _ :: _, [] => none
  | b :: bs, c :: cs => if b = c then afterBeginning? bs cs else none

/-- The parts of a list before and behind the first occurrence of a character. -/
def splitOnce? (x : Char) : List Char → Option (List Char × List Char)
  | [] => none
  | c :: cs =>
    if c = x then some ([], cs)
    else (splitOnce? x cs).map (fun (before, rest) => (c :: before, rest))

/-- Cuts a list at the first `cuts` occurrences of a character. -/
def splitFirst (x : Char) : Nat → List Char → List (List Char)
  | 0, cs => [cs]
  | cuts + 1, cs =>
    match splitOnce? x cs with
    | some (before, rest) => before :: splitFirst x cuts rest
    | none => [cs]

namespace Text

/-- Whether a text begins with another. -/
def startsWith (beginning s : String) : Bool := beginning.toList.isPrefixOf s.toList

/-- Whether a text occurs in another. -/
def contains (pattern s : String) : Bool := hasInfix pattern.toList s.toList

/-- A text with all occurrences of a pattern replaced. -/
def replace (pattern replacement s : String) : String :=
  String.ofList (replaceAll pattern.toList replacement.toList s.toList)

/-- What follows a given beginning of a text. -/
def after? (beginning s : String) : Option String :=
  (afterBeginning? beginning.toList s.toList).map String.ofList

end Text

end CodeAtlas
