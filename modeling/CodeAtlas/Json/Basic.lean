import CodeAtlas.Word

/-!
# JSON values

A JSON value as it stands in a document.  An object keeps its members in document order and keeps
repeated names, because some records refuse a name that is given twice while others ignore it; the
choice is made where a record is read, not here.

A number is an integer when it is written as one and fits into 64 bits.  Any other number keeps the
text it was written with: nothing here computes with it.
-/

namespace CodeAtlas

/-- A JSON value. -/
inductive Json where
  | null
  | bool (value : Bool)
  | int (value : Int)
  | decimal (literal : String)
  | str (text : String)
  | arr (items : List Json)
  | obj (members : List (String × Json))
  deriving Inhabited

namespace Json

/-- A natural number as a JSON value. -/
def nat (n : Nat) : Json := .int n

/-- A list of texts as a JSON array. -/
def strings (texts : List String) : Json := .arr (texts.map .str)

/-- The value of an optional text; nothing is `null`. -/
def optionalText : Option String → Json
  | none => .null
  | some s => .str s

/-- The members of an object. -/
def members? : Json → Option (List (String × Json))
  | .obj ms => some ms
  | _ => none

/-- The last member of a name in an object: where members are looked up by name, a later member
replaces an earlier one. -/
def get? (j : Json) (name : String) : Option Json :=
  match j with
  | .obj ms => (ms.reverse.find? (fun m => m.1 == name)).map (·.2)
  | _ => none

/-- The text of a string value. -/
def text? : Json → Option String
  | .str s => some s
  | _ => none

/-- The value of a Boolean. -/
def bool? : Json → Option Bool
  | .bool b => some b
  | _ => none

/-- The items of an array. -/
def items? : Json → Option (List Json)
  | .arr xs => some xs
  | _ => none

/-- A natural number below a bound. -/
def natBelow? (bound : Nat) : Json → Option Nat
  | .int n => if 0 ≤ n ∧ n < bound then some n.toNat else none
  | _ => none

/-- A number that fits into 32 bits without a sign. -/
def word32? (j : Json) : Option UInt32 := (natBelow? (wordValues 32) j).map (·.toUInt32)

/-- A number that fits into 64 bits without a sign. -/
def count? : Json → Option Nat := natBelow? (wordValues 64)

/-- An array whose items are all texts. -/
def strings? : Json → Option (List String)
  | .arr xs => xs.mapM text?
  | _ => none

/-- Members with the later of two of one name only. -/
def lastOfEach : List (String × Json) → List (String × Json)
  | [] => []
  | m :: ms => if ms.any (fun n => n.1 == m.1) then lastOfEach ms else m :: lastOfEach ms

mutual

/-- A value whose objects have their members in the order of the names, each name once. -/
def canonical : Json → Json
  | .arr items => .arr (canonicalItems items)
  | .obj members =>
    .obj ((lastOfEach (canonicalMembers members)).mergeSort (fun a b => decide (a.1 ≤ b.1)))
  | j => j

/-- The items of an array, each in its canonical form. -/
def canonicalItems : List Json → List Json
  | [] => []
  | item :: items => canonical item :: canonicalItems items

/-- The members of an object, each value in its canonical form. -/
def canonicalMembers : List (String × Json) → List (String × Json)
  | [] => []
  | (name, value) :: members => (name, canonical value) :: canonicalMembers members

end

end Json

end CodeAtlas
