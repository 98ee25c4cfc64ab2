import CodeAtlas.Text.Blank

/-!
# Lines of a text

A line ends with a line feed, and a carriage return right before the line feed belongs to the end.
What follows the last line feed is a line too unless it is empty.
-/

namespace CodeAtlas

/-- A line without the carriage return that may end it. -/
def dropReturn (line : List Char) : List Char :=
  match line.reverse with
  | '\r' :: rest => rest.reverse
  | _ => line

/-- The lines of pieces that stood between line feeds. -/
def linesOfPieces : List (List Char) → List (List Char)
  | [] => []
  | [last] => if last.isEmpty then [] else [last]
  | piece :: pieces => dropReturn piece :: linesOfPieces pieces

/-- The lines of a text. -/
def linesOf (cs : List Char) : List (List Char) := linesOfPieces (splitAtClass (· == '\n') cs)

/-- The lines of a text. -/
def Text.lines (s : String) : List String := (linesOf s.toList).map String.ofList

end CodeAtlas
