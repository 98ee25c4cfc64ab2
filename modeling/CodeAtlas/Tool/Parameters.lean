import CodeAtlas.Text.Blank

/-!
# Parameter lists

Several tools report the parameters of a function as one text in parentheses.  It is cut at the
commas that stand outside all inner brackets.  An empty list and a lone `void` have no parameters.
-/

namespace CodeAtlas

/-- Cuts a text at the commas outside brackets.  The depth counts the brackets that are open, and a
closing bracket without its opening one is passed over. -/
def splitAtTopCommas (depth : Nat) (current : List Char) : List Char → List (List Char)
  | [] => [current.reverse]
  | c :: cs =>
    if c = '(' ∨ c = '<' ∨ c = '[' then splitAtTopCommas (depth + 1) (c :: current) cs
    else if c = ')' ∨ c = '>' ∨ c = ']' then splitAtTopCommas (depth - 1) (c :: current) cs
    else if c = ',' ∧ depth = 0 then current.reverse :: splitAtTopCommas 0 [] cs
    else splitAtTopCommas depth (c :: current) cs

/-- Drops the last of some texts if it is empty. -/
def dropEmptyLast (texts : List (List Char)) : List (List Char) :=
  match texts.getLast? with
  | some [] => texts.dropLast
  | _ => texts

/-- The parameters of a list in parentheses. -/
def parametersOf (signature : List Char) : List (List Char) :=
  let inner := trimBy isBlank (trimRightBy (· == ')') (trimLeftBy (· == '(')
    (trimBy isBlank signature)))
  if inner = [] ∨ inner = ['v', 'o', 'i', 'd'] then []
  else dropEmptyLast ((splitAtTopCommas 0 [] inner).map (trimBy isBlank))

/-- The parameters of a list in parentheses. -/
def splitParameters (signature : String) : List String :=
  (parametersOf signature.toList).map String.ofList

end CodeAtlas
