import Std.Data.ExtTreeMap
import CodeAtlas.SyntaxTree.Declarator

/-!
# Cyclomatic scores

A function scores one more than the number of decision points in its body: branches, loops,
conditional expressions, handlers, labels of cases with a value, and the operators that evaluate
their second operand only sometimes.  Nested lambdas and local classes count towards the function
that holds them.

Scores are kept by the name of the function.  Where a file defines one name several times, as under
the branches of a conditional of the preprocessor, the highest score stands for all of them.
-/

namespace CodeAtlas

/-- Scores by function name. -/
abbrev Scores := Std.ExtTreeMap String UInt32

/-- How functions are measured. -/
inductive Measurer where
  | cyclomatic
  /-- Nothing is measured, and every function keeps the score 0. -/
  | unmeasured
  deriving DecidableEq, Repr, Inhabited

namespace SyntaxNode

/-- The kinds of nodes that are a decision point. -/
def isBranch (kind : String) : Bool :=
  kind == "if_statement" || kind == "for_statement" || kind == "for_range_loop" ||
    kind == "while_statement" || kind == "do_statement" || kind == "conditional_expression" ||
    kind == "catch_clause"

/-- Whether a node is a decision point. -/
def isDecision (read : Reading) (n : SyntaxNode) : Bool :=
  if n.kind == "case_statement" then (n.inField? "value").isSome
  else if n.kind == "binary_expression" then
    match n.inField? "operator" with
    | some op => ["&&", "||", "and", "or"].contains (op.text read)
    | none => false
  else isBranch n.kind

/-- The score of a function with a given body. -/
def bodyScore (read : Reading) (body : SyntaxNode) : UInt32 :=
  (1 + (body.preorder.filter (isDecision read)).length).toUInt32

/-- The name and score of a function definition that has a body. -/
def namedScore? (read : Reading) (n : SyntaxNode) : Option (String × UInt32) :=
  if n.kind == "function_definition" then
    match functionName? read n, n.inField? "body" with
    | some name, some body => some (name, bodyScore read body)
    | _, _ => none
  else none

end SyntaxNode

/-- The table with a score put in, unless the name has a higher one. -/
def Scores.raise (scores : Scores) (name : String) (score : UInt32) : Scores :=
  scores.alter name fun
    | some old => some (max old score)
    | none => some score

/-- The scores of the functions of a tree. -/
def Measurer.measure (m : Measurer) (read : Reading) (tree : SyntaxNode) : Scores :=
  match m with
  | .cyclomatic =>
    (tree.preorder.filterMap (SyntaxNode.namedScore? read)).foldl
      (fun scores (name, score) => scores.raise name score) ∅
  | .unmeasured => ∅

end CodeAtlas
