import CodeAtlas.Extraction.Basic
import CodeAtlas.Proofs.SyntaxTree.Nodes
import Mathlib.Tactic.SplitIfs

/-!
# How much is found in a tree

A node contributes at most one finding of its own, unless it defines several names, and then it has
a declarator for each of them.  These are held in another field than the type, which is all that the
walk enters of such a node, so in a tree there is found no more than it has nodes
(`length_findings_le`).  In the same way no more of its nodes are decision points than there are.

So the number of nodes bounds what is counted during an extraction.
-/

namespace CodeAtlas.SyntaxNode

variable (read : Reading)

/-- A list of trees has at least as many nodes as trees. -/
lemma length_le_length_preorderAll (cs : List SyntaxNode) :
    cs.length ≤ (preorderAll cs).length := by
  induction cs with
  | nil => exact Nat.le_refl 0
  | cons c cs ih =>
    have hc := List.length_pos_of_mem (mem_preorder_self c)
    rw [preorderAll, List.length_append, List.length_cons]
    omega

lemma length_recordFindings_le (n : SyntaxNode) : (recordFindings read n).length ≤ 1 := by
  unfold recordFindings
  split <;> simp

/-- A node contributes at most one finding of its own and one for each of its declarators. -/
lemma length_ownFindings_le (scope : Scope) (n : SyntaxNode) :
    (ownFindings read scope n).length ≤ 1 + (n.allInField "declarator").length := by
  unfold ownFindings
  cases NodeRole.ofKind n.kind <;> dsimp only
  case function =>
    unfold functionFindings
    dsimp only
    split <;> simp
  case record => exact Nat.le_trans (length_recordFindings_le read n) (Nat.le_add_right _ _)
  case enumeration =>
    unfold enumerationFindings
    split <;> simp
  case typeDefinition =>
    unfold typeDefinitionFindings
    dsimp only
    split_ifs
    · split <;> simp
    · exact Nat.le_trans (List.length_filterMap_le _ _) (Nat.le_add_left _ _)
  case define =>
    unfold defineFindings
    split <;> simp
  case include_ =>
    unfold includeFindings
    split
    · dsimp only
      split_ifs <;> simp
    · simp
  case declaration =>
    unfold variableFindings
    dsimp only
    split_ifs
    · split
      · exact Nat.le_trans (List.length_filterMap_le _ _) (Nat.le_add_left _ _)
      · simp
    · simp
  case block => simp
  case transparent => simp

mutual

/-- In a tree there is found no more than it has nodes: a definition of several names has a
declarator for each of them. -/
theorem length_findings_le (scope : Scope) :
    ∀ n : SyntaxNode, (findings read scope n).length ≤ n.preorder.length
  | ⟨kind, named, field, span, row, children⟩ => by
    have hown := length_ownFindings_le read scope ⟨kind, named, field, span, row, children⟩
    have hchildren : (allInField ⟨kind, named, field, span, row, children⟩ "declarator").length ≤
        (preorderAll children).length :=
      Nat.le_trans (List.length_filter_le _ _) (length_le_length_preorderAll children)
    have hfield (scope : Scope) (name : String) (hname : name ≠ "declarator") :
        (allInField ⟨kind, named, field, span, row, children⟩ "declarator").length +
          (findingsInField read scope name children).length ≤ (preorderAll children).length :=
      length_findingsInField_le scope name "declarator" hname children
    rw [findings, preorder, List.length_append, List.length_cons]
    cases hrole : NodeRole.ofKind kind
    case function =>
      have hbody := hfield .nested "body" (by decide)
      dsimp only
      omega
    case record =>
      have hrecord := length_recordFindings_le read ⟨kind, named, field, span, row, children⟩
      have hbelow := length_findingsInAll_le .nested children
      simp only [ownFindings, hrole]
      omega
    case typeDefinition | declaration =>
      have htype := hfield scope "type" (by decide)
      dsimp only
      omega
    case enumeration | define | include_ =>
      rw [List.length_nil]
      omega
    case block =>
      have hbelow := length_findingsInAll_le .nested children
      simp only [ownFindings, hrole, List.length_nil]
      omega
    case transparent =>
      have hbelow := length_findingsInAll_le scope children
      simp only [ownFindings, hrole, List.length_nil]
      omega

theorem length_findingsInAll_le (scope : Scope) :
    ∀ cs : List SyntaxNode, (findingsInAll read scope cs).length ≤ (preorderAll cs).length
  | [] => Nat.le_refl 0
  | c :: cs => by
    have hc := length_findings_le scope c
    have hcs := length_findingsInAll_le scope cs
    rw [findingsInAll, preorderAll, List.length_append, List.length_append]
    omega

/-- What is found in a field leaves room for the nodes that are held in another one. -/
theorem length_findingsInField_le (scope : Scope) (name other : String) (hne : name ≠ other) :
    ∀ cs : List SyntaxNode, (cs.filter fun c => c.field == some other).length +
      (findingsInField read scope name cs).length ≤ (preorderAll cs).length
  | [] => Nat.le_refl 0
  | c :: cs => by
    have hc := length_findings_le scope c
    have hcs := length_findingsInField_le scope name other hne cs
    have hself := List.length_pos_of_mem (mem_preorder_self c)
    have hothers : (cs.filter fun c => c.field == some other).length ≤ (preorderAll cs).length :=
      Nat.le_trans (List.length_filter_le _ _) (length_le_length_preorderAll cs)
    rw [findingsInField, preorderAll, List.length_append, List.filter_cons]
    by_cases hname : c.field = some name
    · have hother : (c.field == some other) = false := by simp [hname, hne]
      rw [hother, if_neg Bool.false_ne_true, if_pos (beq_iff_eq.mpr hname)]
      omega
    · rw [if_neg fun h => hname (beq_iff_eq.mp h)]
      split_ifs
      · rw [List.length_cons]
        omega
      · omega

end

/-- The number of decision points in a tree. -/
def decisionCount (n : SyntaxNode) : Nat := (n.preorder.filter (isDecision read)).length

/-- The number of decision points in a list of trees. -/
def decisionCountAll (cs : List SyntaxNode) : Nat :=
  ((preorderAll cs).filter (isDecision read)).length

lemma decisionCount_eq (n : SyntaxNode) : decisionCount read n =
    (if isDecision read n then 1 else 0) + decisionCountAll read n.children := by
  rw [decisionCount, preorder_eq, List.filter_cons, decisionCountAll]
  split_ifs
  · rw [List.length_cons, Nat.add_comm]
  · rw [Nat.zero_add]

lemma decisionCountAll_cons (c : SyntaxNode) (cs : List SyntaxNode) :
    decisionCountAll read (c :: cs) = decisionCount read c + decisionCountAll read cs := by
  rw [decisionCountAll, preorderAll, List.filter_append, List.length_append]
  rfl

/-- No more nodes are decision points than there are. -/
lemma decisionCount_le (n : SyntaxNode) : decisionCount read n ≤ n.preorder.length :=
  List.length_filter_le _ _

end CodeAtlas.SyntaxNode
