import CodeAtlas.SyntaxTree.Basic
import Mathlib.Tactic.Lemma

/-!
# The nodes below a node

The nodes of a tree come in preorder, so those below one of its nodes stand next to each other, in
the order of their own tree (`sublist_preorder`).  In particular a node has more nodes below it than
any of its children (`length_preorder_lt`), which bounds what can be counted below a node by the
size of the whole tree.
-/

namespace CodeAtlas.SyntaxNode

variable {n c : SyntaxNode}

lemma mem_preorder_self (n : SyntaxNode) : n ∈ n.preorder := by
  obtain ⟨kind, named, field, span, row, children⟩ := n
  rw [preorder]
  exact List.mem_cons_self

/-- The nodes of a tree are its root and those of its children. -/
lemma preorder_eq (n : SyntaxNode) : n.preorder = n :: preorderAll n.children := by
  obtain ⟨kind, named, field, span, row, children⟩ := n
  rw [preorder]

/-- The nodes below a tree of a list are among those of the list, in the same order. -/
lemma sublist_preorderAll_of_mem {cs : List SyntaxNode} (hc : c ∈ cs) :
    c.preorder.Sublist (preorderAll cs) := by
  induction cs with
  | nil => cases hc
  | cons d ds ih =>
    rw [preorderAll]
    rcases List.mem_cons.mp hc with rfl | hc
    · exact List.sublist_append_left _ _
    · exact (ih hc).trans (List.sublist_append_right _ _)

mutual

/-- The nodes below a node of a tree are nodes of the tree, in the same order. -/
theorem sublist_preorder : ∀ n m : SyntaxNode, m ∈ n.preorder → m.preorder.Sublist n.preorder
  | ⟨kind, named, field, span, row, children⟩ => by
    intro m hm
    rw [preorder] at hm
    rcases List.mem_cons.mp hm with rfl | hm
    · exact List.Sublist.refl _
    · rw [preorder.eq_1 kind]
      exact (sublist_preorderAll children m hm).cons _

theorem sublist_preorderAll : ∀ (cs : List SyntaxNode) (m : SyntaxNode), m ∈ preorderAll cs →
    m.preorder.Sublist (preorderAll cs)
  | [] => fun _ hm => by cases hm
  | c :: cs => by
    intro m hm
    rw [preorderAll, List.mem_append] at hm
    rw [preorderAll]
    rcases hm with hm | hm
    · exact (sublist_preorder c m hm).trans (List.sublist_append_left _ _)
    · exact (sublist_preorderAll cs m hm).trans (List.sublist_append_right _ _)

end

/-- The nodes below a child are below its parent. -/
lemma preorder_subset_of_mem (hc : c ∈ n.children) : c.preorder ⊆ n.preorder := by
  rw [preorder_eq n]
  exact List.Subset.trans (sublist_preorderAll_of_mem hc).subset (List.subset_cons_self _ _)

/-- A child has fewer nodes below it than its parent. -/
lemma length_preorder_lt (hc : c ∈ n.children) : c.preorder.length < n.preorder.length := by
  rw [preorder_eq n, List.length_cons]
  exact Nat.lt_succ_of_le (sublist_preorderAll_of_mem hc).length_le

end CodeAtlas.SyntaxNode
