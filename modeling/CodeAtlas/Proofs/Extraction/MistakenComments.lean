import CodeAtlas.Proofs.Extraction.Comparison
import CodeAtlas.Proofs.SyntaxTree.Nodes

/-!
# Comments that are taken for something else

A node takes a comment for something else if the way from the callee of a call ends at it, if it is
a parameter of a definition of the preprocessor, or if it stands where a declarator goes on below
its pointers.  In a tree without such nodes comments do not show at all (`forall₂_leavesFindings`),
wherever they stand.
-/

namespace CodeAtlas.SyntaxNode

/-- Whether a node takes a comment for a callee, a parameter or a declarator. -/
def mistakesComment (n : SyntaxNode) : Bool :=
  (n.kind == "call_expression" &&
      ((n.inField? "function").bind calleeEnd?).any (·.kind == "comment")) ||
    (NodeRole.ofKind n.kind == .define && (parameterNodes n).any (·.kind == "comment")) ||
    (NodeRole.ofKind n.kind == .declaration && (n.allInField "declarator").any fun d =>
      (belowPointers? (declaratorTarget d)).any (·.kind == "comment"))

variable (read : Reading) {n n' c : SyntaxNode}

/-! ### Nodes that make no mistake -/

/-- A node makes no mistake if it takes a comment for none of the three. -/
lemma mistakesComment_eq_false_iff : n.mistakesComment = false ↔
    (n.kind = "call_expression" → ∀ m, (n.inField? "function").bind calleeEnd? = some m →
        m.kind ≠ "comment") ∧
      (NodeRole.ofKind n.kind = .define → ∀ m ∈ parameterNodes n, m.kind ≠ "comment") ∧
      (NodeRole.ofKind n.kind = .declaration → ∀ d ∈ n.allInField "declarator",
        ∀ m, belowPointers? (declaratorTarget d) = some m → m.kind ≠ "comment") := by
  have hfound (x : Option SyntaxNode) :
      x.any (·.kind == "comment") = false ↔ ∀ m, x = some m → m.kind ≠ "comment" := by
    cases x <;> simp
  simp only [mistakesComment, Bool.or_eq_false_iff, Bool.and_eq_false_imp, beq_iff_eq, hfound,
    List.any_eq_false, Bool.not_eq_true, ne_eq, and_assoc]

/-- If no call in a body takes a comment for its callee, the body calls the same names. -/
lemma Uncommented.callees_eq (h : Uncommented n n')
    (hn : ∀ m ∈ n.preorder, m.mistakesComment = false) : callees read n' = callees read n := by
  refine congrArg firstOccurrences (h.preorder.filterMap_eq (fun c hc c' hcc' => ?_)
    fun c hc => hc.calledName?_eq read)
  exact hcc'.calledName?_eq read (mistakesComment_eq_false_iff.mp (hn c hc)).1

/-- If a definition of the preprocessor takes no comment for a parameter, it loses none. -/
lemma Uncommented.parameterNodes_length_eq (h : Uncommented n n')
    (hn : ∀ m ∈ parameterNodes n, m.kind ≠ "comment") :
    (parameterNodes n').length = (parameterNodes n).length := by
  have hlist := h.rel_inField? "parameters"
  unfold parameterNodes at hn ⊢
  revert hlist hn
  generalize n.inField? "parameters" = x, n'.inField? "parameters" = x'
  rintro hn (⟨hlist⟩ | _)
  · refine (hlist.uncommentedAll_namedChildren.forall₂ fun c hc hcomment => ?_).length_eq.symm
    exact hn c hc hcomment.kind_eq
  · rfl

/-- If a declaration takes no comment for a declarator, its prototypes are those that were. -/
lemma Uncommented.forall₂_staysPrototype (h : Uncommented n n')
    (hn : ∀ d ∈ n.allInField "declarator", ∀ m,
      belowPointers? (SyntaxNode.declaratorTarget d) = some m → m.kind ≠ "comment") :
    List.Forall₂ (StaysPrototype read) (n.allInField "declarator")
    (n'.allInField "declarator") := by
  have hlist := (List.forall₂_and_left _ _).mpr ⟨hn, h.forall₂_allInField "declarator"⟩
  exact hlist.imp fun d d' hd _ => hd.2.declaratorTarget.isPrototype_eq hd.1

/-- If nothing below a definition takes a comment for a callee, the function calls the same
names. -/
lemma Uncommented.bodyCallees_eq (h : Uncommented n n')
    (hn : ∀ m ∈ n.preorder, m.mistakesComment = false) :
    bodyCallees read n' = bodyCallees read n := by
  unfold bodyCallees
  have hbody := h.rel_inField? "body"
  have hclean : ∀ body, n.inField? "body" = some body →
      ∀ m ∈ body.preorder, m.mistakesComment = false := fun body hfound m hm =>
    hn m (preorder_subset_of_mem (List.mem_of_find?_eq_some hfound) hm)
  revert hbody hclean
  generalize n.inField? "body" = x, n'.inField? "body" = x'
  rintro (⟨hbody⟩ | _) hclean
  · rw [Option.map_some, Option.map_some, hbody.callees_eq read (hclean _ rfl)]
  · rfl

/-- In a tree in which no node takes a comment for something else, comments show nowhere. -/
theorem forall₂_leavesFindings {tree tree' : SyntaxNode} (h : Uncommented tree tree')
    (htree : ∀ m ∈ tree.preorder, m.mistakesComment = false) :
    List.Forall₂ (LeavesFindings read) (tree.visits .file) (tree'.visits .file) := by
  have hbelow (v : Scope × SyntaxNode) (hv : v ∈ tree.visits .file) :
      ∀ m ∈ v.2.preorder, m.mistakesComment = false :=
    fun m hm => htree m (preorder_subset_of_mem_visits .file tree v hv hm)
  refine ((List.forall₂_and_left _ _).mpr ⟨hbelow, h.forall₂_visits .file⟩).imp ?_
  rintro v v' ⟨hclean, -, hv⟩
  have hself := mistakesComment_eq_false_iff.mp (hclean v.2 (mem_preorder_self v.2))
  exact ⟨fun _ _ => hv.bodyCallees_eq read hclean,
    fun hrole _ => hv.parameterNodes_length_eq (hself.2.1 hrole),
    fun hrole _ _ => hv.forall₂_staysPrototype read (hself.2.2 hrole)⟩

end CodeAtlas.SyntaxNode
