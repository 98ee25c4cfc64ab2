import CodeAtlas.Extraction.Finding
import CodeAtlas.Proofs.SyntaxTree.Nodes
import Mathlib.Tactic.SplitIfs

/-!
# Where the walk stops

The walk over a syntax tree goes through blocks and through nodes of no interest, and it stops at
the others: at definitions of functions, records and enumerations, at type definitions, at
directives and at declarations.  The *visits* of a tree are the nodes at which it stops, each with
the scope in which it stands, in the order of the walk.

All that is found in a tree is what the visited nodes contribute by themselves, one after the other
(`findings_eq_flatMap_visits`).  So what holds of every node's own contribution holds of everything
that is found, and two trees are compared visit by visit.
-/

namespace CodeAtlas.SyntaxNode

mutual

/-- The nodes of a tree at which the walk stops, with their scopes. -/
def visits (scope : Scope) : SyntaxNode → List (Scope × SyntaxNode)
  | ⟨kind, named, field, span, row, children⟩ =>
    match NodeRole.ofKind kind with
    | .function =>
      (scope, ⟨kind, named, field, span, row, children⟩) :: visitsInField .nested "body" children
    | .record =>
      (scope, ⟨kind, named, field, span, row, children⟩) :: visitsInAll .nested children
    | .typeDefinition =>
      (scope, ⟨kind, named, field, span, row, children⟩) :: visitsInField scope "type" children
    | .declaration =>
      (scope, ⟨kind, named, field, span, row, children⟩) :: visitsInField scope "type" children
    | .enumeration => [(scope, ⟨kind, named, field, span, row, children⟩)]
    | .define => [(scope, ⟨kind, named, field, span, row, children⟩)]
    | .include_ => [(scope, ⟨kind, named, field, span, row, children⟩)]
    | .block => visitsInAll .nested children
    | .transparent => visitsInAll scope children

/-- The nodes of a list of trees at which the walk stops. -/
def visitsInAll (scope : Scope) : List SyntaxNode → List (Scope × SyntaxNode)
  | [] => []
  | c :: cs => visits scope c ++ visitsInAll scope cs

/-- The nodes at which the walk stops in the first tree of a list that is held in a field. -/
def visitsInField (scope : Scope) (name : String) : List SyntaxNode → List (Scope × SyntaxNode)
  | [] => []
  | c :: cs => if c.field == some name then visits scope c else visitsInField scope name cs

end

mutual

/-- The visited nodes of a tree are nodes of the tree, with all that is below them. -/
theorem preorder_subset_of_mem_visits (scope : Scope) : ∀ (n : SyntaxNode) (v : Scope × SyntaxNode),
    v ∈ visits scope n → v.2.preorder ⊆ n.preorder
  | ⟨kind, named, field, span, row, children⟩ => by
    intro v hv
    have hbelow : preorderAll children ⊆ preorder ⟨kind, named, field, span, row, children⟩ := by
      rw [preorder]
      exact List.subset_cons_self _ _
    have hself {visited : List (Scope × SyntaxNode)}
        (hrest : v ∈ visited → v.2.preorder ⊆ preorderAll children)
        (hv : v ∈ (scope, ⟨kind, named, field, span, row, children⟩) :: visited) :
        v.2.preorder ⊆ preorder ⟨kind, named, field, span, row, children⟩ := by
      rcases List.mem_cons.mp hv with rfl | hv
      · exact List.Subset.refl _
      · exact List.Subset.trans (hrest hv) hbelow
    rw [visits] at hv
    cases hrole : NodeRole.ofKind kind <;> simp only [hrole] at hv
    case function =>
      exact hself (preorder_subset_of_mem_visitsInField .nested "body" children v) hv
    case record => exact hself (preorder_subset_of_mem_visitsInAll .nested children v) hv
    case typeDefinition =>
      exact hself (preorder_subset_of_mem_visitsInField scope "type" children v) hv
    case declaration =>
      exact hself (preorder_subset_of_mem_visitsInField scope "type" children v) hv
    case enumeration => exact hself (fun hv => absurd hv List.not_mem_nil) hv
    case define => exact hself (fun hv => absurd hv List.not_mem_nil) hv
    case include_ => exact hself (fun hv => absurd hv List.not_mem_nil) hv
    case block =>
      exact List.Subset.trans (preorder_subset_of_mem_visitsInAll .nested children v hv) hbelow
    case transparent =>
      exact List.Subset.trans (preorder_subset_of_mem_visitsInAll scope children v hv) hbelow

theorem preorder_subset_of_mem_visitsInAll (scope : Scope) :
    ∀ (cs : List SyntaxNode) (v : Scope × SyntaxNode),
      v ∈ visitsInAll scope cs → v.2.preorder ⊆ preorderAll cs
  | [] => fun _ hv => by cases hv
  | c :: cs => by
    intro v hv
    rw [visitsInAll, List.mem_append] at hv
    rw [preorderAll]
    rcases hv with hv | hv
    · exact List.Subset.trans (preorder_subset_of_mem_visits scope c v hv)
        (List.subset_append_left _ _)
    · exact List.Subset.trans (preorder_subset_of_mem_visitsInAll scope cs v hv)
        (List.subset_append_right _ _)

theorem preorder_subset_of_mem_visitsInField (scope : Scope) (name : String) :
    ∀ (cs : List SyntaxNode) (v : Scope × SyntaxNode),
      v ∈ visitsInField scope name cs → v.2.preorder ⊆ preorderAll cs
  | [] => fun _ hv => by cases hv
  | c :: cs => by
    intro v hv
    rw [visitsInField] at hv
    rw [preorderAll]
    split_ifs at hv
    · exact List.Subset.trans (preorder_subset_of_mem_visits scope c v hv)
        (List.subset_append_left _ _)
    · exact List.Subset.trans (preorder_subset_of_mem_visitsInField scope name cs v hv)
        (List.subset_append_right _ _)

end

variable (read : Reading)

/-- What the node of a visit contributes. -/
def visitFindings (visit : Scope × SyntaxNode) : List Finding :=
  ownFindings read visit.1 visit.2

mutual

/-- What is found in a tree is what the visited nodes contribute. -/
theorem findings_eq_flatMap_visits (scope : Scope) :
    ∀ n : SyntaxNode, findings read scope n = (visits scope n).flatMap (visitFindings read)
  | ⟨kind, named, field, span, row, children⟩ => by
    rw [findings, visits]
    cases hrole : NodeRole.ofKind kind
    case function =>
      simp only [findingsInField_eq_flatMap_visits .nested "body" children, List.flatMap_cons]
      rfl
    case record =>
      simp only [findingsInAll_eq_flatMap_visits .nested children, List.flatMap_cons]
      rfl
    case typeDefinition =>
      simp only [findingsInField_eq_flatMap_visits scope "type" children, List.flatMap_cons]
      rfl
    case declaration =>
      simp only [findingsInField_eq_flatMap_visits scope "type" children, List.flatMap_cons]
      rfl
    case enumeration => rfl
    case define => rfl
    case include_ => rfl
    case block =>
      simp only [findingsInAll_eq_flatMap_visits .nested children, ownFindings, hrole,
        List.nil_append]
    case transparent =>
      simp only [findingsInAll_eq_flatMap_visits scope children, ownFindings, hrole,
        List.nil_append]

/-- What is found in a list of trees is what the visited nodes contribute. -/
theorem findingsInAll_eq_flatMap_visits (scope : Scope) :
    ∀ ns : List SyntaxNode,
      findingsInAll read scope ns = (visitsInAll scope ns).flatMap (visitFindings read)
  | [] => rfl
  | n :: ns => by
    rw [findingsInAll, visitsInAll, findings_eq_flatMap_visits scope n,
      findingsInAll_eq_flatMap_visits scope ns, List.flatMap_append]

/-- What is found in a field is what the nodes visited there contribute. -/
theorem findingsInField_eq_flatMap_visits (scope : Scope) (name : String) :
    ∀ ns : List SyntaxNode,
      findingsInField read scope name ns =
        (visitsInField scope name ns).flatMap (visitFindings read)
  | [] => rfl
  | n :: ns => by
    rw [findingsInField, visitsInField]
    split_ifs
    · exact findings_eq_flatMap_visits scope n
    · exact findingsInField_eq_flatMap_visits scope name ns

end

/-- What holds of every node's own contribution holds of everything that is found. -/
lemma forall_mem_findings {P : Finding → Prop}
    (hown : ∀ scope n, ∀ f ∈ ownFindings read scope n, P f) (scope : Scope) (n : SyntaxNode) :
    ∀ f ∈ findings read scope n, P f := by
  intro f hf
  rw [findings_eq_flatMap_visits] at hf
  obtain ⟨visit, -, hf⟩ := List.mem_flatMap.mp hf
  exact hown visit.1 visit.2 f hf

/-! ### The contribution of a function definition -/

/-- The symbol of a function definition. -/
def functionDraft (n declarator : SyntaxNode) (name : String) : SymbolDraft where
  name := name
  line := n.line
  declaration := signature read n
  detail := .unmeasured (returnType read n declarator)
    ((((functionDeclarator? declarator).bind (·.inField? "parameters")).map
      (parameters read)).getD [])

/-- A function definition has a declarator if it has a name. -/
lemma exists_declarator_of_functionName? {n : SyntaxNode} {name : String}
    (h : functionName? read n = some name) :
    ∃ declarator, n.inField? "declarator" = some declarator := by
  obtain ⟨node, hnode, -⟩ := Option.map_eq_some_iff.mp h
  obtain ⟨declarator, hdeclarator, -⟩ := Option.bind_eq_some_iff.mp hnode
  exact ⟨declarator, hdeclarator⟩

/-- A function definition that has a name gives its symbol, with the names that its body calls. -/
lemma functionFindings_eq {n declarator : SyntaxNode} {name : String}
    (hname : functionName? read n = some name)
    (hdeclarator : n.inField? "declarator" = some declarator) :
    functionFindings read n = [.symbol (functionDraft read n declarator name)
      (((n.inField? "body").map (callees read)).getD [])] := by
  simp only [functionFindings, hname, hdeclarator]
  rfl

end CodeAtlas.SyntaxNode
