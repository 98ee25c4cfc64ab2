import CodeAtlas.Proofs.Extraction.Visits

/-!
# The places of a tree and the way of the walk

A *place* in a tree is a node together with the steps that lead to it from the root, so two copies
of one node in different corners of a tree are different places.  The places of a tree are its nodes
in preorder (`map_node_places`), and the parents of the steps are the nodes above.

Whether the walk comes to a place can be told step by step: it takes a step or it does not,
depending on the role of the parent and, where it enters only a field, on whether the child is the
first that is held there.  The scope in which it arrives is told in the same way.  So the visits of
a tree are the places to which all steps are taken, but for those of blocks and of nodes of no
interest (`visits_eq_places`).  A node is visited at file scope exactly if none of the nodes above
it opens another scope (`Place.scope_eq_file_iff`).
-/

namespace CodeAtlas.SyntaxNode

/-- A step from a node of a tree to one of its children. -/
structure Step where
  parent : SyntaxNode
  /-- The children of the parent that stand before the one to which the step leads. -/
  before : List SyntaxNode
  child : SyntaxNode

/-- A place in a tree: the steps that lead to it from the root, and the node that stands there. -/
structure Place where
  steps : List Step
  node : SyntaxNode

namespace Step

/-- Whether a step leads to the first child that is held in a field. -/
def isInto (name : String) (s : Step) : Bool :=
  s.child.field == some name && !s.before.any fun c => c.field == some name

/-- Whether the walk takes a step. -/
def isTaken (s : Step) : Bool :=
  match NodeRole.ofKind s.parent.kind with
  | .function => s.isInto "body"
  | .typeDefinition | .declaration => s.isInto "type"
  | .enumeration | .define | .include_ => false
  | .record | .block | .transparent => true

/-- The scope after a step. -/
def scope (scope : Scope) (s : Step) : Scope :=
  match NodeRole.ofKind s.parent.kind with
  | .function | .record | .block => .nested
  | .typeDefinition | .declaration | .enumeration | .define | .include_ | .transparent => scope

end Step

namespace Place

/-- A place in a tree, seen from the node from which a step leads to the tree. -/
def below (s : Step) (p : Place) : Place := ⟨s :: p.steps, p.node⟩

/-- The nodes above a place, the root first. -/
def above (p : Place) : List SyntaxNode := p.steps.map (·.parent)

/-- Whether the walk comes to a place. -/
def isReached (p : Place) : Bool := p.steps.all Step.isTaken

/-- The scope in which the walk comes to a place. -/
def scope (scope : Scope) (p : Place) : Scope := p.steps.foldl Step.scope scope

/-- Whether the walk comes to a place and stops there. -/
def isVisited (p : Place) : Bool :=
  p.isReached &&
    match NodeRole.ofKind p.node.kind with
    | .block | .transparent => false
    | .function | .record | .enumeration | .typeDefinition | .define | .include_ | .declaration =>
      true

/-- The visit of a place, in a tree that stands in a scope. -/
def visit (scope : Scope) (p : Place) : Scope × SyntaxNode := (p.scope scope, p.node)

/-- A place is visited if the first step is taken and it is visited from there on. -/
lemma isVisited_below (s : Step) (p : Place) :
    (below s p).isVisited = (s.isTaken && p.isVisited) := by
  simp [below, isVisited, isReached, Bool.and_assoc]

/-- The visited places to which a step leads are none if it is not taken. -/
lemma filter_map_below (s : Step) (ps : List Place) : (ps.map (below s)).filter isVisited =
    if s.isTaken then (ps.filter isVisited).map (below s) else [] := by
  have hvisited : isVisited ∘ below s = fun p => s.isTaken && p.isVisited :=
    funext (isVisited_below s)
  rw [List.filter_map, hvisited]
  cases s.isTaken <;> simp

/-- The scope after the first step is that of the tree to which it leads. -/
lemma visit_below (scope : Scope) (s : Step) (p : Place) :
    (below s p).visit scope = p.visit (s.scope scope) := rfl

/-- Steps lead through file scope exactly if none of the parents opens another scope. -/
lemma scope_eq_file_iff (p : Place) : p.scope .file = .file ↔
    ∀ n ∈ p.above, NodeRole.ofKind n.kind ∉ [NodeRole.function, .record, .block] := by
  -- Once nested, the scope stays nested.
  have hnested : ∀ steps : List Step, steps.foldl Step.scope .nested = .nested := by
    intro steps
    induction steps with
    | nil => rfl
    | cons s steps ih =>
      have hstep : Step.scope .nested s = .nested := by
        unfold Step.scope
        split <;> rfl
      rw [List.foldl_cons, hstep, ih]
  obtain ⟨steps, node⟩ := p
  induction steps with
  | nil => simp [scope, above]
  | cons s steps ih =>
    have hscope : scope .file ⟨s :: steps, node⟩ =
        steps.foldl Step.scope (Step.scope .file s) := rfl
    have habove : above ⟨s :: steps, node⟩ = s.parent :: above ⟨steps, node⟩ := rfl
    have hsteps : steps.foldl Step.scope .file = .file ↔ _ := ih
    rw [hscope, habove, List.forall_mem_cons, ← hsteps]
    cases hrole : NodeRole.ofKind s.parent.kind <;> simp [Step.scope, hrole, hnested]

end Place

mutual

/-- The places of a tree, every place before those below it. -/
def places : SyntaxNode → List Place
  | ⟨kind, named, field, span, row, children⟩ =>
    ⟨[], ⟨kind, named, field, span, row, children⟩⟩ ::
      placesBelow ⟨kind, named, field, span, row, children⟩ [] children

/-- The places in the children of a node, of which some stand before those that are looked at. -/
def placesBelow (parent : SyntaxNode) : List SyntaxNode → List SyntaxNode → List Place
  | _, [] => []
  | before, c :: cs =>
    (places c).map (Place.below ⟨parent, before, c⟩) ++ placesBelow parent (before ++ [c]) cs

end

mutual

/-- The nodes at the places of a tree are all its nodes. -/
theorem map_node_places : ∀ n : SyntaxNode, (places n).map (·.node) = preorder n
  | ⟨kind, named, field, span, row, children⟩ => by
    rw [places, preorder, List.map_cons, map_node_placesBelow]

theorem map_node_placesBelow (parent : SyntaxNode) : ∀ before cs : List SyntaxNode,
    (placesBelow parent before cs).map (·.node) = preorderAll cs
  | _, [] => rfl
  | before, c :: cs => by
    have hnode : (fun p : Place => p.node) ∘ Place.below ⟨parent, before, c⟩ = (·.node) := rfl
    rw [placesBelow, preorderAll, List.map_append, List.map_map, hnode, map_node_places c,
      map_node_placesBelow parent (before ++ [c]) cs]

end

/-! ### Visits as places -/

/-- The visits below a node. -/
def visitsBelow (parent : SyntaxNode) (scope : Scope) (before cs : List SyntaxNode) :
    List (Scope × SyntaxNode) :=
  ((placesBelow parent before cs).filter Place.isVisited).map (Place.visit scope)

/-- The visited places of a tree are its root, if the walk stops there, and those below it. -/
lemma map_visit_places (scope : Scope) (n : SyntaxNode) :
    ((places n).filter Place.isVisited).map (Place.visit scope) =
      (if Place.isVisited ⟨[], n⟩ then [(scope, n)] else []) ++
        visitsBelow n scope [] n.children := by
  obtain ⟨kind, named, field, span, row, children⟩ := n
  rw [places, List.filter_cons]
  split_ifs <;> rfl

variable {parent c : SyntaxNode} {scope inner : Scope} {before : List SyntaxNode}

/-- The visits in the first child are its own if the step to it is taken. -/
lemma visitsBelow_cons (cs : List SyntaxNode)
    (hscope : Step.scope scope ⟨parent, before, c⟩ = inner)
    (hc : visits inner c = ((places c).filter Place.isVisited).map (Place.visit inner)) :
    visitsBelow parent scope before (c :: cs) =
      (if Step.isTaken ⟨parent, before, c⟩ then visits inner c else []) ++
        visitsBelow parent scope (before ++ [c]) cs := by
  rw [visitsBelow, placesBelow, List.filter_append, List.map_append, Place.filter_map_below]
  congr 1
  split_ifs
  · rw [List.map_map, hc, ← hscope]
    exact List.map_congr_left fun p _ => Place.visit_below scope _ p
  · rfl

/-- Below a node that is not entered nothing is visited. -/
lemma visitsBelow_eq_nil (htaken : ∀ before c, Step.isTaken ⟨parent, before, c⟩ = false)
    (scope : Scope) (before cs : List SyntaxNode) : visitsBelow parent scope before cs = [] := by
  induction cs generalizing before with
  | nil => simp [visitsBelow, placesBelow]
  | cons c cs ih =>
    rw [visitsBelow, placesBelow, List.filter_append, List.map_append, Place.filter_map_below,
      htaken, if_neg Bool.false_ne_true]
    exact ih (before ++ [c])

mutual

/-- The visits of a tree are its visited places. -/
theorem visits_eq_places (scope : Scope) : ∀ n : SyntaxNode,
    visits scope n = ((places n).filter Place.isVisited).map (Place.visit scope)
  | ⟨kind, named, field, span, row, children⟩ => by
    rw [map_visit_places, visits, Place.isVisited]
    cases hrole : NodeRole.ofKind kind
    case function =>
      rw [visitsBelow_eq_visitsInField .nested "body" (by simp [Step.isTaken, hrole])
        (by simp [Step.scope, hrole]) [] children]
      simp [Place.isReached]
    case typeDefinition | declaration =>
      rw [visitsBelow_eq_visitsInField scope "type" (by simp [Step.isTaken, hrole])
        (by simp [Step.scope, hrole]) [] children]
      simp [Place.isReached]
    case record | block =>
      rw [visitsBelow_eq_visitsInAll .nested (by simp [Step.isTaken, hrole])
        (by simp [Step.scope, hrole]) [] children]
      simp [Place.isReached]
    case transparent =>
      rw [visitsBelow_eq_visitsInAll scope (by simp [Step.isTaken, hrole])
        (by simp [Step.scope, hrole]) [] children]
      simp [Place.isReached]
    case enumeration | define | include_ =>
      rw [visitsBelow_eq_nil (by simp [Step.isTaken, hrole]) scope [] children]
      simp [Place.isReached]

/-- Below a node of which all children are entered, all of them are visited. -/
theorem visitsBelow_eq_visitsInAll {parent : SyntaxNode} {scope : Scope} (inner : Scope)
    (htaken : ∀ before c, Step.isTaken ⟨parent, before, c⟩ = true)
    (hscope : ∀ before c, Step.scope scope ⟨parent, before, c⟩ = inner) :
    ∀ before cs : List SyntaxNode, visitsBelow parent scope before cs = visitsInAll inner cs
  | _, [] => by simp [visitsBelow, placesBelow, visitsInAll]
  | before, c :: cs => by
    rw [visitsBelow_cons cs (hscope before c) (visits_eq_places inner c), if_pos (htaken before c),
      visitsInAll, visitsBelow_eq_visitsInAll inner htaken hscope (before ++ [c]) cs]

/-- Below a node of which one field is entered, only the first child in it is visited. -/
theorem visitsBelow_eq_visitsInField {parent : SyntaxNode} {scope : Scope} (inner : Scope)
    (name : String)
    (htaken : ∀ before c, Step.isTaken ⟨parent, before, c⟩ = Step.isInto name ⟨parent, before, c⟩)
    (hscope : ∀ before c, Step.scope scope ⟨parent, before, c⟩ = inner) :
    ∀ before cs : List SyntaxNode, visitsBelow parent scope before cs =
      if before.any (fun c => c.field == some name) then [] else visitsInField inner name cs
  | _, [] => by simp [visitsBelow, placesBelow, visitsInField]
  | before, c :: cs => by
    rw [visitsBelow_cons cs (hscope before c) (visits_eq_places inner c), htaken, Step.isInto,
      visitsInField, visitsBelow_eq_visitsInField inner name htaken hscope (before ++ [c]) cs]
    by_cases hbefore : (before.any fun c => c.field == some name) = true
    · simp [hbefore]
    · by_cases hc : (c.field == some name) = true
      · simp [hbefore, hc]
      · simp [hbefore, hc]

end

end CodeAtlas.SyntaxNode
