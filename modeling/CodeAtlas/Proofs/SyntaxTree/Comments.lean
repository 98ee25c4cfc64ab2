import CodeAtlas.SyntaxTree.Declarator
import Mathlib.Data.List.Forall2
import Mathlib.Tactic.Lemma
import Mathlib.Tactic.SplitIfs

/-!
# Trees without some of their comments

A comment may stand between any two tokens, so it may be a child of almost any node.  It is a single
token itself and holds nothing.  One tree is *uncommented* against another if it is what is left of
it when some comments are taken out that are held under no field; everything else, with the ranges
that it covers, stays.

Looking up a field, following a declarator to its name or to its function declarator, and counting
pointers do not see the difference.  Looking below pointers does (`StillFinds`): where these hold
their declarator in no field, the first named child is taken, which may be a comment.
-/

namespace CodeAtlas.SyntaxNode

/-- A comment that is held under no field. -/
structure IsLooseComment (c : SyntaxNode) : Prop where
  kind_eq : c.kind = "comment"
  field_eq : c.field = none
  children_eq : c.children = []

mutual

/-- A tree without some of its comments. -/
inductive Uncommented : SyntaxNode → SyntaxNode → Prop
  | node {kind : String} {named : Bool} {field : Option String} {span : Span} {row : Nat}
      {children children' : List SyntaxNode} (below : UncommentedAll children children') :
      Uncommented ⟨kind, named, field, span, row, children⟩
        ⟨kind, named, field, span, row, children'⟩

/-- A list of trees without some of their comments, of which some stand in the list itself. -/
inductive UncommentedAll : List SyntaxNode → List SyntaxNode → Prop
  | nil : UncommentedAll [] []
  | keep {c c' : SyntaxNode} {cs cs' : List SyntaxNode} (first : Uncommented c c')
      (rest : UncommentedAll cs cs') : UncommentedAll (c :: cs) (c' :: cs')
  | drop {c : SyntaxNode} {cs cs' : List SyntaxNode} (comment : c.IsLooseComment)
      (rest : UncommentedAll cs cs') : UncommentedAll (c :: cs) cs'

end

variable {n n' c c' : SyntaxNode} {cs cs' ds ds' : List SyntaxNode}

mutual

/-- A tree may lose no comment at all. -/
theorem Uncommented.refl : ∀ n : SyntaxNode, Uncommented n n
  | ⟨_, _, _, _, _, children⟩ => .node (.refl children)

theorem UncommentedAll.refl : ∀ cs : List SyntaxNode, UncommentedAll cs cs
  | [] => .nil
  | c :: cs => .keep (.refl c) (.refl cs)

end

namespace Uncommented

lemma kind_eq (h : Uncommented n n') : n'.kind = n.kind := by cases h; rfl

lemma named_eq (h : Uncommented n n') : n'.named = n.named := by cases h; rfl

lemma field_eq (h : Uncommented n n') : n'.field = n.field := by cases h; rfl

lemma span_eq (h : Uncommented n n') : n'.span = n.span := by cases h; rfl

lemma line_eq (h : Uncommented n n') : n'.line = n.line := by cases h; rfl

lemma text_eq (h : Uncommented n n') (read : Reading) : n'.text read = n.text read := by
  rw [text, text, h.span_eq]

lemma children (h : Uncommented n n') : UncommentedAll n.children n'.children := by
  cases h with
  | node below => exact below

end Uncommented

/-! ### Lists of children -/

namespace UncommentedAll

lemma append (h : UncommentedAll cs cs') (h' : UncommentedAll ds ds') :
    UncommentedAll (cs ++ ds) (cs' ++ ds') := by
  induction cs generalizing cs' with
  | nil =>
    cases h
    exact h'
  | cons c cs ih =>
    cases h with
    | keep first rest => exact .keep first (ih rest)
    | drop comment rest => exact .drop comment (ih rest)

/-- A test that fails for comments and does not see what is below a node has the same outcome. -/
lemma any_eq {p : SyntaxNode → Bool} (hkeep : ∀ c c', Uncommented c c' → p c' = p c)
    (hdrop : ∀ c, c.IsLooseComment → p c = false) (h : UncommentedAll cs cs') :
    cs'.any p = cs.any p := by
  induction cs generalizing cs' with
  | nil =>
    cases h
    rfl
  | cons c cs ih =>
    cases h with
    | keep first rest => rw [List.any_cons, List.any_cons, hkeep _ _ first, ih rest]
    | drop comment rest => rw [List.any_cons, hdrop _ comment, Bool.false_or, ih rest]

/-- The first tree that passes such a test is the same but for its comments. -/
lemma rel_find? {p : SyntaxNode → Bool} (hkeep : ∀ c c', Uncommented c c' → p c' = p c)
    (hdrop : ∀ c, c.IsLooseComment → p c = false) (h : UncommentedAll cs cs') :
    Option.Rel Uncommented (cs.find? p) (cs'.find? p) := by
  induction cs generalizing cs' with
  | nil =>
    cases h
    exact .none
  | cons c cs ih =>
    cases h with
    | keep first rest =>
      rw [List.find?_cons, List.find?_cons, hkeep _ _ first]
      cases p c with
      | true => exact .some first
      | false => exact ih rest
    | drop comment rest =>
      rw [List.find?_cons, hdrop _ comment]
      exact ih rest

/-- Filtering keeps the relation if the test does not see what is below a node. -/
lemma filter {p : SyntaxNode → Bool} (hkeep : ∀ c c', Uncommented c c' → p c' = p c)
    (h : UncommentedAll cs cs') : UncommentedAll (cs.filter p) (cs'.filter p) := by
  induction cs generalizing cs' with
  | nil =>
    cases h
    exact .nil
  | cons c cs ih =>
    cases h with
    | @keep _ c' _ cs' first rest =>
      rw [List.filter_cons, List.filter_cons, hkeep _ _ first]
      split_ifs
      · exact .keep first (ih rest)
      · exact ih rest
    | drop comment rest =>
      rw [List.filter_cons]
      split_ifs
      · exact .drop comment (ih rest)
      · exact ih rest

/-- A list in which no comment stands loses nothing. -/
lemma forall₂ (h : UncommentedAll cs cs') (hdrop : ∀ c ∈ cs, ¬c.IsLooseComment) :
    List.Forall₂ Uncommented cs cs' := by
  induction cs generalizing cs' with
  | nil =>
    cases h
    exact .nil
  | cons c cs ih =>
    rw [List.forall_mem_cons] at hdrop
    cases h with
    | keep first rest => exact .cons first (ih rest hdrop.2)
    | drop comment rest => exact absurd comment hdrop.1

/-- Without comments a list is no longer than it was. -/
lemma length_le (h : UncommentedAll cs cs') : cs'.length ≤ cs.length := by
  induction cs generalizing cs' with
  | nil =>
    cases h
    exact Nat.le_refl 0
  | cons c cs ih =>
    cases h with
    | keep first rest => exact Nat.succ_le_succ (ih rest)
    | drop comment rest => exact Nat.le_succ_of_le (ih rest)

/-- A list that is as long as before has lost nothing. -/
lemma forall₂_of_length_eq (h : UncommentedAll cs cs') (hlength : cs'.length = cs.length) :
    List.Forall₂ Uncommented cs cs' := by
  induction cs generalizing cs' with
  | nil =>
    cases h
    exact .nil
  | cons c cs ih =>
    cases h with
    | keep first rest => exact .cons first (ih rest (Nat.succ_inj.mp hlength))
    | drop comment rest =>
      have := rest.length_le
      rw [hlength, List.length_cons] at this
      omega

/-- What is read off the nodes of a list one by one, and nothing of comments, is the same. -/
lemma filterMap_eq {α : Type} {f : SyntaxNode → Option α}
    (hkeep : ∀ c ∈ cs, ∀ c', Uncommented c c' → f c' = f c)
    (hdrop : ∀ c, c.IsLooseComment → f c = none) (h : UncommentedAll cs cs') :
    cs'.filterMap f = cs.filterMap f := by
  induction cs generalizing cs' with
  | nil =>
    cases h
    rfl
  | cons c cs ih =>
    rw [List.forall_mem_cons] at hkeep
    cases h with
    | keep first rest =>
      rw [List.filterMap_cons, List.filterMap_cons, hkeep.1 _ first, ih hkeep.2 rest]
    | drop comment rest => rw [List.filterMap_cons_none (hdrop _ comment), ih hkeep.2 rest]

/-- What is read off the nodes of a list one by one, and nothing of comments, is still there if each
node still gives what it gave. -/
lemma filterMap_subset {α : Type} {f : SyntaxNode → Option α}
    (hkeep : ∀ c c', Uncommented c c' → ∀ x, f c = some x → f c' = some x)
    (hdrop : ∀ c, c.IsLooseComment → f c = none) (h : UncommentedAll cs cs') :
    cs.filterMap f ⊆ cs'.filterMap f := by
  induction cs generalizing cs' with
  | nil => exact List.nil_subset _
  | cons c cs ih =>
    cases h with
    | keep first rest =>
      intro x hx
      rw [List.mem_filterMap] at hx ⊢
      obtain ⟨d, hd, hfd⟩ := hx
      rcases List.mem_cons.mp hd with rfl | hd
      · exact ⟨_, List.mem_cons_self, hkeep _ _ first x hfd⟩
      · obtain ⟨d', hd', hfd'⟩ :=
          List.mem_filterMap.mp (ih rest (List.mem_filterMap.mpr ⟨d, hd, hfd⟩))
        exact ⟨d', List.mem_cons_of_mem _ hd', hfd'⟩
    | drop comment rest =>
      rw [List.filterMap_cons_none (hdrop _ comment)]
      exact ih rest

end UncommentedAll

/-! ### Looking at a node -/

namespace IsLooseComment

/-- A loose comment is in no field. -/
lemma field_beq (h : c.IsLooseComment) (name : String) : (c.field == some name) = false := by
  rw [h.field_eq]
  rfl

/-- All that is known of a loose comment. -/
lemma eq_mk (h : c.IsLooseComment) : c = ⟨"comment", c.named, none, c.span, c.row, []⟩ := by
  obtain ⟨kind, named, field, span, row, children⟩ := c
  obtain ⟨rfl, rfl, rfl⟩ := h
  rfl

lemma declaredName?_eq (h : c.IsLooseComment) : declaredName? c = none := by
  rw [h.eq_mk]
  rfl

lemma functionDeclarator?_eq (h : c.IsLooseComment) : functionDeclarator? c = none := by
  rw [h.eq_mk]
  rfl

lemma belowPointers?_eq (h : c.IsLooseComment) : belowPointers? c = some c := by
  rw [h.eq_mk]
  rfl

end IsLooseComment

/-- Whether a field is there does not depend on comments. -/
lemma UncommentedAll.any_field_eq (h : UncommentedAll cs cs') (name : String) :
    cs'.any (fun c => c.field == some name) = cs.any (fun c => c.field == some name) :=
  h.any_eq (fun c c' hc => by rw [hc.field_eq]) fun c hc => hc.field_beq name

namespace Uncommented

/-- What a field holds is the same but for its comments. -/
lemma rel_inField? (h : Uncommented n n') (name : String) :
    Option.Rel Uncommented (n.inField? name) (n'.inField? name) :=
  h.children.rel_find? (fun c c' hc => by rw [hc.field_eq]) fun c hc => hc.field_beq name

/-- All that a field holds is the same but for its comments. -/
lemma forall₂_allInField (h : Uncommented n n') (name : String) :
    List.Forall₂ Uncommented (n.allInField name) (n'.allInField name) := by
  refine (h.children.filter fun c c' hc => by rw [hc.field_eq]).forall₂ fun c hc hcomment => ?_
  have hfield := (List.mem_filter.mp hc).2
  rw [hcomment.field_beq] at hfield
  exact absurd hfield (by decide)

/-- The named children are the same but for comments. -/
lemma uncommentedAll_namedChildren (h : Uncommented n n') :
    UncommentedAll n.namedChildren n'.namedChildren :=
  h.children.filter fun _ _ hc => hc.named_eq

/-- The named children of kinds other than that of a comment are the same but for their comments. -/
lemma forall₂_namedChildren (h : Uncommented n n') {p : String → Bool} (hp : p "comment" = false) :
    List.Forall₂ Uncommented (n.namedChildren.filter fun c => p c.kind)
      (n'.namedChildren.filter fun c => p c.kind) := by
  refine (h.uncommentedAll_namedChildren.filter fun c c' hc => by rw [hc.kind_eq]).forall₂
    fun c hc hcomment => ?_
  have hkind := (List.mem_filter.mp hc).2
  rw [hcomment.kind_eq, hp] at hkind
  exact absurd hkind (by decide)

end Uncommented

/-! ### Following a declarator -/

mutual

/-- The node of the declared name is the same but for its comments. -/
theorem Uncommented.rel_declaredName? : ∀ {n n' : SyntaxNode}, Uncommented n n' →
    Option.Rel Uncommented (declaredName? n) (declaredName? n')
  | _, _, .node below => by
    rw [declaredName?, declaredName?, below.any_field_eq]
    split_ifs
    · exact .some (.node below)
    · exact below.rel_declaredNameInField?
    · exact below.rel_declaredNameInNamed?

theorem UncommentedAll.rel_declaredNameInField? : ∀ {cs cs' : List SyntaxNode},
    UncommentedAll cs cs' → Option.Rel Uncommented (declaredNameInField? cs)
      (declaredNameInField? cs')
  | _, _, .nil => .none
  | _, _, .keep first rest => by
    rw [declaredNameInField?, declaredNameInField?, first.field_eq]
    split_ifs
    · exact first.rel_declaredName?
    · exact rest.rel_declaredNameInField?
  | _, _, .drop comment rest => by
    rw [declaredNameInField?, comment.field_beq, if_neg Bool.false_ne_true]
    exact rest.rel_declaredNameInField?

theorem UncommentedAll.rel_declaredNameInNamed? : ∀ {cs cs' : List SyntaxNode},
    UncommentedAll cs cs' → Option.Rel Uncommented (declaredNameInNamed? cs)
      (declaredNameInNamed? cs')
  | _, _, .nil => .none
  | _, _, .keep first rest => by
    rw [declaredNameInNamed?, declaredNameInNamed?, first.named_eq]
    split_ifs
    · have hfirst := first.rel_declaredName?
      revert hfirst
      generalize declaredName? _ = x, declaredName? _ = y
      rintro (⟨hxy⟩ | _)
      · exact .some hxy
      · exact rest.rel_declaredNameInNamed?
    · exact rest.rel_declaredNameInNamed?
  | _, _, .drop comment rest => by
    rw [declaredNameInNamed?, comment.declaredName?_eq, ite_self]
    exact rest.rel_declaredNameInNamed?

end

mutual

/-- The function declarator is the same but for its comments. -/
theorem Uncommented.rel_functionDeclarator? : ∀ {n n' : SyntaxNode}, Uncommented n n' →
    Option.Rel Uncommented (functionDeclarator? n) (functionDeclarator? n')
  | _, _, .node below => by
    rw [functionDeclarator?, functionDeclarator?, below.any_field_eq]
    split_ifs
    · exact .some (.node below)
    · exact below.rel_functionDeclaratorInField?
    · exact below.rel_functionDeclaratorInNamed?

theorem UncommentedAll.rel_functionDeclaratorInField? : ∀ {cs cs' : List SyntaxNode},
    UncommentedAll cs cs' → Option.Rel Uncommented (functionDeclaratorInField? cs)
      (functionDeclaratorInField? cs')
  | _, _, .nil => .none
  | _, _, .keep first rest => by
    rw [functionDeclaratorInField?, functionDeclaratorInField?, first.field_eq]
    split_ifs
    · exact first.rel_functionDeclarator?
    · exact rest.rel_functionDeclaratorInField?
  | _, _, .drop comment rest => by
    rw [functionDeclaratorInField?, comment.field_beq, if_neg Bool.false_ne_true]
    exact rest.rel_functionDeclaratorInField?

theorem UncommentedAll.rel_functionDeclaratorInNamed? : ∀ {cs cs' : List SyntaxNode},
    UncommentedAll cs cs' → Option.Rel Uncommented (functionDeclaratorInNamed? cs)
      (functionDeclaratorInNamed? cs')
  | _, _, .nil => .none
  | _, _, .keep first rest => by
    rw [functionDeclaratorInNamed?, functionDeclaratorInNamed?, first.named_eq]
    split_ifs
    · have hfirst := first.rel_functionDeclarator?
      revert hfirst
      generalize functionDeclarator? _ = x, functionDeclarator? _ = y
      rintro (⟨hxy⟩ | _)
      · exact .some hxy
      · exact rest.rel_functionDeclaratorInNamed?
    · exact rest.rel_functionDeclaratorInNamed?
  | _, _, .drop comment rest => by
    rw [functionDeclaratorInNamed?, comment.functionDeclarator?_eq, ite_self]
    exact rest.rel_functionDeclaratorInNamed?

end

/-- A search that may come upon a comment: without comments it finds the same node but for comments,
or nothing as before, unless it was a comment that it found. -/
inductive StillFinds : Option SyntaxNode → Option SyntaxNode → Prop
  | nothing : StillFinds none none
  | found {m m' : SyntaxNode} (h : Uncommented m m') : StillFinds (some m) (some m')
  | comment {m : SyntaxNode} {x' : Option SyntaxNode} (h : m.kind = "comment") :
      StillFinds (some m) x'

mutual

/-- What stands below pointers is still found. -/
theorem Uncommented.stillFinds_belowPointers? : ∀ {n n' : SyntaxNode}, Uncommented n n' →
    StillFinds (belowPointers? n) (belowPointers? n')
  | _, _, .node below => by
    rw [belowPointers?, belowPointers?, below.any_field_eq]
    split_ifs
    · exact below.stillFinds_belowPointersInField?
    · exact below.stillFinds_belowPointersInNamed?
    · exact .found (.node below)

theorem UncommentedAll.stillFinds_belowPointersInField? : ∀ {cs cs' : List SyntaxNode},
    UncommentedAll cs cs' → StillFinds (belowPointersInField? cs) (belowPointersInField? cs')
  | _, _, .nil => .nothing
  | _, _, .keep first rest => by
    rw [belowPointersInField?, belowPointersInField?, first.field_eq]
    split_ifs
    · exact first.stillFinds_belowPointers?
    · exact rest.stillFinds_belowPointersInField?
  | _, _, .drop comment rest => by
    rw [belowPointersInField?, comment.field_beq, if_neg Bool.false_ne_true]
    exact rest.stillFinds_belowPointersInField?

theorem UncommentedAll.stillFinds_belowPointersInNamed? : ∀ {cs cs' : List SyntaxNode},
    UncommentedAll cs cs' → StillFinds (belowPointersInNamed? cs) (belowPointersInNamed? cs')
  | _, _, .nil => .nothing
  | _, _, .keep first rest => by
    rw [belowPointersInNamed?, belowPointersInNamed?, first.named_eq]
    split_ifs
    · exact first.stillFinds_belowPointers?
    · exact rest.stillFinds_belowPointersInNamed?
  | _, _, .drop comment rest => by
    rw [belowPointersInNamed?, comment.belowPointers?_eq]
    split_ifs
    · exact .comment comment.kind_eq
    · exact rest.stillFinds_belowPointersInNamed?

end

mutual

/-- The number of pointers is the same. -/
theorem Uncommented.pointerDepth_eq : ∀ {n n' : SyntaxNode}, Uncommented n n' →
    pointerDepth n' = pointerDepth n
  | _, _, .node below => by
    rw [pointerDepth, pointerDepth, below.pointerDepthInField_eq]

theorem UncommentedAll.pointerDepthInField_eq : ∀ {cs cs' : List SyntaxNode},
    UncommentedAll cs cs' → pointerDepthInField cs' = pointerDepthInField cs
  | _, _, .nil => rfl
  | _, _, .keep first rest => by
    rw [pointerDepthInField, pointerDepthInField, first.field_eq, first.pointerDepth_eq,
      rest.pointerDepthInField_eq]
  | _, _, .drop comment rest => by
    rw [rest.pointerDepthInField_eq]
    conv_rhs => rw [pointerDepthInField, comment.field_beq, if_neg Bool.false_ne_true]

end

/-- A declarator is a prototype as it was, unless there is a comment below its pointers. -/
lemma Uncommented.isPrototype_eq (h : Uncommented n n')
    (hn : ∀ m, belowPointers? n = some m → m.kind ≠ "comment") :
    isPrototype n' = isPrototype n := by
  have hfinds := h.stillFinds_belowPointers?
  unfold isPrototype
  revert hfinds hn
  generalize belowPointers? n = x, belowPointers? n' = x'
  rintro hn (_ | hm | hcomment)
  · rfl
  · have hinner := hm.rel_inField? "declarator"
    simp only [hm.kind_eq]
    revert hinner
    generalize SyntaxNode.inField? _ _ = y, SyntaxNode.inField? _ _ = y'
    rintro (⟨hy⟩ | _)
    · simp only [hy.kind_eq]
    · rfl
  · exact absurd hcomment (hn _ rfl)

/-- A prototype is one without comments, too. -/
lemma Uncommented.isPrototype_of (h : Uncommented n n') (hn : isPrototype n = true) :
    isPrototype n' = true := by
  rw [h.isPrototype_eq, hn]
  rintro m hm hcomment
  rw [isPrototype, hm] at hn
  simp [hcomment] at hn

/-! ### Names -/

/-- Nodes that are the same but for comments lead on to nodes that are. -/
lemma rel_bind {x x' : Option SyntaxNode} {f : SyntaxNode → Option SyntaxNode}
    (hx : Option.Rel Uncommented x x')
    (hf : ∀ m m', Uncommented m m' → Option.Rel Uncommented (f m) (f m')) :
    Option.Rel Uncommented (x.bind f) (x'.bind f) := by
  cases hx with
  | some hm => exact hf _ _ hm
  | none => exact .none

/-- What is read off nodes that are the same but for comments is the same. -/
lemma map_eq_of_rel {α : Type} {x x' : Option SyntaxNode} {f : SyntaxNode → α}
    (hx : Option.Rel Uncommented x x') (hf : ∀ m m', Uncommented m m' → f m' = f m) :
    x'.map f = x.map f := by
  cases hx with
  | some hm => exact congrArg some (hf _ _ hm)
  | none => rfl

/-- A node that is found is still found, the same but for comments. -/
lemma exists_of_rel {x x' : Option SyntaxNode} (hx : Option.Rel Uncommented x x') {m : SyntaxNode}
    (hm : x = some m) : ∃ m', x' = some m' ∧ Uncommented m m' := by
  subst hm
  cases hx with
  | some hmm' => exact ⟨_, rfl, hmm'⟩

/-- So it is with a node in place of one that is not found. -/
lemma getD_of_rel {x x' : Option SyntaxNode} (hx : Option.Rel Uncommented x x')
    (hn : Uncommented n n') : Uncommented (x.getD n) (x'.getD n') := by
  cases hx with
  | some hm => exact hm
  | none => exact hn

/-- Nodes that are the same but for comments are found together. -/
lemma isSome_eq_of_rel {x x' : Option SyntaxNode} (hx : Option.Rel Uncommented x x') :
    x'.isSome = x.isSome := by
  cases hx with
  | some hm => rfl
  | none => rfl

mutual

/-- The node of the last part of a name is the same but for its comments. -/
theorem Uncommented.lastNamePart : ∀ {n n' : SyntaxNode}, Uncommented n n' →
    Uncommented (lastNamePart n) (lastNamePart n')
  | _, _, .node below => by
    rw [SyntaxNode.lastNamePart, SyntaxNode.lastNamePart]
    split_ifs
    · exact getD_of_rel below.rel_lastNamePartInField? (.node below)
    · exact getD_of_rel ((Uncommented.node below).rel_inField? "name") (.node below)
    · exact .node below

theorem UncommentedAll.rel_lastNamePartInField? : ∀ {cs cs' : List SyntaxNode},
    UncommentedAll cs cs' → Option.Rel Uncommented (lastNamePartInField? cs)
      (lastNamePartInField? cs')
  | _, _, .nil => .none
  | _, _, .keep first rest => by
    rw [lastNamePartInField?, lastNamePartInField?, first.field_eq]
    split_ifs
    · exact .some first.lastNamePart
    · exact rest.rel_lastNamePartInField?
  | _, _, .drop comment rest => by
    rw [lastNamePartInField?, comment.field_beq, if_neg Bool.false_ne_true]
    exact rest.rel_lastNamePartInField?

end

namespace Uncommented

variable (read : Reading)

/-- A node reads as the same name. -/
lemma nameText_eq (h : Uncommented n n') : nameText read n' = nameText read n := by
  rw [nameText, nameText, h.kind_eq, h.text_eq, h.lastNamePart.text_eq]

/-- A declarator declares the same name. -/
lemma declaratorName?_eq (h : Uncommented n n') :
    declaratorName? read n' = declaratorName? read n :=
  map_eq_of_rel h.rel_declaredName? fun _ _ hm => hm.nameText_eq read

/-- A definition defines the same function. -/
lemma functionName?_eq (h : Uncommented n n') : functionName? read n' = functionName? read n := by
  refine map_eq_of_rel (rel_bind (h.rel_inField? "declarator") fun _ _ hd => ?_)
    fun _ _ hm => hm.nameText_eq read
  exact rel_bind hd.rel_functionDeclarator? fun _ _ hf =>
    rel_bind (hf.rel_inField? "declarator") fun _ _ hi => hi.rel_declaredName?

end Uncommented

/-! ### All nodes -/

mutual

/-- The nodes of a tree are the same but for comments. -/
theorem Uncommented.preorder : ∀ {n n' : SyntaxNode}, Uncommented n n' →
    UncommentedAll n.preorder n'.preorder
  | _, _, .node below => by
    rw [SyntaxNode.preorder, SyntaxNode.preorder]
    exact .keep (.node below) below.preorderAll

theorem UncommentedAll.preorderAll : ∀ {cs cs' : List SyntaxNode}, UncommentedAll cs cs' →
    UncommentedAll (preorderAll cs) (preorderAll cs')
  | _, _, .nil => .nil
  | _, _, .keep first rest => by
    rw [SyntaxNode.preorderAll, SyntaxNode.preorderAll]
    exact first.preorder.append rest.preorderAll
  | _, _, .drop comment rest => by
    rw [SyntaxNode.preorderAll, comment.eq_mk]
    exact .drop ⟨rfl, rfl, rfl⟩ rest.preorderAll

end

end CodeAtlas.SyntaxNode
