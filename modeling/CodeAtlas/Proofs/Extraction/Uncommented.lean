import CodeAtlas.Proofs.Extraction.Visits
import CodeAtlas.Proofs.SyntaxTree.Comments
import CodeAtlas.Extraction.Score

/-!
# What comments leave as it is

When comments are taken out of a syntax tree, the walk stops at the same nodes
(`Uncommented.forall₂_visits`), and most of what these nodes contribute is the same: records,
enumerations, type definitions and includes, the names and texts of everything, parameter lists, and
the scores of functions.
-/

namespace CodeAtlas.SyntaxNode

variable (read : Reading) {n n' : SyntaxNode} {cs cs' : List SyntaxNode}

/-! ### The walk -/

/-- Two visits in the same scope, of nodes that are the same but for comments. -/
def SameVisit (v v' : Scope × SyntaxNode) : Prop := v'.1 = v.1 ∧ Uncommented v.2 v'.2

mutual

/-- The walk stops at the same nodes. -/
theorem Uncommented.forall₂_visits (scope : Scope) : ∀ {n n' : SyntaxNode}, Uncommented n n' →
    List.Forall₂ SameVisit (visits scope n) (visits scope n')
  | _, _, @Uncommented.node kind _ _ _ _ _ _ below => by
    rw [visits, visits]
    cases NodeRole.ofKind kind
    case function =>
      exact .cons ⟨rfl, .node below⟩ (below.forall₂_visitsInField .nested "body")
    case record => exact .cons ⟨rfl, .node below⟩ (below.forall₂_visitsInAll .nested)
    case enumeration => exact .cons ⟨rfl, .node below⟩ .nil
    case typeDefinition =>
      exact .cons ⟨rfl, .node below⟩ (below.forall₂_visitsInField scope "type")
    case define => exact .cons ⟨rfl, .node below⟩ .nil
    case include_ => exact .cons ⟨rfl, .node below⟩ .nil
    case declaration =>
      exact .cons ⟨rfl, .node below⟩ (below.forall₂_visitsInField scope "type")
    case block => exact below.forall₂_visitsInAll .nested
    case transparent => exact below.forall₂_visitsInAll scope

theorem UncommentedAll.forall₂_visitsInAll (scope : Scope) : ∀ {cs cs' : List SyntaxNode},
    UncommentedAll cs cs' → List.Forall₂ SameVisit (visitsInAll scope cs) (visitsInAll scope cs')
  | _, _, .nil => .nil
  | _, _, .keep first rest => by
    rw [visitsInAll, visitsInAll]
    exact List.rel_append (first.forall₂_visits scope) (rest.forall₂_visitsInAll scope)
  | _, _, .drop comment rest => by
    -- the walk goes through a comment and finds nothing below it
    rw [visitsInAll, comment.eq_mk]
    exact rest.forall₂_visitsInAll scope

theorem UncommentedAll.forall₂_visitsInField (scope : Scope) (name : String) :
    ∀ {cs cs' : List SyntaxNode}, UncommentedAll cs cs' →
      List.Forall₂ SameVisit (visitsInField scope name cs) (visitsInField scope name cs')
  | _, _, .nil => .nil
  | _, _, .keep first rest => by
    rw [visitsInField, visitsInField, first.field_eq]
    split_ifs
    · exact first.forall₂_visits scope
    · exact rest.forall₂_visitsInField scope name
  | _, _, .drop comment rest => by
    rw [visitsInField, comment.field_beq, if_neg Bool.false_ne_true]
    exact rest.forall₂_visitsInField scope name

end

/-! ### What does not show -/

/-- The texts of related nodes are the same. -/
lemma map_eq_of_forall₂ {α : Type} {f : SyntaxNode → α} (h : List.Forall₂ Uncommented cs cs')
    (hf : ∀ c c', Uncommented c c' → f c' = f c) : cs'.map f = cs.map f := by
  induction h with
  | nil => rfl
  | cons hc _ ih => rw [List.map_cons, List.map_cons, hf _ _ hc, ih]

/-- What is read off related nodes, where something is, is the same. -/
lemma filterMap_eq_of_forall₂ {α : Type} {f : SyntaxNode → Option α}
    (h : List.Forall₂ Uncommented cs cs') (hf : ∀ c c', Uncommented c c' → f c' = f c) :
    cs'.filterMap f = cs.filterMap f := by
  induction h with
  | nil => rfl
  | cons hc _ ih => rw [List.filterMap_cons, List.filterMap_cons, hf _ _ hc, ih]

namespace Uncommented

/-- A parameter list reads the same. -/
lemma parameters_eq (h : Uncommented n n') : parameters read n' = parameters read n := by
  have hlist : (n'.namedChildren.filter (fun p => p.kind != "comment")).map
        (fun p => Text.collapse (p.text read)) =
      (n.namedChildren.filter (fun p => p.kind != "comment")).map
        (fun p => Text.collapse (p.text read)) :=
    map_eq_of_forall₂ (h.forall₂_namedChildren (p := (· != "comment")) rfl)
      fun c c' hc => congrArg Text.collapse (hc.text_eq read)
  rw [parameters, parameters, hlist]

/-- A record contributes the same. -/
lemma recordFindings_eq (h : Uncommented n n') :
    recordFindings read n' = recordFindings read n := by
  unfold recordFindings
  have hname := h.rel_inField? "name"
  have hbody := h.rel_inField? "body"
  revert hname hbody
  generalize n.inField? "name" = x, n'.inField? "name" = x', n.inField? "body" = y,
    n'.inField? "body" = y'
  rintro (⟨hname⟩ | _) (⟨hbody⟩ | _)
  · rename_i body body'
    have hmembers : members read body' = members read body :=
      map_eq_of_forall₂ (hbody.forall₂_namedChildren (p := (· == "field_declaration")) rfl)
        fun c c' hc => by rw [hc.text_eq]
    simp only [hname.lastNamePart.text_eq, h.line_eq, h.kind_eq, hmembers]
  all_goals rfl

/-- An enumeration contributes the same. -/
lemma enumerationFindings_eq (h : Uncommented n n') :
    enumerationFindings read n' = enumerationFindings read n := by
  unfold enumerationFindings
  have hname := h.rel_inField? "name"
  have hbody := h.rel_inField? "body"
  revert hname hbody
  generalize n.inField? "name" = x, n'.inField? "name" = x', n.inField? "body" = y,
    n'.inField? "body" = y'
  rintro (⟨hname⟩ | _) (⟨hbody⟩ | _)
  · rename_i body body'
    have hvalues : enumerators read body' = enumerators read body :=
      filterMap_eq_of_forall₂ (hbody.forall₂_namedChildren (p := (· == "enumerator")) rfl)
        fun c c' hc => map_eq_of_rel (hc.rel_inField? "name") fun m m' hm => hm.text_eq read
    simp only [hname.lastNamePart.text_eq, h.line_eq, hvalues]
  all_goals rfl

/-- A type reads the same where a name is defined for it. -/
lemma underlyingType_eq (h : Uncommented n n') :
    underlyingType read n' = underlyingType read n := by
  unfold underlyingType
  rw [h.kind_eq, h.text_eq]
  have hname := h.rel_inField? "name"
  revert hname
  generalize n.inField? "name" = x, n'.inField? "name" = x'
  rintro (⟨hname⟩ | _)
  · simp only [hname.text_eq]
  · rfl

/-- A type definition contributes the same. -/
lemma typeDefinitionFindings_eq (h : Uncommented n n') :
    typeDefinitionFindings read n' = typeDefinitionFindings read n := by
  unfold typeDefinitionFindings
  have hbase := map_eq_of_rel (h.rel_inField? "type") fun m m' hm => hm.underlyingType_eq read
  rw [h.kind_eq, h.text_eq, h.line_eq, hbase]
  simp only
  split_ifs
  · have hname := h.rel_inField? "name"
    have htype := h.rel_inField? "type"
    revert hname htype
    generalize n.inField? "name" = x, n'.inField? "name" = x', n.inField? "type" = y,
      n'.inField? "type" = y'
    rintro (⟨hname⟩ | _) (⟨htype⟩ | _)
    · simp only [hname.text_eq, htype.text_eq]
    all_goals rfl
  · refine filterMap_eq_of_forall₂ (h.forall₂_allInField "declarator") fun d d' hd => ?_
    rw [hd.declaratorName?_eq, hd.pointerDepth_eq]

/-- A directive contributes the same. -/
lemma includeFindings_eq (h : Uncommented n n') :
    includeFindings read n' = includeFindings read n := by
  unfold includeFindings
  have hpath := h.rel_inField? "path"
  revert hpath
  generalize n.inField? "path" = x, n'.inField? "path" = x'
  rintro (⟨hpath⟩ | _)
  · simp only [hpath.text_eq, hpath.kind_eq]
  · rfl

end Uncommented

/-! ### Scores -/

namespace Uncommented

/-- A decision point is one without comments, too. -/
lemma isDecision_eq (h : Uncommented n n') : isDecision read n' = isDecision read n := by
  unfold isDecision
  rw [h.kind_eq, isSome_eq_of_rel (h.rel_inField? "value")]
  have hoperator := h.rel_inField? "operator"
  revert hoperator
  generalize n.inField? "operator" = x, n'.inField? "operator" = x'
  rintro (⟨hoperator⟩ | _)
  · simp only [hoperator.text_eq]
  · rfl

/-- A body has the same score. -/
lemma bodyScore_eq (h : Uncommented n n') : bodyScore read n' = bodyScore read n := by
  have hdecisions := (h.preorder.filter fun c c' hc => hc.isDecision_eq read).forall₂
    fun c hc hcomment => by
      have hdecision := (List.mem_filter.mp hc).2
      rw [hcomment.eq_mk] at hdecision
      cases hdecision
  rw [bodyScore, bodyScore, hdecisions.length_eq]

/-- A definition has the same name and score. -/
lemma namedScore?_eq (h : Uncommented n n') : namedScore? read n' = namedScore? read n := by
  unfold namedScore?
  rw [h.kind_eq, h.functionName?_eq]
  have hbody := h.rel_inField? "body"
  revert hbody
  generalize n.inField? "body" = x, n'.inField? "body" = x'
  cases functionName? read n <;> rintro (⟨hbody⟩ | _)
  case some.some => simp only [hbody.bodyScore_eq]
  all_goals rfl

/-- The functions of a tree have the same scores. -/
lemma measure_eq (h : Uncommented n n') (measurer : Measurer) :
    measurer.measure read n' = measurer.measure read n := by
  cases measurer with
  | unmeasured => rfl
  | cyclomatic =>
    have hscores := h.preorder.filterMap_eq (f := namedScore? read)
      (fun c _ c' hc => hc.namedScore?_eq read) fun c hc => by
        rw [hc.eq_mk]
        rfl
    rw [Measurer.measure, Measurer.measure, hscores]

end Uncommented

end CodeAtlas.SyntaxNode
