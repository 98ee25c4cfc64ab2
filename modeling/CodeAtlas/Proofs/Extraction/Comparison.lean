import CodeAtlas.Proofs.Extraction.Uncommented
import CodeAtlas.Proofs.Extraction.WellFormed
import CodeAtlas.Proofs.SyntaxTree.Callees
import Mathlib.Data.List.Perm.Subperm

/-!
# What nodes contribute with their comments and without

When comments are taken out of a syntax tree, there are three places where this can show in what a
visited node contributes (`LeavesFindings` says that it does in none of them).

* A function can gain a call: in parentheses the callee is the first named child, and if that is a
  comment the call has no name.
* A definition of the preprocessor can lose a parameter, because it takes every named child of its
  parameter list for one.
* A declaration can lose a variable: a prototype is looked for below pointers and references, and if
  one of these holds its declarator in no field its first named child is taken.

`compares_visitFindings` compares the contributions of a node: none is gained, and if none is lost,
each is the same, or a function calls more names, or a definition has other parameters.
-/

namespace CodeAtlas

/-! ### Lists that are put together from parts -/

section Parts

variable {α β : Type} {R : α → α → Prop} {f g : α → List β} {xs ys : List α}

/-- If no part gets longer the whole does not. -/
lemma length_flatMap_le_of_forall₂ (h : List.Forall₂ R xs ys)
    (hle : ∀ x y, R x y → (g y).length ≤ (f x).length) :
    (ys.flatMap g).length ≤ (xs.flatMap f).length := by
  induction h with
  | nil => exact le_rfl
  | cons hxy _ ih =>
    rw [List.flatMap_cons, List.flatMap_cons, List.length_append, List.length_append]
    exact Nat.add_le_add (hle _ _ hxy) ih

/-- If no part gets longer and the whole stays as long as it was, so does each part. -/
lemma forall₂_length_eq_of_flatMap (h : List.Forall₂ R xs ys)
    (hle : ∀ x y, R x y → (g y).length ≤ (f x).length)
    (hlength : (ys.flatMap g).length = (xs.flatMap f).length) :
    List.Forall₂ (fun x y => R x y ∧ (g y).length = (f x).length) xs ys := by
  induction h with
  | nil => exact .nil
  | cons hxy hrest ih =>
    rw [List.flatMap_cons, List.flatMap_cons, List.length_append, List.length_append] at hlength
    have hfirst := hle _ _ hxy
    have hrest := length_flatMap_le_of_forall₂ hrest hle
    exact .cons ⟨hxy, by omega⟩ (ih (by omega))

/-- If parts of the same lengths make up the same whole they are the same. -/
lemma forall₂_eq_of_flatMap
    (h : List.Forall₂ (fun x y => R x y ∧ (g y).length = (f x).length) xs ys)
    (heq : ys.flatMap g = xs.flatMap f) : List.Forall₂ (fun x y => R x y ∧ g y = f x) xs ys := by
  induction h with
  | nil => exact .nil
  | cons hxy _ ih =>
    rw [List.flatMap_cons, List.flatMap_cons] at heq
    obtain ⟨hfirst, hrest⟩ := List.append_inj heq hxy.2
    exact .cons ⟨hxy.1, hfirst⟩ (ih hrest)

/-- The same parts make up the same whole. -/
lemma flatMap_eq_of_forall₂ {S : α → α → Prop} (h : List.Forall₂ R xs ys)
    (h' : List.Forall₂ S xs ys) (heq : ∀ x y, R x y → S x y → g y = f x) :
    ys.flatMap g = xs.flatMap f := by
  induction h with
  | nil => rfl
  | cons hxy _ ih =>
    obtain ⟨hxy', hrest⟩ := List.forall₂_cons.mp h'
    rw [List.flatMap_cons, List.flatMap_cons, heq _ _ hxy hxy', ih hrest]

end Parts

namespace SyntaxNode

variable (read : Reading) {n n' : SyntaxNode} {cs cs' : List SyntaxNode}

/-! ### The three places where a comment can show -/

/-- The names that a function definition calls. -/
def bodyCallees (n : SyntaxNode) : List String :=
  ((n.inField? "body").map (callees read)).getD []

/-- The nodes that a definition of the preprocessor takes for its parameters. -/
def parameterNodes (n : SyntaxNode) : List SyntaxNode :=
  ((n.inField? "parameters").map namedChildren).getD []

/-- Whether a declarator is a prototype as it was, if it declares a name at all. -/
def StaysPrototype (d d' : SyntaxNode) : Prop :=
  declaratorName? read (declaratorTarget d) ≠ none →
    isPrototype (declaratorTarget d') = isPrototype (declaratorTarget d)

/-- At a visited node none of the three things happens in which comments show. -/
structure LeavesFindings (v v' : Scope × SyntaxNode) : Prop where
  /-- A function that has a name calls the same names. -/
  callees_eq : NodeRole.ofKind v.2.kind = .function → functionName? read v.2 ≠ none →
    bodyCallees read v'.2 = bodyCallees read v.2
  /-- A definition of the preprocessor that has a name loses nothing that it takes for a
  parameter. -/
  parameters_length_eq : NodeRole.ofKind v.2.kind = .define → v.2.inField? "name" ≠ none →
    (parameterNodes v'.2).length = (parameterNodes v.2).length
  /-- In a declaration at file scope that has a type, the prototypes are those that were. -/
  staysPrototype : NodeRole.ofKind v.2.kind = .declaration → v.1 = .file →
    v.2.inField? "type" ≠ none →
    List.Forall₂ (StaysPrototype read) (v.2.allInField "declarator") (v'.2.allInField "declarator")

/-- Findings of one node before and after comments are taken out: they are the same, or a function
calls no fewer names, or a definition of the preprocessor has other parameters. -/
inductive Near : Finding → Finding → Prop
  | same (f : Finding) : Near f f
  | calls (draft : SymbolDraft) {callees callees' : List String}
      (hle : callees.length ≤ callees'.length) :
      Near (.symbol draft callees) (.symbol draft callees')
  | parameters (name : String) (line : UInt32) (declaration value : String)
      (ps ps' : Option (List String)) :
      Near (.symbol ⟨name, line, declaration, .define ps value⟩ [])
        (.symbol ⟨name, line, declaration, .define ps' value⟩ [])

/-- What the nodes of two visits contribute, compared. -/
structure Compares (v v' : Scope × SyntaxNode) (found found' : List Finding) : Prop where
  /-- Taking out comments never adds a finding. -/
  length_le : found'.length ≤ found.length
  /-- If no finding is lost, each is near to what it was. -/
  near : found'.length = found.length → List.Forall₂ Near found found'
  /-- The findings are the same exactly if none of the three things happens. -/
  eq_iff : found' = found ↔ LeavesFindings read v v'

/-- Where comments show in none of the three ways, the findings are the same. -/
lemma Compares.of_eq {v v' : Scope × SyntaxNode} {found : List Finding}
    (h : LeavesFindings read v v') : Compares read v v' found found :=
  ⟨le_rfl, fun _ => List.forall₂_same.mpr fun f _ => .same f, iff_of_true rfl h⟩

/-- A body without comments calls no fewer names. -/
lemma Uncommented.length_bodyCallees_le (h : Uncommented n n') :
    (bodyCallees read n).length ≤ (bodyCallees read n').length := by
  unfold bodyCallees
  have hbody := h.rel_inField? "body"
  revert hbody
  generalize n.inField? "body" = x, n'.inField? "body" = x'
  rintro (⟨hbody⟩ | _)
  · rename_i body body'
    have hsubset : callees read body ⊆ callees read body' := by
      intro name hname
      rw [callees, mem_firstOccurrences] at hname ⊢
      exact hbody.preorder.filterMap_subset (fun c c' hc x hx => hc.calledName?_of read hx)
        (fun c hc => hc.calledName?_eq read) hname
    exact ((nodup_firstOccurrences _).subperm hsubset).length_le
  · exact le_rfl

/-- The symbol of a function definition does not depend on comments. -/
lemma Uncommented.functionDraft_eq (h : Uncommented n n') {d d' : SyntaxNode}
    (hd : Uncommented d d') (name : String) :
    functionDraft read n' d' name = functionDraft read n d name := by
  have hsignature : signature read n' = signature read n := by
    unfold signature
    rw [h.span_eq, h.text_eq]
    have hbody := h.rel_inField? "body"
    revert hbody
    generalize n.inField? "body" = x, n'.inField? "body" = x'
    rintro (⟨hbody⟩ | _)
    · simp only [hbody.span_eq]
    · rfl
  have hparameters := map_eq_of_rel (f := parameters read)
    (rel_bind hd.rel_functionDeclarator? fun m m' hm => hm.rel_inField? "parameters")
    fun m m' hm => hm.parameters_eq read
  rw [functionDraft, functionDraft, h.line_eq, hsignature, hparameters, returnType, returnType,
    h.span_eq, hd.span_eq, hd.pointerDepth_eq]

/-- Functions are compared by what they call. -/
lemma compares_function {v v' : Scope × SyntaxNode} (hrole : NodeRole.ofKind v.2.kind = .function)
    (h : Uncommented v.2 v'.2) :
    Compares read v v' (functionFindings read v.2) (functionFindings read v'.2) := by
  have hleaves (hcalls : functionName? read v.2 ≠ none →
      bodyCallees read v'.2 = bodyCallees read v.2) : LeavesFindings read v v' :=
    ⟨fun _ => hcalls, fun hother => by simp [hrole] at hother,
      fun hother => by simp [hrole] at hother⟩
  unfold functionFindings
  rw [h.functionName?_eq]
  cases hname : functionName? read v.2 with
  | none => exact .of_eq read (hleaves fun hne => absurd hname hne)
  | some name =>
    obtain ⟨d, hd⟩ := exists_declarator_of_functionName? read hname
    obtain ⟨d', hd', hdd'⟩ := exists_of_rel (h.rel_inField? "declarator") hd
    simp only [hd, hd']
    change Compares read v v' [.symbol (functionDraft read v.2 d name) (bodyCallees read v.2)]
      [.symbol (functionDraft read v'.2 d' name) (bodyCallees read v'.2)]
    rw [h.functionDraft_eq read hdd']
    refine ⟨le_rfl, fun _ => .cons (.calls _ (h.length_bodyCallees_le read)) .nil, ?_⟩
    rw [List.singleton_inj, Finding.symbol.injEq, eq_self_iff_true, true_and]
    exact ⟨fun hcalls => hleaves fun _ => hcalls,
      fun hall => hall.callees_eq hrole (by rw [hname]; exact Option.some_ne_none name)⟩

/-- The texts of the parameters of a definition of the preprocessor are the same exactly if no named
child of its parameter list is lost. -/
lemma Uncommented.parameterTexts_eq_iff (h : Uncommented n n') :
    (n'.inField? "parameters").map (fun list => list.namedChildren.map fun p => p.text read) =
        (n.inField? "parameters").map (fun list => list.namedChildren.map fun p => p.text read) ↔
      (parameterNodes n').length = (parameterNodes n).length := by
  unfold parameterNodes
  have hlist := h.rel_inField? "parameters"
  revert hlist
  generalize n.inField? "parameters" = x, n'.inField? "parameters" = x'
  rintro (⟨hlist⟩ | _)
  · rename_i list list'
    simp only [Option.map_some, Option.some.injEq, Option.getD_some]
    constructor
    · intro htexts
      simpa only [List.length_map] using congrArg List.length htexts
    · intro hlength
      exact map_eq_of_forall₂ (hlist.uncommentedAll_namedChildren.forall₂_of_length_eq hlength)
        fun c c' hc => hc.text_eq read
  · exact iff_of_true rfl rfl

/-- Definitions of the preprocessor are compared by their parameters. -/
lemma compares_define {v v' : Scope × SyntaxNode} (hrole : NodeRole.ofKind v.2.kind = .define)
    (h : Uncommented v.2 v'.2) :
    Compares read v v' (defineFindings read v.2) (defineFindings read v'.2) := by
  have hleaves (hlength : v.2.inField? "name" ≠ none →
      (parameterNodes v'.2).length = (parameterNodes v.2).length) : LeavesFindings read v v' :=
    ⟨fun hother => by simp [hrole] at hother, fun _ => hlength,
      fun hother => by simp [hrole] at hother⟩
  have hvalue := map_eq_of_rel (f := fun m => Text.trim (m.text read)) (h.rel_inField? "value")
    fun m m' hm => by rw [hm.text_eq]
  unfold defineFindings
  cases hname : v.2.inField? "name" with
  | none =>
    have hname' : v'.2.inField? "name" = none := by
      rw [← Option.not_isSome_iff_eq_none, isSome_eq_of_rel (h.rel_inField? "name"), hname]
      exact Bool.false_ne_true
    rw [hname']
    exact .of_eq read (hleaves fun hne => absurd hname hne)
  | some node =>
    obtain ⟨node', hnode', hnode⟩ := exists_of_rel (h.rel_inField? "name") hname
    simp only [hnode', hnode.text_eq, h.line_eq, h.text_eq, hvalue]
    refine ⟨le_rfl, fun _ => .cons (.parameters _ _ _ _ _ _) .nil, ?_⟩
    rw [List.singleton_inj, Finding.symbol.injEq, SymbolDraft.mk.injEq, SymbolDetail.define.injEq,
      h.parameterTexts_eq_iff]
    constructor
    · rintro ⟨⟨-, -, -, hlength, -⟩, -⟩
      exact hleaves fun _ => hlength
    · intro hall
      have hlength := hall.parameters_length_eq hrole (by rw [hname]; exact Option.some_ne_none _)
      exact ⟨⟨rfl, rfl, rfl, hlength, rfl⟩, rfl⟩

/-- The finding for a declarator of a declaration, if it is no prototype. -/
def declared? (n type d : SyntaxNode) : Option Finding :=
  (declaratorName? read (declaratorTarget d)).map fun name =>
    .symbol ⟨name, d.line, Text.collapse (read ⟨n.span.start, type.span.stop⟩) ++ " " ++
        Text.collapse (d.text read) ++ ";",
      .global (withPointers (Text.collapse (type.text read)) (pointerDepth (declaratorTarget d)))
        (hasSpecifier read n "storage_class_specifier" ["static"])
        (hasSpecifier read n "type_qualifier" ["const", "constexpr"])⟩ []

/-- The findings for a declarator of a declaration. -/
def declaredPart (n type d : SyntaxNode) : List Finding :=
  if isPrototype (declaratorTarget d) then [] else (declared? read n type d).toList

/-- A declaration at file scope contributes the findings for its declarators. -/
lemma variableFindings_eq {type : SyntaxNode} (htype : n.inField? "type" = some type) :
    variableFindings read n = (n.allInField "declarator").flatMap (declaredPart read n type) := by
  simp only [variableFindings, htype, List.filterMap_eq_flatMap_toList]
  refine List.flatMap_congr fun d _ => ?_
  rw [declaredPart]
  split_ifs
  · rfl
  · rfl

namespace Uncommented

/-- The declarator that counts is the same but for its comments. -/
lemma declaratorTarget (h : Uncommented n n') :
    Uncommented (declaratorTarget n) (declaratorTarget n') := by
  unfold SyntaxNode.declaratorTarget
  rw [h.kind_eq]
  split_ifs
  · exact getD_of_rel (h.rel_inField? "declarator") h
  · exact h

/-- Specifiers read the same: a comment is none. -/
lemma hasSpecifier_eq (h : Uncommented n n') {kind : String} (hkind : kind ≠ "comment")
    (words : List String) : hasSpecifier read n' kind words = hasSpecifier read n kind words := by
  refine h.children.any_eq (fun c c' hc => by rw [hc.kind_eq, hc.text_eq]) fun c hc => ?_
  rw [hc.kind_eq, Bool.and_eq_false_imp]
  intro hcomment
  exact absurd (beq_iff_eq.mp hcomment).symm hkind

variable {type type' d d' : SyntaxNode}

/-- A declarator that is no prototype gives the same finding. -/
lemma declared?_eq (h : Uncommented n n') (htype : Uncommented type type')
    (hd : Uncommented d d') : declared? read n' type' d' = declared? read n type d := by
  unfold declared?
  rw [hd.declaratorTarget.declaratorName?_eq, hd.declaratorTarget.pointerDepth_eq, hd.line_eq,
    hd.text_eq, h.span_eq, htype.span_eq, htype.text_eq, h.hasSpecifier_eq read (by decide),
    h.hasSpecifier_eq read (by decide)]

/-- A declarator that was no prototype and is one now gives nothing any more; otherwise it gives
what it gave. -/
lemma declaredPart_cases (h : Uncommented n n') (htype : Uncommented type type')
    (hd : Uncommented d d') :
    StaysPrototype read d d' ∧ declaredPart read n' type' d' = declaredPart read n type d ∨
      ¬StaysPrototype read d d' ∧
        (declaredPart read n' type' d').length < (declaredPart read n type d).length := by
  unfold StaysPrototype declaredPart
  rw [h.declared?_eq read htype hd]
  cases hold : isPrototype (SyntaxNode.declaratorTarget d) with
  | true =>
    rw [hd.declaratorTarget.isPrototype_of hold]
    exact .inl ⟨fun _ => rfl, rfl⟩
  | false =>
    cases hnew : isPrototype (SyntaxNode.declaratorTarget d') with
    | false => exact .inl ⟨fun _ => rfl, rfl⟩
    | true =>
      cases hname : declaratorName? read (SyntaxNode.declaratorTarget d) with
      | none =>
        refine .inl ⟨fun hne => absurd rfl hne, ?_⟩
        simp [declared?, hname]
      | some name =>
        refine .inr ⟨fun hstays => Bool.false_ne_true (hstays (Option.some_ne_none name)).symm, ?_⟩
        simp [declared?, hname]

end Uncommented

/-- Declarations at file scope are compared by their prototypes. -/
lemma compares_declaration {v v' : Scope × SyntaxNode}
    (hrole : NodeRole.ofKind v.2.kind = .declaration) (hscope : v.1 = .file)
    (h : Uncommented v.2 v'.2) :
    Compares read v v' (variableFindings read v.2) (variableFindings read v'.2) := by
  have hleaves (hstay : v.2.inField? "type" ≠ none → List.Forall₂ (StaysPrototype read)
      (v.2.allInField "declarator") (v'.2.allInField "declarator")) : LeavesFindings read v v' :=
    ⟨fun hother => by simp [hrole] at hother, fun hother => by simp [hrole] at hother,
      fun _ _ => hstay⟩
  cases htype : v.2.inField? "type" with
  | none =>
    have htype' : v'.2.inField? "type" = none := by
      rw [← Option.not_isSome_iff_eq_none, isSome_eq_of_rel (h.rel_inField? "type"), htype]
      exact Bool.false_ne_true
    simp only [variableFindings, htype, htype']
    exact .of_eq read (hleaves fun hne => absurd htype hne)
  | some type =>
    obtain ⟨type', htype', htt'⟩ := exists_of_rel (h.rel_inField? "type") htype
    rw [variableFindings_eq read htype, variableFindings_eq read htype']
    have hlist := h.forall₂_allInField "declarator"
    have hle : ∀ d d', Uncommented d d' → (declaredPart read v'.2 type' d').length ≤
        (declaredPart read v.2 type d).length := by
      intro d d' hd
      obtain ⟨-, heq⟩ | ⟨-, hlt⟩ := h.declaredPart_cases read htt' hd
      · rw [heq]
      · exact hlt.le
    have hstay_of_length (hlength : ((v'.2.allInField "declarator").flatMap
          (declaredPart read v'.2 type')).length =
        ((v.2.allInField "declarator").flatMap (declaredPart read v.2 type)).length) :
        List.Forall₂ (StaysPrototype read) (v.2.allInField "declarator")
          (v'.2.allInField "declarator") := by
      refine (forall₂_length_eq_of_flatMap hlist hle hlength).imp fun d d' hd => ?_
      obtain ⟨hstays, -⟩ | ⟨-, hlt⟩ := h.declaredPart_cases read htt' hd.1
      · exact hstays
      · exact absurd hd.2 hlt.ne
    have heq_of_stay (hstay : List.Forall₂ (StaysPrototype read) (v.2.allInField "declarator")
          (v'.2.allInField "declarator")) : (v'.2.allInField "declarator").flatMap
          (declaredPart read v'.2 type') =
        (v.2.allInField "declarator").flatMap (declaredPart read v.2 type) := by
      refine flatMap_eq_of_forall₂ hlist hstay fun d d' hd hstays => ?_
      obtain ⟨-, heq⟩ | ⟨hnot, -⟩ := h.declaredPart_cases read htt' hd
      · exact heq
      · exact absurd hstays hnot
    refine ⟨length_flatMap_le_of_forall₂ hlist hle, fun hlength => ?_, fun heq => ?_,
      fun hall => ?_⟩
    · rw [heq_of_stay (hstay_of_length hlength)]
      exact List.forall₂_same.mpr fun f _ => .same f
    · exact hleaves fun _ => hstay_of_length (congrArg List.length heq)
    · exact heq_of_stay
        (hall.staysPrototype hrole hscope (by rw [htype]; exact Option.some_ne_none _))

/-- What the nodes of two visits contribute is compared by the three places. -/
lemma compares_visitFindings {v v' : Scope × SyntaxNode} (h : SameVisit v v') :
    Compares read v v' (visitFindings read v) (visitFindings read v') := by
  obtain ⟨hscope, h⟩ := h
  have hplain (hfunction : NodeRole.ofKind v.2.kind ≠ .function)
      (hdefine : NodeRole.ofKind v.2.kind ≠ .define)
      (hdeclaration : NodeRole.ofKind v.2.kind = .declaration → v.1 ≠ .file) :
      LeavesFindings read v v' :=
    ⟨fun hrole => absurd hrole hfunction, fun hrole => absurd hrole hdefine,
      fun hrole hfile => absurd hfile (hdeclaration hrole)⟩
  unfold visitFindings ownFindings
  rw [h.kind_eq, hscope]
  cases hrole : NodeRole.ofKind v.2.kind <;> rw [hrole] at hplain <;> simp only
  case function => exact compares_function read hrole h
  case define => exact compares_define read hrole h
  case record =>
    rw [h.recordFindings_eq]
    exact .of_eq read (hplain nofun nofun nofun)
  case enumeration =>
    rw [h.enumerationFindings_eq]
    exact .of_eq read (hplain nofun nofun nofun)
  case typeDefinition =>
    rw [h.typeDefinitionFindings_eq]
    exact .of_eq read (hplain nofun nofun nofun)
  case include_ =>
    rw [h.includeFindings_eq]
    exact .of_eq read (hplain nofun nofun nofun)
  case block => exact .of_eq read (hplain nofun nofun nofun)
  case transparent => exact .of_eq read (hplain nofun nofun nofun)
  case declaration =>
    split_ifs with hfile
    · exact compares_declaration read hrole hfile h
    · exact .of_eq read (hplain nofun nofun fun _ => hfile)

end SyntaxNode

end CodeAtlas
