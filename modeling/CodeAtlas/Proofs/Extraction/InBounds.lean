import CodeAtlas.Proofs.Extraction.Counts
import CodeAtlas.Proofs.Extraction.Sources
import CodeAtlas.Proofs.Extraction.Stepwise
import CodeAtlas.Proofs.SyntaxTree.Found

/-!
# An extraction stays within the text

The ranges that an extraction cuts out of the text are of three forms: the range of a node, what
stands before a child of a node, as the return type of a function or its signature, and what stands
from the start of a node to the end of a child, as the specifiers of a variable up to its type.  The
sums that it forms never exceed the number of nodes.  Operations that succeed for these ranges and
sums *serve* the tree, and with them the extraction gives what is extracted from the tree
(`Primitives.Serves.ofTree_eq`).

There are two uses of this.  Operations that always give something serve every tree, so the
extraction performs the operations that are written down for it (`FileContent.extractBy_total`).
Operations that stop at a fault serve every tree that is placed in its text and has fewer than
`2 ^ 32` nodes, so such a tree is extracted without a fault
(`FileContent.extractBy_checked_of_isPlaced`).
-/

namespace CodeAtlas

/-! ### Steps that succeed one after the other -/

section Steps

variable {m : Type → Type} [Monad m] [LawfulMonad m] {α β : Type}

lemma mapM_eq_pure {f : α → m β} {g : α → β} {as : List α} (h : ∀ a ∈ as, f a = pure (g a)) :
    as.mapM f = pure (as.map g) := by
  induction as with
  | nil => rw [List.mapM_nil, List.map_nil]
  | cons a as ih =>
    obtain ⟨ha, has⟩ := List.forall_mem_cons.mp h
    rw [List.mapM_cons, ha, pure_bind, ih has, pure_bind, List.map_cons]

lemma filterMapM_eq_pure {f : α → m (Option β)} {g : α → Option β} {as : List α}
    (h : ∀ a ∈ as, f a = pure (g a)) : as.filterMapM f = pure (as.filterMap g) := by
  induction as with
  | nil => rw [List.filterMapM_nil, List.filterMap_nil]
  | cons a as ih =>
    obtain ⟨ha, has⟩ := List.forall_mem_cons.mp h
    rw [List.filterMapM_cons, ha, pure_bind, List.filterMap_cons]
    cases g a with
    | none => exact ih has
    | some b => simp only [ih has, pure_bind]

lemma flatMapM_eq_pure {f : α → m (List β)} {g : α → List β} {as : List α}
    (h : ∀ a ∈ as, f a = pure (g a)) : as.flatMapM f = pure (as.flatMap g) := by
  induction as with
  | nil => rw [List.flatMapM_nil, List.flatMap_nil]
  | cons a as ih =>
    obtain ⟨ha, has⟩ := List.forall_mem_cons.mp h
    rw [List.flatMapM_cons, ha, pure_bind, ih has, pure_bind, List.flatMap_cons]

lemma optionMapM_eq_pure {f : α → m β} {g : α → β} {o : Option α}
    (h : ∀ a, o = some a → f a = pure (g a)) : o.mapM f = pure (o.map g) := by
  cases o with
  | none => rw [Option.mapM_none, Option.map_none]
  | some a => rw [Option.mapM_some, h a rfl, map_pure, Option.map_some]

end Steps

namespace Primitives

open SyntaxNode

variable {m : Type → Type} [Monad m] {p : Primitives m} {read : Reading} {tree n c : SyntaxNode}

/-- The operations that an extraction from a tree performs succeed, and give what a reading gives:
the range of each node, the ranges from the start of a node to either end of one of its children,
and sums up to the number of nodes. -/
structure Serves (p : Primitives m) (read : Reading) (tree : SyntaxNode) : Prop where
  cut_node : ∀ n ∈ tree.preorder, p.cut n.span = pure (read n.span)
  cut_before : ∀ n ∈ tree.preorder, ∀ c ∈ n.children,
    p.cut ⟨n.span.start, c.span.start⟩ = pure (read ⟨n.span.start, c.span.start⟩)
  cut_through : ∀ n ∈ tree.preorder, ∀ c ∈ n.children,
    p.cut ⟨n.span.start, c.span.stop⟩ = pure (read ⟨n.span.start, c.span.stop⟩)
  add_eq : ∀ a b, a + b ≤ tree.preorder.length →
    p.add a.toUInt32 b.toUInt32 = pure (a + b).toUInt32

namespace Serves

/-- What succeeds for a tree succeeds for the tree below each of its nodes. -/
lemma of_mem (h : p.Serves read tree) (hn : n ∈ tree.preorder) : p.Serves read n := by
  have hbelow := sublist_preorder tree n hn
  exact ⟨fun m hm => h.cut_node m (hbelow.subset hm),
    fun m hm => h.cut_before m (hbelow.subset hm), fun m hm => h.cut_through m (hbelow.subset hm),
    fun a b hab => h.add_eq a b (hab.trans hbelow.length_le)⟩

lemma of_mem_children (h : p.Serves read n) (hc : c ∈ n.children) : p.Serves read c :=
  h.of_mem (preorder_subset_of_mem hc (mem_preorder_self c))

lemma of_inField? (h : p.Serves read n) {field : String} (hc : n.inField? field = some c) :
    p.Serves read c :=
  h.of_mem_children (mem_children_of_inField? hc)

/-- A declarator without the value that it is initialised with is a node of the declarator. -/
lemma declaratorTarget (h : p.Serves read n) : p.Serves read n.declaratorTarget := by
  unfold SyntaxNode.declaratorTarget
  split_ifs
  · cases hinner : n.inField? "declarator" with
    | none => exact h
    | some inner => exact h.of_inField? hinner
  · exact h

/-! ### Names -/

lemma text_eq (h : p.Serves read n) : p.text n = pure (n.text read) :=
  h.cut_node n (mem_preorder_self n)

variable [LawfulMonad m]

lemma collapse_eq (h : p.Serves read n) :
    Text.collapse <$> p.text n = pure (Text.collapse (n.text read)) := by
  rw [h.text_eq, map_pure]

lemma nameText_eq (h : p.Serves read n) : p.nameText n = pure (n.nameText read) := by
  unfold Primitives.nameText SyntaxNode.nameText
  split_ifs
  · exact h.collapse_eq
  · exact (h.of_mem (lastNamePart_mem_preorder n)).text_eq
  · exact h.text_eq

lemma declaratorName?_eq (h : p.Serves read n) :
    p.declaratorName? n = pure (n.declaratorName? read) :=
  optionMapM_eq_pure fun _ hm => (h.of_mem (mem_preorder_of_declaredName? hm)).nameText_eq

lemma functionName?_eq (h : p.Serves read n) : p.functionName? n = pure (n.functionName? read) :=
  optionMapM_eq_pure fun _ hm => (h.of_mem (mem_preorder_of_functionNameNode? hm)).nameText_eq

lemma calledName?_eq (h : p.Serves read n) : p.calledName? n = pure (n.calledName? read) := by
  unfold Primitives.calledName? SyntaxNode.calledName?
  split_ifs
  · apply optionMapM_eq_pure
    intro target htarget
    obtain ⟨callee, hcallee, hname⟩ := Option.bind_eq_some_iff.mp htarget
    exact ((h.of_inField? hcallee).of_mem (mem_preorder_of_calleeNode? hname)).text_eq
  · rfl

/-! ### Functions -/

lemma returnType_eq (h : p.Serves read n) (hc : c ∈ n.children) :
    p.returnType n c = pure (n.returnType read c) := by
  rw [Primitives.returnType, h.cut_before n (mem_preorder_self n) c hc, pure_bind]
  rfl

lemma parameters_eq (h : p.Serves read n) : p.parameters n = pure (n.parameters read) := by
  have htexts : (n.namedChildren.filter (·.kind != "comment")).mapM
      (fun c => Text.collapse <$> p.text c) =
      pure ((n.namedChildren.filter (·.kind != "comment")).map
        fun c => Text.collapse (c.text read)) :=
    mapM_eq_pure fun c hc =>
      (h.of_mem_children (List.mem_of_mem_filter (List.mem_of_mem_filter hc))).collapse_eq
  rw [Primitives.parameters, htexts, pure_bind]
  rfl

lemma signature_eq (h : p.Serves read n) : p.signature n = pure (n.signature read) := by
  unfold Primitives.signature SyntaxNode.signature
  cases hbody : n.inField? "body" with
  | none => exact h.collapse_eq
  | some body =>
    have hcut := h.cut_before n (mem_preorder_self n) body (mem_children_of_inField? hbody)
    simp only [hcut, map_pure]

lemma callees_eq (h : p.Serves read n) : p.callees n = pure (n.callees read) := by
  rw [Primitives.callees, filterMapM_eq_pure fun m hm => (h.of_mem hm).calledName?_eq, map_pure]
  rfl

lemma functionFindings_eq (h : p.Serves read n) :
    p.functionFindings n = pure (n.functionFindings read) := by
  unfold Primitives.functionFindings SyntaxNode.functionFindings
  rw [h.functionName?_eq, pure_bind]
  cases SyntaxNode.functionName? read n with
  | none => rfl
  | some name =>
    cases hdeclarator : n.inField? "declarator" with
    | none => rfl
    | some declarator =>
      have hlist : ((functionDeclarator? declarator).bind (·.inField? "parameters")).mapM
          p.parameters = pure (((functionDeclarator? declarator).bind
            (·.inField? "parameters")).map (SyntaxNode.parameters read)) := by
        apply optionMapM_eq_pure
        intro list hlist
        obtain ⟨function, hfunction, hlist⟩ := Option.bind_eq_some_iff.mp hlist
        have hdeclares := (h.of_inField? hdeclarator).of_mem
          (mem_preorder_of_functionDeclarator? hfunction)
        exact (hdeclares.of_inField? hlist).parameters_eq
      have hcallees : (n.inField? "body").mapM p.callees =
          pure ((n.inField? "body").map (SyntaxNode.callees read)) :=
        optionMapM_eq_pure fun _ hbody => (h.of_inField? hbody).callees_eq
      simp only [h.returnType_eq (mem_children_of_inField? hdeclarator), hlist, h.signature_eq,
        hcallees, pure_bind]

/-! ### Types -/

lemma members_eq (h : p.Serves read n) : p.members n = pure (n.members read) := by
  apply mapM_eq_pure
  intro c hc
  have hmember := h.of_mem_children (List.mem_of_mem_filter (List.mem_of_mem_filter hc))
  rw [hmember.text_eq, map_pure]

lemma recordFindings_eq (h : p.Serves read n) :
    p.recordFindings n = pure (n.recordFindings read) := by
  unfold Primitives.recordFindings SyntaxNode.recordFindings
  cases hname : n.inField? "name" with
  | none => rfl
  | some nameNode =>
    cases hbody : n.inField? "body" with
    | none => rfl
    | some body =>
      have hpart := (h.of_inField? hname).of_mem (lastNamePart_mem_preorder nameNode)
      simp only [hpart.text_eq, (h.of_inField? hbody).members_eq, pure_bind]

lemma enumerators_eq (h : p.Serves read n) : p.enumerators n = pure (n.enumerators read) := by
  apply filterMapM_eq_pure
  intro c hc
  apply optionMapM_eq_pure
  intro name hname
  have hvalue := h.of_mem_children (List.mem_of_mem_filter (List.mem_of_mem_filter hc))
  exact (hvalue.of_inField? hname).text_eq

lemma enumerationFindings_eq (h : p.Serves read n) :
    p.enumerationFindings n = pure (n.enumerationFindings read) := by
  unfold Primitives.enumerationFindings SyntaxNode.enumerationFindings
  cases hname : n.inField? "name" with
  | none => rfl
  | some nameNode =>
    cases hbody : n.inField? "body" with
    | none => rfl
    | some body =>
      have hpart := (h.of_inField? hname).of_mem (lastNamePart_mem_preorder nameNode)
      simp only [hpart.text_eq, (h.of_inField? hbody).enumerators_eq, pure_bind]

lemma underlyingType_eq (h : p.Serves read n) :
    p.underlyingType n = pure (n.underlyingType read) := by
  unfold Primitives.underlyingType SyntaxNode.underlyingType
  split_ifs
  · cases hname : n.inField? "name" with
    | none => rfl
    | some name => simp only [(h.of_inField? hname).text_eq, map_pure]
  · exact h.collapse_eq

lemma typeDefinitionFindings_eq (h : p.Serves read n) :
    p.typeDefinitionFindings n = pure (n.typeDefinitionFindings read) := by
  unfold Primitives.typeDefinitionFindings SyntaxNode.typeDefinitionFindings
  rw [h.collapse_eq, pure_bind]
  split_ifs
  · cases hname : n.inField? "name" with
    | none => rfl
    | some name =>
      cases htype : n.inField? "type" with
      | none => rfl
      | some type =>
        simp only [(h.of_inField? hname).text_eq, (h.of_inField? htype).collapse_eq, pure_bind]
  · have hbase : (n.inField? "type").mapM p.underlyingType =
        pure ((n.inField? "type").map (SyntaxNode.underlyingType read)) :=
      optionMapM_eq_pure fun _ htype => (h.of_inField? htype).underlyingType_eq
    rw [hbase, pure_bind]
    apply filterMapM_eq_pure
    intro d hd
    rw [(h.of_mem_children (List.mem_of_mem_filter hd)).declaratorName?_eq, pure_bind]

/-! ### The preprocessor -/

lemma defineFindings_eq (h : p.Serves read n) :
    p.defineFindings n = pure (n.defineFindings read) := by
  unfold Primitives.defineFindings SyntaxNode.defineFindings
  cases hname : n.inField? "name" with
  | none => rfl
  | some nameNode =>
    have hvalue : (n.inField? "value").mapM (fun v => Text.trim <$> p.text v) =
        pure ((n.inField? "value").map fun v => Text.trim (v.text read)) :=
      optionMapM_eq_pure fun v hv => by rw [(h.of_inField? hv).text_eq, map_pure]
    have hparameters : (n.inField? "parameters").mapM
        (fun list => list.namedChildren.mapM p.text) =
        pure ((n.inField? "parameters").map fun list => list.namedChildren.map (·.text read)) :=
      optionMapM_eq_pure fun list hlist => mapM_eq_pure fun c hc =>
        ((h.of_inField? hlist).of_mem_children (List.mem_of_mem_filter hc)).text_eq
    simp only [(h.of_inField? hname).text_eq, hvalue, hparameters, h.collapse_eq, pure_bind]

lemma includeFindings_eq (h : p.Serves read n) :
    p.includeFindings n = pure (n.includeFindings read) := by
  unfold Primitives.includeFindings
  cases hpath : n.inField? "path" with
  | none =>
    rw [SyntaxNode.includeFindings, hpath]
  | some pathNode =>
    simp only [(h.of_inField? hpath).text_eq, pure_bind]
    simp only [SyntaxNode.includeFindings, hpath]
    rfl

/-! ### Variables -/

lemma hasSpecifier_eq (h : p.Serves read n) (kind : String) (words : List String) :
    p.hasSpecifier n kind words = pure (n.hasSpecifier read kind words) := by
  have hfound : n.children.mapM
      (fun c => (fun t => c.kind == kind && words.contains t) <$> p.text c) =
      pure (n.children.map fun c => c.kind == kind && words.contains (c.text read)) :=
    mapM_eq_pure fun c hc => by rw [(h.of_mem_children hc).text_eq, map_pure]
  rw [Primitives.hasSpecifier, hfound, pure_bind, List.any_map]
  rfl

lemma variableFindings_eq (h : p.Serves read n) :
    p.variableFindings n = pure (n.variableFindings read) := by
  unfold Primitives.variableFindings SyntaxNode.variableFindings
  cases htype : n.inField? "type" with
  | none => rfl
  | some type =>
    simp only [(h.of_inField? htype).collapse_eq, h.hasSpecifier_eq, pure_bind]
    apply filterMapM_eq_pure
    intro d hd
    have hdeclarator := h.of_mem_children (List.mem_of_mem_filter hd)
    have hcut := h.cut_through n (mem_preorder_self n) type (mem_children_of_inField? htype)
    split_ifs
    · rfl
    · rw [hdeclarator.declaratorTarget.declaratorName?_eq, pure_bind]
      apply optionMapM_eq_pure
      intro name _
      rw [hcut, map_pure, pure_bind, hdeclarator.collapse_eq, pure_bind]

/-! ### The walk -/

lemma ownFindings_eq (h : p.Serves read n) (scope : Scope) :
    p.ownFindings scope n = pure (n.ownFindings read scope) := by
  unfold Primitives.ownFindings SyntaxNode.ownFindings
  cases NodeRole.ofKind n.kind
  case function => exact h.functionFindings_eq
  case record => exact h.recordFindings_eq
  case enumeration => exact h.enumerationFindings_eq
  case typeDefinition => exact h.typeDefinitionFindings_eq
  case define => exact h.defineFindings_eq
  case include_ => exact h.includeFindings_eq
  case declaration =>
    cases scope with
    | file => exact h.variableFindings_eq
    | nested => rfl
  case block => rfl
  case transparent => rfl

lemma findings_eq (h : p.Serves read tree) :
    p.findings tree = pure (tree.findings read .file) := by
  rw [findings_eq_flatMap_visits]
  apply flatMapM_eq_pure
  intro visit hvisit
  have hbelow := preorder_subset_of_mem_visits .file tree visit hvisit
  exact (h.of_mem (hbelow (mem_preorder_self visit.2))).ownFindings_eq visit.1

/-- The number of a symbol goes into its identifier as a word. -/
lemma toSymbol_toNat (d : SymbolDraft) (file : String) (origin : Origin) (ordinal : Nat) :
    d.toSymbol file origin ordinal.toUInt32.toNat = d.toSymbol file origin ordinal := by
  have hword : ordinal.toUInt32.toNat.toUInt32 = ordinal.toUInt32 := UInt32.ofNat_toNat
  rw [SymbolDraft.toSymbol, SymbolDraft.toSymbol, hword]

/-- Findings are numbered while there are no more of them than nodes. -/
lemma numbered_eq (h : p.Serves read tree) (file : String) (found : List Finding) (ordinal : Nat)
    (hroom : ordinal + found.length ≤ tree.preorder.length) :
    p.numbered file ordinal.toUInt32 found = pure (Extraction.numbered file ordinal found) := by
  induction found generalizing ordinal with
  | nil => rfl
  | cons f found ih =>
    rw [List.length_cons] at hroom
    cases f with
    | symbol draft callees =>
      have hnext : p.add ordinal.toUInt32 1 = pure (ordinal + 1).toUInt32 :=
        h.add_eq ordinal 1 (by omega)
      rw [numbered, hnext, pure_bind, ih (ordinal + 1) (by omega), pure_bind, toSymbol_toNat]
      rfl
    | include_ target style =>
      rw [numbered, ih ordinal (by omega)]
      rfl

/-! ### Scores -/

lemma isDecision_eq (h : p.Serves read n) : p.isDecision n = pure (n.isDecision read) := by
  unfold Primitives.isDecision SyntaxNode.isDecision
  split_ifs
  · rfl
  · cases hoperator : n.inField? "operator" with
    | none => rfl
    | some op => simp only [(h.of_inField? hoperator).text_eq, map_pure]
  · rfl

end Serves

section DecisionPoints

variable [LawfulMonad m]

mutual

/-- The decision points of a tree are counted. -/
theorem decisionPoints_eq : ∀ n : SyntaxNode, p.Serves read n →
    p.decisionPoints n = pure (n.decisionCount read).toUInt32
  | ⟨kind, named, field, span, row, children⟩ => by
    intro h
    have hcount := decisionCount_eq read ⟨kind, named, field, span, row, children⟩
    have hle := decisionCount_le read ⟨kind, named, field, span, row, children⟩
    rw [hcount] at hle ⊢
    rw [decisionPoints, h.isDecision_eq, pure_bind]
    split_ifs at hle ⊢
    · exact decisionPointsAll_eq children 1 (fun c hc => h.of_mem_children hc)
        fun a b hab => h.add_eq a b (Nat.le_trans hab hle)
    · exact decisionPointsAll_eq children 0 (fun c hc => h.of_mem_children hc)
        fun a b hab => h.add_eq a b (Nat.le_trans hab hle)

/-- The decision points of a list of trees are added, if the sums up to their number can be. -/
theorem decisionPointsAll_eq : ∀ (cs : List SyntaxNode) (total : Nat),
    (∀ c ∈ cs, p.Serves read c) →
    (∀ a b, a + b ≤ total + decisionCountAll read cs →
      p.add a.toUInt32 b.toUInt32 = pure (a + b).toUInt32) →
    p.decisionPointsAll total.toUInt32 cs = pure (total + decisionCountAll read cs).toUInt32
  | [] => fun _ _ _ => rfl
  | c :: cs => by
    intro total hcs hadd
    rw [decisionCountAll_cons] at hadd ⊢
    rw [decisionPointsAll, decisionPoints_eq c (hcs c List.mem_cons_self), pure_bind,
      hadd _ _ (by omega), pure_bind, ← Nat.add_assoc]
    exact decisionPointsAll_eq cs _ (fun d hd => hcs d (List.mem_cons_of_mem _ hd))
      fun a b hab => hadd a b (by omega)

end

end DecisionPoints

namespace Serves

variable [LawfulMonad m]

lemma namedScore?_eq (h : p.Serves read n) : p.namedScore? n = pure (n.namedScore? read) := by
  unfold Primitives.namedScore? SyntaxNode.namedScore?
  split_ifs
  · rw [h.functionName?_eq, pure_bind]
    cases n.functionName? read with
    | none => rfl
    | some name =>
      cases hbody : n.inField? "body" with
      | none => rfl
      | some body =>
        have hcount := decisionCount_le read body
        have hsmaller := length_preorder_lt (mem_children_of_inField? hbody)
        have hadd : p.add 1 (body.decisionCount read).toUInt32 = pure (body.bodyScore read) :=
          h.add_eq 1 _ (by omega)
        simp only [decisionPoints_eq body (h.of_inField? hbody), hadd, pure_bind]
  · rfl

lemma measure_eq (h : p.Serves read tree) (measurer : Measurer) :
    p.measure measurer tree = pure (measurer.measure read tree) := by
  cases measurer with
  | cyclomatic =>
    rw [Primitives.measure, filterMapM_eq_pure fun n hn => (h.of_mem hn).namedScore?_eq, pure_bind]
    rfl
  | unmeasured => rfl

/-- An extraction whose operations succeed gives what is extracted from the tree. -/
theorem ofTree_eq (h : p.Serves read tree) (measurer : Measurer) (file : String) :
    p.ofTree measurer file tree = pure (Extraction.ofTree measurer file read tree) := by
  have hroom : 0 + (tree.findings read .file).length ≤ tree.preorder.length := by
    rw [Nat.zero_add]
    exact length_findings_le read .file tree
  have hnumbered : p.numbered file 0 (tree.findings read .file) =
      pure (Extraction.numbered file 0 (tree.findings read .file)) :=
    h.numbered_eq file _ 0 hroom
  simp only [Primitives.ofTree, h.findings_eq, hnumbered, h.measure_eq, pure_bind]
  rfl

end Serves

/-! ### Operations that always give something, and operations that stop at a fault -/

lemma serves_total (text : String) (tree : SyntaxNode) :
    (total text).Serves (readingOf text) tree :=
  ⟨fun _ _ => rfl, fun _ _ _ _ => rfl, fun _ _ _ _ => rfl,
    fun a b _ => (UInt32.ofNat_add a b).symm⟩

lemma checked_cut_of_fits {text : String} {s : Span} (h : s.Fits text) :
    (checked text).cut s = pure (readingOf text s) := by
  simp only [checked, cut?_of_fits h]
  rfl

/-- For a placed tree with fewer nodes than there are words, no operation meets a fault. -/
theorem serves_checked {text : String} {tree : SyntaxNode} (hplaced : tree.IsPlaced text)
    (hsize : tree.preorder.length < wordValues 32) :
    (checked text).Serves (readingOf text) tree := by
  refine ⟨fun n hn => checked_cut_of_fits (hplaced n hn).1,
    fun n hn c hc => checked_cut_of_fits (hplaced.fits_before hn hc),
    fun n hn c hc => checked_cut_of_fits (hplaced.fits_through hn hc), fun a b hab => ?_⟩
  have hbound : a + b < 2 ^ 32 := Nat.lt_of_le_of_lt hab hsize
  have ha : a.toUInt32.toNat = a := Nat.mod_eq_of_lt (by omega)
  have hb : b.toUInt32.toNat = b := Nat.mod_eq_of_lt (by omega)
  have hsum : a.toUInt32 + b.toUInt32 = (a + b).toUInt32 := (UInt32.ofNat_add a b).symm
  simp only [checked, ha, hb, if_pos (show a + b < wordValues 32 from hbound), hsum]
  rfl

end Primitives

namespace FileContent

variable {m : Type → Type} [Monad m] [LawfulMonad m] {content : FileContent} {tree : SyntaxNode}

/-- If the operations succeed for the tree of a file, what they give is what is extracted. -/
theorem extractBy_eq_of_serves {primitives : String → Primitives m}
    (h : ∀ tree, content.tree = some tree → (primitives (Text.decodeLossy content.bytes)).Serves
      (readingOf (Text.decodeLossy content.bytes)) tree) (measurer : Measurer) (file : String) :
    content.extractBy primitives measurer file = pure (content.extract measurer file) := by
  unfold extractBy extract
  cases Language.ofPath? file with
  | none => rfl
  | some language =>
    cases htree : content.tree with
    | none => rfl
    | some tree => simp only [(h tree htree).ofTree_eq, map_pure]

/-- With operations that always give something, the extraction is carried out operation by
operation. -/
theorem extractBy_total (content : FileContent) (measurer : Measurer) (file : String) :
    (content.extractBy Primitives.total measurer file).run = content.extract measurer file :=
  extractBy_eq_of_serves (fun tree _ => Primitives.serves_total _ tree) measurer file

/-- If the tree of a file is placed in its text and has fewer than `2 ^ 32` nodes, an extraction
that stops at every range that cannot be cut out and at every sum that is no word is not
stopped.  It gives what is extracted from the file, which for the extension of a source language is
an extraction. -/
theorem extractBy_checked_of_isPlaced (htree : content.tree = some tree)
    (hplaced : tree.IsPlaced (Text.decodeLossy content.bytes))
    (hsize : tree.preorder.length < wordValues 32) (measurer : Measurer) (file : String) :
    content.extractBy Primitives.checked measurer file = .ok (content.extract measurer file) ∧
      ((Language.ofPath? file).isSome = true → ∃ e, content.extract measurer file = .ok e) := by
  refine ⟨extractBy_eq_of_serves (fun tree' htree' => ?_) measurer file, fun hfile => ?_⟩
  · obtain rfl := Option.some.inj (htree.symm.trans htree')
    exact Primitives.serves_checked hplaced hsize
  · exact ⟨_, extract_eq measurer hfile htree⟩

/-- A file with a letter of two bytes, in which a semicolon is missing: the parser has put in an
empty one. -/
def missingSemicolon : FileContent where
  bytes := "char *s = \"\u00e9\"\nint f(void) { return s && g(); }\n".toUTF8
  tree := some
    ⟨"translation_unit", true, none, ⟨0, 48⟩, 0, [
      ⟨"declaration", true, none, ⟨0, 14⟩, 0, [
        ⟨"primitive_type", true, some "type", ⟨0, 4⟩, 0, []⟩,
        ⟨"init_declarator", true, some "declarator", ⟨5, 14⟩, 0, [
          ⟨"pointer_declarator", true, some "declarator", ⟨5, 7⟩, 0, [
            ⟨"identifier", true, some "declarator", ⟨6, 7⟩, 0, []⟩]⟩,
          ⟨"string_literal", true, some "value", ⟨10, 14⟩, 0, []⟩]⟩,
        ⟨";", false, none, ⟨14, 14⟩, 0, []⟩]⟩,
      ⟨"function_definition", true, none, ⟨15, 47⟩, 1, [
        ⟨"primitive_type", true, some "type", ⟨15, 18⟩, 1, []⟩,
        ⟨"function_declarator", true, some "declarator", ⟨19, 26⟩, 1, [
          ⟨"identifier", true, some "declarator", ⟨19, 20⟩, 1, []⟩,
          ⟨"parameter_list", true, some "parameters", ⟨20, 26⟩, 1, [
            ⟨"parameter_declaration", true, none, ⟨21, 25⟩, 1, []⟩]⟩]⟩,
        ⟨"compound_statement", true, some "body", ⟨27, 47⟩, 1, [
          ⟨"return_statement", true, none, ⟨29, 45⟩, 1, [
            ⟨"binary_expression", true, none, ⟨36, 44⟩, 1, [
              ⟨"identifier", true, some "left", ⟨36, 37⟩, 1, []⟩,
              ⟨"&&", false, some "operator", ⟨38, 40⟩, 1, []⟩,
              ⟨"call_expression", true, some "right", ⟨41, 44⟩, 1, [
                ⟨"identifier", true, some "function", ⟨41, 42⟩, 1, []⟩]⟩]⟩]⟩]⟩]⟩]⟩

/-- This file is extracted without a fault, and the variable and the function are found. -/
theorem extractBy_checked_missingSemicolon :
    missingSemicolon.tree.isSome = true ∧
      (missingSemicolon.tree.get rfl).IsPlaced (Text.decodeLossy missingSemicolon.bytes) ∧
      (missingSemicolon.tree.get rfl).preorder.length < wordValues 32 ∧
      ∀ measurer, ∃ e,
        missingSemicolon.extractBy Primitives.checked measurer "src/a.c" = .ok (.ok e) ∧
        e.symbols.map (·.declaration) = ["char *s = \"\u00e9\";", "int f(void)"] := by
  have htree : missingSemicolon.tree = some (missingSemicolon.tree.get rfl) := rfl
  have hplaced : (missingSemicolon.tree.get rfl).IsPlaced
      (Text.decodeLossy missingSemicolon.bytes) := by
    decide +kernel
  have hsize : (missingSemicolon.tree.get rfl).preorder.length < wordValues 32 := by
    decide +kernel
  have hfile : (Language.ofPath? "src/a.c").isSome = true := by decide
  refine ⟨rfl, hplaced, hsize, fun measurer => ?_⟩
  obtain ⟨hchecked, -⟩ := extractBy_checked_of_isPlaced htree hplaced hsize measurer "src/a.c"
  refine ⟨_, hchecked.trans (congrArg _ (extract_eq measurer hfile htree)), ?_⟩
  rw [Extraction.symbols_ofTree, List.map_map]
  simp only [Function.comp_def, Extraction.declaration_scored]
  decide +kernel

/-- A function with a body that stands before it is stopped at its signature. -/
example : (FileContent.extractBy Primitives.checked .unmeasured "src/a.c"
    { bytes := "{} int f()".toUTF8
      tree := some ⟨"function_definition", true, none, ⟨3, 10⟩, 0, [
        ⟨"function_declarator", true, some "declarator", ⟨7, 10⟩, 0, [
          ⟨"identifier", true, some "declarator", ⟨7, 8⟩, 0, []⟩]⟩,
        ⟨"compound_statement", true, some "body", ⟨0, 2⟩, 0, []⟩]⟩ }) =
    .error (.cut ⟨3, 0⟩) := by
  rfl

end FileContent

end CodeAtlas
