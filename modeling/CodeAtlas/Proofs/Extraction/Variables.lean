import CodeAtlas.Proofs.Extraction.Sources

/-!
# The variables of a file

Only declarations at file scope declare variables that are indexed.  Which these are is said of the
places of the tree: a declaration to which the walk takes every step, below no function, record or
block (`SyntaxNode.fileScopeDeclarations`).  In particular these are all declarations below nothing
but nodes of no interest.  Each of them gives one variable for each of its declarators that has a
name and is no prototype, and there are no other variables (`FileContent.variables_at_fileScope`).
-/

namespace CodeAtlas

/-- The kinds of nodes inside which nothing is at file scope. -/
def enclosingKinds : List String :=
  ["function_definition", "struct_specifier", "union_specifier", "class_specifier",
    "compound_statement", "field_declaration_list", "parameter_list", "lambda_expression"]

/-- The kinds of nodes at which the walk does anything but go on to all children. -/
def notableKinds : List String :=
  ["function_definition", "struct_specifier", "union_specifier", "class_specifier",
    "enum_specifier", "type_definition", "alias_declaration", "preproc_def",
    "preproc_function_def", "preproc_include", "declaration", "compound_statement",
    "field_declaration_list", "parameter_list", "lambda_expression"]

namespace NodeRole

/-- Nodes of the enclosing kinds open another scope. -/
lemma ofKind_of_mem_enclosingKinds : ∀ kind ∈ enclosingKinds,
    ofKind kind ∈ [NodeRole.function, .record, .block] := by
  decide

/-- Nodes of all but the notable kinds are of no interest. -/
lemma ofKind_of_notMem_notableKinds {kind : String} (h : kind ∉ notableKinds) :
    ofKind kind = .transparent := by
  simp only [notableKinds, List.mem_cons, List.not_mem_nil, or_false, not_or] at h
  simp [ofKind, h]

/-- Variables come from declarations. -/
lemma eq_declaration_of_symbolKind? {kind : String}
    (h : (ofKind kind).symbolKind? = some .global) : kind = "declaration" := by
  have hrole : ofKind kind = .declaration := eq_of_symbolKind? h rfl
  unfold ofKind at hrole
  split_ifs at hrole with _ _ _ _ _ _ hkind
  exact beq_iff_eq.mp hkind

end NodeRole

namespace SyntaxNode

/-- Whether all nodes above a place are of no interest to the walk. -/
def Place.isBelowNothing (p : Place) : Bool :=
  p.above.all fun n => !notableKinds.contains n.kind

/-- The walk comes to a place below nothing, at file scope. -/
lemma Place.isReached_of_isBelowNothing {p : Place} (h : p.isBelowNothing = true) :
    p.isReached = true ∧ p.scope .file = .file := by
  have hrole : ∀ s ∈ p.steps, NodeRole.ofKind s.parent.kind = .transparent := by
    intro s hs
    have hparent := List.all_eq_true.mp h s.parent (List.mem_map_of_mem hs)
    exact NodeRole.ofKind_of_notMem_notableKinds (by simpa using hparent)
  constructor
  · refine List.all_eq_true.mpr fun s hs => ?_
    rw [Step.isTaken, hrole s hs]
  · rw [Place.scope_eq_file_iff]
    intro n hn
    obtain ⟨s, hs, rfl⟩ := List.mem_map.mp hn
    rw [hrole s hs]
    decide

/-- The places of a tree where the walk comes to a declaration at file scope. -/
def fileScopeDeclarations (tree : SyntaxNode) : List Place :=
  tree.places.filter fun p =>
    p.isReached && (p.node.kind == "declaration" && decide (p.scope .file = .file))

/-- The declarators of a declaration that declare variables: they have a name and are no
prototypes.  A declaration without a type has none. -/
def variableDeclarators (read : Reading) (n : SyntaxNode) : List SyntaxNode :=
  if (n.inField? "type").isSome then
    (n.allInField "declarator").filter fun d =>
      !isPrototype (declaratorTarget d) && (declaratorName? read (declaratorTarget d)).isSome
  else []

/-- Whether a visit is that of a declaration at file scope. -/
def isFileScopeDeclaration (v : Scope × SyntaxNode) : Bool :=
  v.2.kind == "declaration" && decide (v.1 = .file)

/-- The declarators that a visit gives variables for, each with its declaration. -/
def variableSources (read : Reading) (v : Scope × SyntaxNode) : List (SyntaxNode × SyntaxNode) :=
  if isFileScopeDeclaration v then (variableDeclarators read v.2).map fun d => (v.2, d) else []

/-- A draft is that of the variable which a declarator of a declaration declares. -/
structure DeclaresVariable (read : Reading) (n d : SyntaxNode) (draft : SymbolDraft) : Prop where
  name_eq : declaratorName? read (declaratorTarget d) = some draft.name
  line_eq : draft.line = d.line
  type_eq : ∃ type, n.inField? "type" = some type ∧
    draft.declaration = Text.collapse (read ⟨n.span.start, type.span.stop⟩) ++ " " ++
      Text.collapse (d.text read) ++ ";" ∧
    draft.detail =
      .global (withPointers (Text.collapse (type.text read)) (pointerDepth (declaratorTarget d)))
        (hasSpecifier read n "storage_class_specifier" ["static"])
        (hasSpecifier read n "type_qualifier" ["const", "constexpr"])

/-- The drafts of a declaration at file scope are those of its variables. -/
lemma forall₂_variableFindings (read : Reading) (n : SyntaxNode) :
    List.Forall₂ (fun p d => DeclaresVariable read n d p.1)
      ((variableFindings read n).filterMap Finding.draft?) (variableDeclarators read n) := by
  unfold variableFindings variableDeclarators
  cases htype : n.inField? "type" with
  | none => exact .nil
  | some type =>
    rw [Option.isSome_some, if_pos rfl, List.filterMap_filterMap]
    refine forall₂_filterMap_filter (fun d => ?_) (fun d p hp => ?_) _
    · by_cases hprototype : isPrototype (declaratorTarget d) = true
      · simp [hprototype]
      · cases hname : declaratorName? read (declaratorTarget d) with
        | none => simp [hprototype, hname]
        | some name => simp [hprototype, hname, Finding.draft?]
    · obtain ⟨f, hf, hdraft⟩ := Option.bind_eq_some_iff.mp hp
      simp only at hf
      split_ifs at hf
      obtain ⟨name, hname, rfl⟩ := Option.map_eq_some_iff.mp hf
      rw [← Option.some.inj hdraft]
      exact ⟨hname, rfl, type, htype, rfl, rfl⟩

/-- What a visited node gives for variables is what its declarators give. -/
lemma forall₂_variableSources (read : Reading) (v : Scope × SyntaxNode) :
    List.Forall₂ (fun p x => DeclaresVariable read x.1 x.2 p.1)
      (draftsOfKind .global (visitFindings read v)) (variableSources read v) := by
  rw [variableSources, isFileScopeDeclaration]
  by_cases hkind : v.2.kind = "declaration"
  · have hrole : NodeRole.ofKind v.2.kind = .declaration := by
      rw [hkind]
      rfl
    rw [draftsOfKind_of_role (by rw [hrole]; rfl), visitFindings, ownFindings, hrole]
    by_cases hscope : v.1 = .file
    · simp only [hscope, hkind, decide_true, beq_self_eq_true, Bool.and_self, if_true,
        List.forall₂_map_right_iff]
      exact forall₂_variableFindings read v.2
    · simp [hscope]
  · rw [draftsOfKind_of_otherRole fun h => hkind (NodeRole.eq_declaration_of_symbolKind? h)]
    simp [hkind]

/-- The sources of the visits are the declarators of the declarations at file scope. -/
lemma flatMap_variableSources (read : Reading) (tree : SyntaxNode) :
    (tree.visits .file).flatMap (variableSources read) =
      tree.fileScopeDeclarations.flatMap fun p =>
        (variableDeclarators read p.node).map fun d => (p.node, d) := by
  refine flatMap_visits (fun v hv => ?_) .file tree
  rw [isFileScopeDeclaration, Bool.and_eq_true, beq_iff_eq] at hv
  rw [hv.1]
  decide

/-- A declaration at file scope stands in no function, record or block. -/
lemma notMem_enclosingKinds {tree : SyntaxNode} {p : Place} (hp : p ∈ tree.fileScopeDeclarations) :
    ∀ n ∈ p.above, n.kind ∉ enclosingKinds := by
  have hfile := (List.mem_filter.mp hp).2
  simp only [Bool.and_eq_true, decide_eq_true_eq] at hfile
  intro n hn hkind
  exact p.scope_eq_file_iff.mp hfile.2.2 n hn (NodeRole.ofKind_of_mem_enclosingKinds n.kind hkind)

/-- All declarations below nothing are at file scope. -/
lemma filter_fileScopeDeclarations (tree : SyntaxNode) :
    tree.fileScopeDeclarations.filter Place.isBelowNothing =
      tree.places.filter fun p => p.isBelowNothing && p.node.kind == "declaration" := by
  rw [fileScopeDeclarations, List.filter_filter]
  refine List.filter_congr fun p _ => ?_
  cases hbelow : p.isBelowNothing with
  | false => rfl
  | true =>
    obtain ⟨hreached, hfile⟩ := p.isReached_of_isBelowNothing hbelow
    simp [hreached, hfile]

end SyntaxNode

/-- The draft that a symbol was made of. -/
def Symbol.draft (s : Symbol) : SymbolDraft := ⟨s.name, s.line, s.declaration, s.detail⟩

/-- Scores leave everything but functions as it is. -/
lemma Extraction.scored_of_kind_ne (scores : Scores) {s : Symbol} (hkind : s.kind ≠ .function) :
    scored scores s = s := by
  obtain ⟨id, name, file, line, declaration, origin, detail⟩ := s
  unfold scored
  split
  · cases detail <;> first | rfl | exact absurd rfl hkind
  · rfl

namespace FileContent

/-- Every file with a supported extension and a syntax tree is extracted, and its variables are
those which the declarations at file scope declare: one for each of their declarators that has a
name and is no prototype, in the order of the tree.  None of these declarations stands in a
function, record or block, at whatever depth, and every declaration of the tree that stands below
nothing but nodes of no interest is one of them, exactly once. -/
theorem variables_at_fileScope (measurer : Measurer) {file : String} {content : FileContent}
    {tree : SyntaxNode} (hfile : (Language.ofPath? file).isSome = true)
    (htree : content.tree = some tree) :
    let read := readingOf (Text.decodeLossy content.bytes)
    let declarations := tree.fileScopeDeclarations
    (∃ e, content.extract measurer file = .ok e ∧
      List.Forall₂ (fun s x => s.file = file ∧ SyntaxNode.DeclaresVariable read x.1 x.2 s.draft)
        (e.symbols.filter fun s => s.kind == .global)
        (declarations.flatMap fun p =>
          (SyntaxNode.variableDeclarators read p.node).map fun d => (p.node, d))) ∧
    tree.places.map (·.node) = tree.preorder ∧
    (∀ p ∈ declarations, p ∈ tree.places ∧ p.node.kind = "declaration" ∧
      ∀ n ∈ p.above, n.kind ∉ enclosingKinds) ∧
    declarations.filter SyntaxNode.Place.isBelowNothing =
      tree.places.filter fun p => p.isBelowNothing && p.node.kind == "declaration" := by
  intro read declarations
  refine ⟨⟨_, extract_eq measurer hfile htree, ?_⟩, SyntaxNode.map_node_places tree, ?_,
    SyntaxNode.filter_fileScopeDeclarations tree⟩
  · rw [Extraction.filter_symbols, List.forall₂_map_left_iff,
      ← SyntaxNode.flatMap_variableSources]
    refine (Extraction.forall₂_entries (SyntaxNode.forall₂_variableSources read)).imp ?_
    rintro _ x ⟨p, ⟨i, rfl⟩, hdeclares⟩
    obtain ⟨type, -, -, hdetail⟩ := hdeclares.type_eq
    have hkind : (p.1.toSymbol file .syntaxTree i).kind ≠ .function := by
      rw [show (p.1.toSymbol file .syntaxTree i).kind = p.1.detail.kind from rfl, hdetail]
      exact nofun
    rw [Extraction.scored_of_kind_ne _ hkind]
    exact ⟨rfl, hdeclares⟩
  · intro p hp
    have hplace := List.mem_filter.mp hp
    simp only [Bool.and_eq_true, beq_iff_eq] at hplace
    exact ⟨hplace.1, hplace.2.2.1, SyntaxNode.notMem_enclosingKinds hp⟩

/-- A file with a declaration of a variable, a pointer and a function, and a function that declares
a variable of its own. -/
def localVariable : FileContent where
  bytes := "int a, *b, f(int);\nvoid g() { int c; }\n".toUTF8
  tree := some
    ⟨"translation_unit", true, none, ⟨0, 39⟩, 0, [
      ⟨"declaration", true, none, ⟨0, 18⟩, 0, [
        ⟨"primitive_type", true, some "type", ⟨0, 3⟩, 0, []⟩,
        ⟨"identifier", true, some "declarator", ⟨4, 5⟩, 0, []⟩,
        ⟨"pointer_declarator", true, some "declarator", ⟨7, 9⟩, 0, [
          ⟨"identifier", true, some "declarator", ⟨8, 9⟩, 0, []⟩]⟩,
        ⟨"function_declarator", true, some "declarator", ⟨11, 17⟩, 0, [
          ⟨"identifier", true, some "declarator", ⟨11, 12⟩, 0, []⟩,
          ⟨"parameter_list", true, some "parameters", ⟨12, 17⟩, 0, []⟩]⟩]⟩,
      ⟨"function_definition", true, none, ⟨19, 38⟩, 1, [
        ⟨"primitive_type", true, some "type", ⟨19, 23⟩, 1, []⟩,
        ⟨"function_declarator", true, some "declarator", ⟨24, 27⟩, 1, [
          ⟨"identifier", true, some "declarator", ⟨24, 25⟩, 1, []⟩,
          ⟨"parameter_list", true, some "parameters", ⟨25, 27⟩, 1, []⟩]⟩,
        ⟨"compound_statement", true, some "body", ⟨28, 38⟩, 1, [
          ⟨"declaration", true, none, ⟨30, 36⟩, 1, [
            ⟨"primitive_type", true, some "type", ⟨30, 33⟩, 1, []⟩,
            ⟨"identifier", true, some "declarator", ⟨34, 35⟩, 1, []⟩]⟩]⟩]⟩]⟩

/-- Of this file the variable and the pointer are indexed. -/
theorem variables_at_fileScope_localVariable :
    (Language.ofPath? "src/a.c").isSome = true ∧ localVariable.tree.isSome = true ∧
      ∃ e, localVariable.extract .cyclomatic "src/a.c" = .ok e ∧
        (e.symbols.filter fun s => s.kind == .global).map (·.name) = ["a", "b"] := by
  have hfile : (Language.ofPath? "src/a.c").isSome = true := by decide
  have htree : localVariable.tree = some (localVariable.tree.get rfl) := rfl
  obtain ⟨⟨e, hextract, hvariables⟩, -⟩ := variables_at_fileScope .cyclomatic hfile htree
  refine ⟨hfile, rfl, e, hextract, ?_⟩
  let read := readingOf (Text.decodeLossy localVariable.bytes)
  -- The symbols have the names of the declarators.
  have hnames : List.Forall₂ (· = ·)
      ((e.symbols.filter fun s => s.kind == .global).map fun s => some s.name)
      (((localVariable.tree.get rfl).fileScopeDeclarations.flatMap fun p =>
        (SyntaxNode.variableDeclarators read p.node).map fun d => (p.node, d)).map
          fun x => SyntaxNode.declaratorName? read (SyntaxNode.declaratorTarget x.2)) := by
    rw [List.forall₂_map_left_iff, List.forall₂_map_right_iff]
    exact hvariables.imp fun s x h => h.2.name_eq.symm
  have hdeclared : ((localVariable.tree.get rfl).fileScopeDeclarations.flatMap fun p =>
      (SyntaxNode.variableDeclarators read p.node).map fun d => (p.node, d)).map
        (fun x => SyntaxNode.declaratorName? read (SyntaxNode.declaratorTarget x.2)) =
      ["a", "b"].map some := by
    decide +kernel
  rw [List.forall₂_eq_eq_eq, hdeclared] at hnames
  refine List.map_injective_iff.mpr (fun _ _ => Option.some.inj) ?_
  rw [← hnames, List.map_map]
  rfl

end FileContent

end CodeAtlas
