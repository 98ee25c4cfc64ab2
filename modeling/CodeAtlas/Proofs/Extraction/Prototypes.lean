import CodeAtlas.Proofs.Extraction.Variables
import CodeAtlas.Proofs.SyntaxTree.Layers

/-!
# Functions among the variables of a file

A declaration at file scope may declare functions beside its variables.  C tells the two apart at
the name: `int (*f(int))(int)` declares a function, which returns a pointer, and `int (*f)(int)` a
variable, which is one.  What is left out of the variables of a file is told from the outside
instead, by whether the declarator is a bare function.  So a function becomes a variable exactly if
its declarator is none, although its declaration has a type (`FileContent.prototypes_at_fileScope`):
if it returns a pointer to a function or to an array, or if its name is in parentheses.
-/

namespace CodeAtlas

namespace SyntaxNode

variable {n d : SyntaxNode} {read : Reading}

/-- A declarator declares the name that it declares without the value that it is initialised
with. -/
lemma declaredName?_declaratorTarget (d : SyntaxNode) :
    declaredName? (declaratorTarget d) = declaredName? d := by
  rw [declaratorTarget]
  split_ifs with hkind
  · cases hinner : d.inField? "declarator" with
    | none => rfl
    | some inner =>
      have hname : isName d.kind = false := by
        rw [beq_iff_eq.mp hkind]
        decide
      rw [Option.getD_some, declaredName?_eq d, hname, if_neg Bool.false_ne_true, heldDeclarator?,
        hinner, Option.some_or, Option.bind_some]
  · rfl

/-- A declarator of a function has a name. -/
lemma DeclaresFunction.isSome_declaratorName? (h : d.DeclaresFunction) :
    (declaratorName? read (declaratorTarget d)).isSome = true := by
  obtain ⟨outer, f, parens, name, hdeclares, -⟩ := h
  rw [declaratorName?, declaredName?_declaratorTarget, hdeclares.declaredName?_eq]
  rfl

/-- A function becomes a variable exactly if its declaration has a type and its declarator is no
bare function. -/
lemma mem_variableDeclarators_iff (hd : d ∈ n.allInField "declarator") (h : d.DeclaresFunction) :
    d ∈ variableDeclarators read n ↔
      (n.inField? "type").isSome = true ∧ ¬(declaratorTarget d).IsBareFunction := by
  rw [variableDeclarators, ← isPrototype_iff]
  split_ifs with htype
  · rw [List.mem_filter, h.isSome_declaratorName?]
    simp [hd, htype]
  · simp [htype]

end SyntaxNode

/-- Variables have the names of their declarators. -/
lemma SyntaxNode.map_name_of_forall₂ {read : Reading} {symbols : List Symbol}
    {sources : List (SyntaxNode × SyntaxNode)}
    (h : List.Forall₂ (fun s x => DeclaresVariable read x.1 x.2 s.draft) symbols sources) :
    (symbols.map fun s => some s.name) =
      sources.map fun x => declaratorName? read (declaratorTarget x.2) := by
  rw [← List.forall₂_eq_eq_eq, List.forall₂_map_left_iff, List.forall₂_map_right_iff]
  exact h.imp fun s x hdeclares => hdeclares.name_eq.symm

/-- The variables of a file are those of the declarators at file scope that declare one. -/
lemma Extraction.forall₂_variables (measurer : Measurer) (file : String) (read : Reading)
    (tree : SyntaxNode) :
    List.Forall₂ (fun s x => SyntaxNode.DeclaresVariable read x.1 x.2 s.draft)
      ((ofTree measurer file read tree).symbols.filter fun s => s.kind == .global)
      (tree.fileScopeDeclarations.flatMap fun p =>
        (SyntaxNode.variableDeclarators read p.node).map fun d => (p.node, d)) := by
  rw [filter_symbols, List.forall₂_map_left_iff, ← SyntaxNode.flatMap_variableSources]
  refine (forall₂_entries (SyntaxNode.forall₂_variableSources read)).imp ?_
  rintro _ x ⟨p, ⟨i, rfl⟩, hdeclares⟩
  obtain ⟨type, -, -, hdetail⟩ := hdeclares.type_eq
  have hkind : (p.1.toSymbol file .syntaxTree i).kind ≠ .function := by
    rw [show (p.1.toSymbol file .syntaxTree i).kind = p.1.detail.kind from rfl, hdetail]
    exact nofun
  rw [scored_of_kind_ne _ hkind]
  exact hdeclares

namespace FileContent

/-- Every file with a supported extension and a syntax tree is extracted, and its variables are
those of declarators at file scope.  A declarator of a function, which is one with nothing but
parentheses between the name and a function declarator around it, is among these if and only if
its declaration has a type and it is no bare function: no function declarator below pointers and
references alone with an operand that is not in parentheses. -/
theorem prototypes_at_fileScope (measurer : Measurer) {file : String} {content : FileContent}
    {tree : SyntaxNode} (hfile : (Language.ofPath? file).isSome = true)
    (htree : content.tree = some tree) :
    let read := readingOf (Text.decodeLossy content.bytes)
    (∃ e, content.extract measurer file = .ok e ∧
      List.Forall₂ (fun s x => SyntaxNode.DeclaresVariable read x.1 x.2 s.draft)
        (e.symbols.filter fun s => s.kind == .global)
        (tree.fileScopeDeclarations.flatMap fun p =>
          (SyntaxNode.variableDeclarators read p.node).map fun d => (p.node, d))) ∧
    ∀ p ∈ tree.fileScopeDeclarations, ∀ d ∈ p.node.allInField "declarator",
      d.DeclaresFunction →
        (d ∈ SyntaxNode.variableDeclarators read p.node ↔
          (p.node.inField? "type").isSome = true ∧
            ¬(SyntaxNode.declaratorTarget d).IsBareFunction) := by
  intro read
  refine ⟨⟨_, extract_eq measurer hfile htree,
    Extraction.forall₂_variables measurer file read tree⟩, ?_⟩
  intro p _ d hd hfunction
  exact SyntaxNode.mem_variableDeclarators_iff hd hfunction

/-- The declarator of a function that returns a pointer. -/
def starredFunction : SyntaxNode :=
  ⟨"pointer_declarator", true, some "declarator", ⟨4, 13⟩, 0, [
    ⟨"*", false, none, ⟨4, 5⟩, 0, []⟩,
    ⟨"function_declarator", true, some "declarator", ⟨5, 13⟩, 0, [
      ⟨"identifier", true, some "declarator", ⟨5, 7⟩, 0, []⟩,
      ⟨"parameter_list", true, some "parameters", ⟨7, 13⟩, 0, [
        ⟨"(", false, none, ⟨7, 8⟩, 0, []⟩,
        ⟨"parameter_declaration", true, none, ⟨8, 12⟩, 0, [
          ⟨"primitive_type", true, some "type", ⟨8, 12⟩, 0, []⟩]⟩,
        ⟨")", false, none, ⟨12, 13⟩, 0, []⟩]⟩]⟩]⟩

/-- The declarator of a function with its name in parentheses. -/
def parenthesizedFunction : SyntaxNode :=
  ⟨"function_declarator", true, some "declarator", ⟨48, 57⟩, 0, [
    ⟨"parenthesized_declarator", true, some "declarator", ⟨48, 52⟩, 0, [
      ⟨"(", false, none, ⟨48, 49⟩, 0, []⟩,
      ⟨"identifier", true, none, ⟨49, 51⟩, 0, []⟩,
      ⟨")", false, none, ⟨51, 52⟩, 0, []⟩]⟩,
    ⟨"parameter_list", true, some "parameters", ⟨52, 57⟩, 0, [
      ⟨"(", false, none, ⟨52, 53⟩, 0, []⟩,
      ⟨"parameter_declaration", true, none, ⟨53, 56⟩, 0, [
        ⟨"primitive_type", true, some "type", ⟨53, 56⟩, 0, []⟩]⟩,
      ⟨")", false, none, ⟨56, 57⟩, 0, []⟩]⟩]⟩

/-- A declaration of these two functions and three variables. -/
def functionsAndVariables : SyntaxNode :=
  ⟨"declaration", true, none, ⟨0, 58⟩, 0, [
    ⟨"primitive_type", true, some "type", ⟨0, 3⟩, 0, []⟩,
    starredFunction,
    ⟨",", false, none, ⟨13, 14⟩, 0, []⟩,
    ⟨"pointer_declarator", true, some "declarator", ⟨15, 18⟩, 0, [
      ⟨"*", false, none, ⟨15, 16⟩, 0, []⟩,
      ⟨"identifier", true, some "declarator", ⟨16, 18⟩, 0, []⟩]⟩,
    ⟨",", false, none, ⟨18, 19⟩, 0, []⟩,
    ⟨"function_declarator", true, some "declarator", ⟨20, 31⟩, 0, [
      ⟨"parenthesized_declarator", true, some "declarator", ⟨20, 25⟩, 0, [
        ⟨"(", false, none, ⟨20, 21⟩, 0, []⟩,
        ⟨"pointer_declarator", true, none, ⟨21, 24⟩, 0, [
          ⟨"*", false, none, ⟨21, 22⟩, 0, []⟩,
          ⟨"identifier", true, some "declarator", ⟨22, 24⟩, 0, []⟩]⟩,
        ⟨")", false, none, ⟨24, 25⟩, 0, []⟩]⟩,
      ⟨"parameter_list", true, some "parameters", ⟨25, 31⟩, 0, [
        ⟨"(", false, none, ⟨25, 26⟩, 0, []⟩,
        ⟨"parameter_declaration", true, none, ⟨26, 30⟩, 0, [
          ⟨"primitive_type", true, some "type", ⟨26, 30⟩, 0, []⟩]⟩,
        ⟨")", false, none, ⟨30, 31⟩, 0, []⟩]⟩]⟩,
    ⟨",", false, none, ⟨31, 32⟩, 0, []⟩,
    ⟨"function_declarator", true, some "declarator", ⟨33, 46⟩, 0, [
      ⟨"parenthesized_declarator", true, some "declarator", ⟨33, 40⟩, 0, [
        ⟨"(", false, none, ⟨33, 34⟩, 0, []⟩,
        ⟨"pointer_declarator", true, none, ⟨34, 39⟩, 0, [
          ⟨"*", false, none, ⟨34, 35⟩, 0, []⟩,
          ⟨"parenthesized_declarator", true, some "declarator", ⟨35, 39⟩, 0, [
            ⟨"(", false, none, ⟨35, 36⟩, 0, []⟩,
            ⟨"identifier", true, none, ⟨36, 38⟩, 0, []⟩,
            ⟨")", false, none, ⟨38, 39⟩, 0, []⟩]⟩]⟩,
        ⟨")", false, none, ⟨39, 40⟩, 0, []⟩]⟩,
      ⟨"parameter_list", true, some "parameters", ⟨40, 46⟩, 0, [
        ⟨"(", false, none, ⟨40, 41⟩, 0, []⟩,
        ⟨"parameter_declaration", true, none, ⟨41, 45⟩, 0, [
          ⟨"primitive_type", true, some "type", ⟨41, 45⟩, 0, []⟩]⟩,
        ⟨")", false, none, ⟨45, 46⟩, 0, []⟩]⟩]⟩,
    ⟨",", false, none, ⟨46, 47⟩, 0, []⟩,
    parenthesizedFunction,
    ⟨";", false, none, ⟨57, 58⟩, 0, []⟩]⟩

/-- A file with nothing but this declaration. -/
def functionsAndVariablesFile : FileContent where
  bytes := "int *f1(void), *v1, (*f2)(void), (*(f3))(void), (f4)(int);\n".toUTF8
  tree := some ⟨"translation_unit", true, none, ⟨0, 59⟩, 0, [functionsAndVariables]⟩

/-- The first of these functions is not indexed as a variable. -/
theorem prototypes_at_fileScope_functionsAndVariables :
    (Language.ofPath? "src/a.c").isSome = true ∧ functionsAndVariablesFile.tree.isSome = true ∧
      starredFunction.DeclaresFunction ∧
      starredFunction ∉ SyntaxNode.variableDeclarators
        (readingOf (Text.decodeLossy functionsAndVariablesFile.bytes)) functionsAndVariables ∧
      ∃ e, functionsAndVariablesFile.extract .cyclomatic "src/a.c" = .ok e ∧
        ((e.symbols.filter fun s => s.kind == .global).map fun s => some s.name) =
          ["v1", "f2", "f3", "f4"].map some := by
  have hfile : (Language.ofPath? "src/a.c").isSome = true := by decide
  have htree : functionsAndVariablesFile.tree = some (functionsAndVariablesFile.tree.get rfl) := rfl
  have hfunction : starredFunction.DeclaresFunction :=
    ⟨[starredFunction], _, [], _, .layer rfl rfl (.layer rfl rfl (.name rfl)), rfl, nofun⟩
  have hbare : (SyntaxNode.declaratorTarget starredFunction).IsBareFunction :=
    .pointer (by decide) rfl (.function rfl rfl (by decide))
  obtain ⟨⟨e, hextract, hvariables⟩, hfunctions⟩ :=
    prototypes_at_fileScope .cyclomatic hfile htree
  have hdeclarations : (functionsAndVariablesFile.tree.get rfl).fileScopeDeclarations.map (·.node) =
      [functionsAndVariables] := rfl
  obtain ⟨p, hp, hnode⟩ := List.mem_map.mp (hdeclarations ▸ List.mem_singleton_self _)
  have hdeclarator : starredFunction ∈ functionsAndVariables.allInField "declarator" :=
    List.mem_cons_self
  have hmem := hfunctions p hp starredFunction (hnode ▸ hdeclarator) hfunction
  rw [hnode] at hmem
  refine ⟨hfile, rfl, hfunction, fun h => (hmem.mp h).2 hbare, e, hextract, ?_⟩
  rw [SyntaxNode.map_name_of_forall₂ hvariables]
  decide +kernel

/-- The second of these functions is indexed as a variable, so functions are not always kept out. -/
theorem not_prototypes_at_fileScope :
    ¬ ∀ (measurer : Measurer) (file : String) (content : FileContent) (tree : SyntaxNode)
      (e : Extraction), content.tree = some tree → content.extract measurer file = .ok e →
      ∀ p ∈ tree.fileScopeDeclarations, ∀ d ∈ p.node.allInField "declarator",
        d.DeclaresFunction → ∀ s ∈ e.symbols, s.kind = .global →
          ¬SyntaxNode.DeclaresVariable (readingOf (Text.decodeLossy content.bytes)) p.node d
            s.draft := by
  intro h
  have hfile : (Language.ofPath? "src/a.c").isSome = true := by decide
  have htree : functionsAndVariablesFile.tree = some (functionsAndVariablesFile.tree.get rfl) := rfl
  let read := readingOf (Text.decodeLossy functionsAndVariablesFile.bytes)
  have hextract := extract_eq .cyclomatic hfile htree
  have hdeclarations : (functionsAndVariablesFile.tree.get rfl).fileScopeDeclarations.map (·.node) =
      [functionsAndVariables] := rfl
  obtain ⟨p, hp, hnode⟩ := List.mem_map.mp (hdeclarations ▸ List.mem_singleton_self _)
  have hfunction : parenthesizedFunction.DeclaresFunction := by
    refine ⟨[], parenthesizedFunction, [_], _, .layer rfl rfl (.layer rfl rfl (.name rfl)), rfl, ?_⟩
    exact List.forall_mem_singleton.mpr rfl
  have hdeclarator : parenthesizedFunction ∈ functionsAndVariables.allInField "declarator" :=
    List.mem_of_getLast? rfl
  -- It is no bare function, so there is a variable for it.
  have hbare : ¬(SyntaxNode.declaratorTarget parenthesizedFunction).IsBareFunction := by
    rw [← SyntaxNode.isPrototype_iff]
    decide
  have hvariable :
      parenthesizedFunction ∈ SyntaxNode.variableDeclarators read functionsAndVariables :=
    (SyntaxNode.mem_variableDeclarators_iff hdeclarator hfunction).mpr ⟨rfl, hbare⟩
  rw [← hnode] at hdeclarator hvariable
  have hsource : (p.node, parenthesizedFunction) ∈
      (functionsAndVariablesFile.tree.get rfl).fileScopeDeclarations.flatMap fun p =>
        (SyntaxNode.variableDeclarators read p.node).map fun d => (p.node, d) :=
    List.mem_flatMap.mpr ⟨p, hp, List.mem_map_of_mem hvariable⟩
  obtain ⟨s, hs, hdeclares⟩ := exists_of_mem_of_forall₂
    (Extraction.forall₂_variables .cyclomatic "src/a.c" read _).flip hsource
  obtain ⟨hs, hkind⟩ := List.mem_filter.mp hs
  exact h .cyclomatic "src/a.c" functionsAndVariablesFile _ _ htree hextract p hp _ hdeclarator
    hfunction s hs (beq_iff_eq.mp hkind) hdeclares

end FileContent

end CodeAtlas
