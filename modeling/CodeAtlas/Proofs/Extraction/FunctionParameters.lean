import CodeAtlas.Proofs.Extraction.Calls
import CodeAtlas.Proofs.SyntaxTree.Layers

/-!
# The parameters of a function

The parameters of a function stand in the function declarator nearest to its name.  What is recorded
are those of the outermost function declarator, and the name is looked for inside it
(`FileContent.parameters_of_functions`).  The two are the same unless the function returns a pointer
to a function, of which the parameters stand further out: `int (*f(int a))(char b)` takes an `int`
and is recorded with a `char`.
-/

namespace CodeAtlas

/-- The parameters in the detail of a function. -/
def SymbolDetail.functionParameters : SymbolDetail → List String
  | .function _ parameters _ _ => parameters
  | .record .. | .global .. | .define .. | .alias .. | .enumeration .. => []

/-- Scores change no parameters. -/
lemma Extraction.functionParameters_scored (scores : Scores) (s : Symbol) :
    (scored scores s).detail.functionParameters = s.detail.functionParameters := by
  obtain ⟨id, name, file, line, declaration, origin, detail⟩ := s
  unfold scored
  split
  · cases detail <;> rfl
  · rfl

namespace SyntaxNode

/-- The parameters of a function declarator. -/
def parametersOf (read : Reading) (f : SyntaxNode) : List String :=
  ((f.inField? "parameters").map (parameters read)).getD []

/-- The definition of a function has an outermost function declarator, inside which layers stand
around the name. -/
structure NamesFunction (n f : SyntaxNode) (layers : List SyntaxNode) (name : SyntaxNode) :
    Prop where
  outermost : (n.inField? "declarator").bind functionDeclarator? = some f
  declares : ∃ inner, f.inField? "declarator" = some inner ∧ Declares inner layers name

variable {n f name : SyntaxNode} {layers : List SyntaxNode} {read : Reading}

/-- The parts of a definition are determined by it. -/
lemma NamesFunction.unique {f' name' : SyntaxNode} {layers' : List SyntaxNode}
    (h : NamesFunction n f layers name) (h' : NamesFunction n f' layers' name') :
    f = f' ∧ layers = layers' ∧ name = name' := by
  obtain rfl := Option.some.inj (h.outermost.symm.trans h'.outermost)
  obtain ⟨inner, hinner, hdeclares⟩ := h.declares
  obtain ⟨inner', hinner', hdeclares'⟩ := h'.declares
  obtain rfl := Option.some.inj (hinner.symm.trans hinner')
  exact ⟨rfl, hdeclares.unique hdeclares'⟩

/-- The definition of a function with a name has all these parts. -/
lemma exists_namesFunction {nodeName : String} (h : functionName? read n = some nodeName) :
    ∃ f layers name, NamesFunction n f layers name ∧ nodeName = nameText read name := by
  obtain ⟨name, hnode, rfl⟩ := Option.map_eq_some_iff.mp h
  obtain ⟨declarator, hdeclarator, hnode⟩ := Option.bind_eq_some_iff.mp hnode
  obtain ⟨f, hf, hnode⟩ := Option.bind_eq_some_iff.mp hnode
  obtain ⟨inner, hinner, hname⟩ := Option.bind_eq_some_iff.mp hnode
  obtain ⟨layers, hlayers⟩ := exists_declares inner hname
  refine ⟨f, layers, name, ⟨?_, inner, hinner, hlayers⟩, rfl⟩
  rw [hdeclarator, Option.bind_some, hf]

/-- The symbol of a definition has the parameters of the outermost function declarator. -/
lemma NamesFunction.functionParameters_eq (h : NamesFunction n f layers name)
    {declarator : SyntaxNode} (hdeclarator : n.inField? "declarator" = some declarator)
    (nodeName : String) :
    (functionDraft read n declarator nodeName).detail.functionParameters = parametersOf read f := by
  have hf := h.outermost
  rw [hdeclarator, Option.bind_some] at hf
  rw [functionDraft, hf, Option.bind_some]
  rfl

/-- The outermost function declarator of a definition is the nearest to the name exactly if there is
no other one between the two. -/
lemma NamesFunction.nearestFunction_eq_iff (h : NamesFunction n f layers name) :
    nearestFunction f layers = f ↔ ∀ l ∈ layers, l.kind ≠ "function_declarator" := by
  obtain ⟨inner, hinner, hdeclares⟩ := h.declares
  exact nearestFunction_eq_self_iff hinner hdeclares

end SyntaxNode

/-- The functions of a file have the parameters of the outermost function declarators of their
definitions, inside which their names are declared. -/
lemma Extraction.forall₂_functionParameters (measurer : Measurer) (file : String) (read : Reading)
    (tree : SyntaxNode) :
    List.Forall₂ (fun s n => ∃ f layers name, SyntaxNode.NamesFunction n f layers name ∧
        s.name = SyntaxNode.nameText read name ∧ s.line = n.line ∧
        s.detail.functionParameters = SyntaxNode.parametersOf read f)
      ((ofTree measurer file read tree).symbols.filter (·.isFunction)) (tree.definitions read) := by
  rw [filter_isFunction, List.forall₂_map_left_iff]
  refine (forall₂_givesFunction file read tree).imp ?_
  rintro _ n ⟨_, ⟨i, rfl⟩, declarator, nodeName, hdeclarator, hname, rfl⟩
  obtain ⟨f, layers, name, hparts, htext⟩ := SyntaxNode.exists_namesFunction hname
  rw [name_scored, line_scored, functionParameters_scored]
  exact ⟨f, layers, name, hparts, htext, rfl, hparts.functionParameters_eq hdeclarator nodeName⟩

namespace FileContent

/-- Every file with a supported extension and a syntax tree is extracted, and its functions are
those of the definitions with a name to which the walk comes.  Each is recorded with the parameters
of the outermost function declarator of its definition, inside which its name is declared.  This is
the function declarator nearest to the name if and only if no other one stands between the two. -/
theorem parameters_of_functions (measurer : Measurer) {file : String} {content : FileContent}
    {tree : SyntaxNode} (hfile : (Language.ofPath? file).isSome = true)
    (htree : content.tree = some tree) :
    let read := readingOf (Text.decodeLossy content.bytes)
    (∀ n ∈ tree.definitions read, n ∈ tree.preorder ∧ n.kind = "function_definition") ∧
    ∃ e, content.extract measurer file = .ok e ∧
      List.Forall₂ (fun s n => ∃ f layers name, SyntaxNode.NamesFunction n f layers name ∧
          (s.name = SyntaxNode.nameText read name ∧ s.line = n.line ∧
            s.detail.functionParameters = SyntaxNode.parametersOf read f) ∧
          f.kind = "function_declarator" ∧
          (SyntaxNode.nearestFunction f layers = f ↔
            ∀ l ∈ layers, l.kind ≠ "function_declarator"))
        (e.symbols.filter (·.isFunction)) (tree.definitions read) := by
  intro read
  refine ⟨fun n hn => SyntaxNode.mem_preorder_of_mem_definitions hn, _,
    extract_eq measurer hfile htree, ?_⟩
  refine (Extraction.forall₂_functionParameters measurer file read tree).imp ?_
  rintro s n ⟨f, layers, name, hparts, hsymbol⟩
  obtain ⟨declarator, -, hf⟩ := Option.bind_eq_some_iff.mp hparts.outermost
  exact ⟨f, layers, name, hparts, hsymbol,
    SyntaxNode.kind_of_functionDeclarator? declarator f hf, hparts.nearestFunction_eq_iff⟩

/-- The definition of a function that returns a pointer. -/
def pointerReturner : SyntaxNode :=
  ⟨"function_definition", true, none, ⟨0, 17⟩, 0, [
    ⟨"primitive_type", true, some "type", ⟨0, 3⟩, 0, []⟩,
    ⟨"pointer_declarator", true, some "declarator", ⟨4, 13⟩, 0, [
      ⟨"function_declarator", true, some "declarator", ⟨5, 13⟩, 0, [
        ⟨"identifier", true, some "declarator", ⟨5, 6⟩, 0, []⟩,
        ⟨"parameter_list", true, some "parameters", ⟨6, 13⟩, 0, [
          ⟨"parameter_declaration", true, none, ⟨7, 12⟩, 0, [
            ⟨"primitive_type", true, some "type", ⟨7, 10⟩, 0, []⟩,
            ⟨"identifier", true, some "declarator", ⟨11, 12⟩, 0, []⟩]⟩]⟩]⟩]⟩,
    ⟨"compound_statement", true, some "body", ⟨14, 17⟩, 0, []⟩]⟩

/-- A file with nothing but this definition. -/
def pointerReturnerFile : FileContent where
  bytes := "int *f(int a) { }\n".toUTF8
  tree := some ⟨"translation_unit", true, none, ⟨0, 18⟩, 0, [pointerReturner]⟩

/-- This function is recorded with its own parameter. -/
theorem parameters_of_functions_pointerReturner :
    (Language.ofPath? "src/a.c").isSome = true ∧ pointerReturnerFile.tree.isSome = true ∧
      ∃ e, pointerReturnerFile.extract .cyclomatic "src/a.c" = .ok e ∧
        (e.symbols.filter (·.isFunction)).map (·.detail.functionParameters) = [["int a"]] := by
  have hfile : (Language.ofPath? "src/a.c").isSome = true := by decide
  have htree : pointerReturnerFile.tree = some (pointerReturnerFile.tree.get rfl) := rfl
  let read := readingOf (Text.decodeLossy pointerReturnerFile.bytes)
  obtain ⟨-, e, hextract, hfunctions⟩ := parameters_of_functions .cyclomatic hfile htree
  have hdefinitions : (pointerReturnerFile.tree.get rfl).definitions read = [pointerReturner] := rfl
  rw [hdefinitions] at hfunctions
  obtain ⟨s, rest, ⟨f, layers, name, hparts, ⟨-, -, hparameters⟩, -⟩, hrest, hsymbols⟩ :=
    List.forall₂_cons_right_iff.mp hfunctions
  obtain rfl := Option.some.inj hparts.outermost
  rw [List.forall₂_nil_right_iff.mp hrest] at hsymbols
  refine ⟨hfile, rfl, e, hextract, ?_⟩
  rw [hsymbols, List.map_singleton, hparameters]
  decide +kernel

/-- The definition of a function that returns a pointer to a function. -/
def callbackReturner : SyntaxNode :=
  ⟨"function_definition", true, none, ⟨0, 56⟩, 0, [
    ⟨"primitive_type", true, some "type", ⟨0, 3⟩, 0, []⟩,
    ⟨"function_declarator", true, some "declarator", ⟨4, 42⟩, 0, [
      ⟨"parenthesized_declarator", true, some "declarator", ⟨4, 29⟩, 0, [
        ⟨"(", false, none, ⟨4, 5⟩, 0, []⟩,
        ⟨"pointer_declarator", true, none, ⟨5, 28⟩, 0, [
          ⟨"*", false, none, ⟨5, 6⟩, 0, []⟩,
          ⟨"function_declarator", true, some "declarator", ⟨6, 28⟩, 0, [
            ⟨"identifier", true, some "declarator", ⟨6, 17⟩, 0, []⟩,
            ⟨"parameter_list", true, some "parameters", ⟨17, 28⟩, 0, [
              ⟨"(", false, none, ⟨17, 18⟩, 0, []⟩,
              ⟨"parameter_declaration", true, none, ⟨18, 27⟩, 0, [
                ⟨"primitive_type", true, some "type", ⟨18, 21⟩, 0, []⟩,
                ⟨"identifier", true, some "declarator", ⟨22, 27⟩, 0, []⟩]⟩,
              ⟨")", false, none, ⟨27, 28⟩, 0, []⟩]⟩]⟩]⟩,
        ⟨")", false, none, ⟨28, 29⟩, 0, []⟩]⟩,
      ⟨"parameter_list", true, some "parameters", ⟨29, 42⟩, 0, [
        ⟨"(", false, none, ⟨29, 30⟩, 0, []⟩,
        ⟨"parameter_declaration", true, none, ⟨30, 33⟩, 0, [
          ⟨"primitive_type", true, some "type", ⟨30, 33⟩, 0, []⟩]⟩,
        ⟨",", false, none, ⟨33, 34⟩, 0, []⟩,
        ⟨"parameter_declaration", true, none, ⟨35, 41⟩, 0, [
          ⟨"primitive_type", true, some "type", ⟨35, 39⟩, 0, []⟩,
          ⟨"abstract_pointer_declarator", true, some "declarator", ⟨40, 41⟩, 0, [
            ⟨"*", false, none, ⟨40, 41⟩, 0, []⟩]⟩]⟩,
        ⟨")", false, none, ⟨41, 42⟩, 0, []⟩]⟩]⟩,
    ⟨"compound_statement", true, some "body", ⟨43, 56⟩, 0, [
      ⟨"\x7b", false, none, ⟨43, 44⟩, 0, []⟩,
      ⟨"return_statement", true, none, ⟨45, 54⟩, 0, [
        ⟨"return", false, none, ⟨45, 51⟩, 0, []⟩,
        ⟨"number_literal", true, none, ⟨52, 53⟩, 0, []⟩,
        ⟨";", false, none, ⟨53, 54⟩, 0, []⟩]⟩,
      ⟨"\x7d", false, none, ⟨55, 56⟩, 0, []⟩]⟩]⟩

/-- A file with nothing but this definition. -/
def callbackReturnerFile : FileContent where
  bytes := "int (*get_handler(int which))(int, char *) { return 0; }\n".toUTF8
  tree := some ⟨"translation_unit", true, none, ⟨0, 57⟩, 0, [callbackReturner]⟩

/-- The functions of an extraction have the parameters of the function declarators nearest to their
names. -/
def HasOwnParameters (read : Reading) (tree : SyntaxNode) (e : Extraction) : Prop :=
  List.Forall₂ (fun s n => ∃ f layers name, SyntaxNode.NamesFunction n f layers name ∧
      s.name = SyntaxNode.nameText read name ∧
      s.detail.functionParameters =
        SyntaxNode.parametersOf read (SyntaxNode.nearestFunction f layers))
    (e.symbols.filter (·.isFunction)) (tree.definitions read)

/-- This function is recorded with the parameters of the function that is returned, so functions do
not always have their own parameters. -/
theorem not_parameters_of_functions :
    ¬ ∀ (measurer : Measurer) (file : String) (content : FileContent) (tree : SyntaxNode)
      (e : Extraction), content.tree = some tree → content.extract measurer file = .ok e →
      HasOwnParameters (readingOf (Text.decodeLossy content.bytes)) tree e := by
  intro h
  have hfile : (Language.ofPath? "src/a.c").isSome = true := by decide
  have htree : callbackReturnerFile.tree = some (callbackReturnerFile.tree.get rfl) := rfl
  let read := readingOf (Text.decodeLossy callbackReturnerFile.bytes)
  have hown := h .cyclomatic "src/a.c" callbackReturnerFile _ _ htree
    (extract_eq .cyclomatic hfile htree)
  have hfunctions := Extraction.forall₂_functionParameters .cyclomatic "src/a.c" read
    (callbackReturnerFile.tree.get rfl)
  have hdefinitions : (callbackReturnerFile.tree.get rfl).definitions read = [callbackReturner] :=
    rfl
  rw [hdefinitions] at hfunctions
  obtain ⟨s, _, ⟨f, layers, name, hparts, -, -, houtermost⟩, -, hsymbols⟩ :=
    List.forall₂_cons_right_iff.mp hfunctions
  rw [HasOwnParameters, hsymbols, hdefinitions] at hown
  obtain ⟨⟨f', layers', name', hparts', -, hnearest⟩, -⟩ := List.forall₂_cons.mp hown
  obtain ⟨rfl, rfl, rfl⟩ := hparts.unique hparts'
  -- The two function declarators of the definition have different parameters.
  obtain ⟨f', layers', name', hparts', hdiffer⟩ : ∃ f layers name,
      SyntaxNode.NamesFunction callbackReturner f layers name ∧
        SyntaxNode.parametersOf read f ≠
          SyntaxNode.parametersOf read (SyntaxNode.nearestFunction f layers) :=
    ⟨_, _, _, ⟨rfl, _, rfl, .layer rfl rfl (.layer rfl rfl (.layer rfl rfl (.name rfl)))⟩,
      by decide +kernel⟩
  obtain ⟨rfl, rfl, rfl⟩ := hparts.unique hparts'
  exact hdiffer (houtermost.symm.trans hnearest)

end FileContent

end CodeAtlas
