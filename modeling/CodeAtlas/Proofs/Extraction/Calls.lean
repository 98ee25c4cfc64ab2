import CodeAtlas.Proofs.Extraction.Sources

/-!
# The calls of a file

A function calls what the call expressions of its body call, wherever they stand below it: in the
arguments of other calls, in functions without a name, in classes of the body.  Each name counts
where it first stands.  A function that is defined inside another one is visited for itself as well,
so its calls are recorded for both.

All calls that are recorded for a file are those of its functions, one function after the other
(`FileContent.calls_of_bodies`).  They are told apart by the identifiers of the functions, so if
these are distinct the calls of each function can be read off.
-/

namespace CodeAtlas

/-- Functions come from their definitions. -/
lemma NodeRole.eq_definition_of_symbolKind? {kind : String}
    (h : (ofKind kind).symbolKind? = some .function) : kind = "function_definition" :=
  (ofKind_eq_function_iff kind).mp (eq_of_symbolKind? h rfl)

namespace SyntaxNode

/-- The first of each name are what is left when repetitions are erased. -/
lemma firstOccurrences_eq_eraseDups (xs : List String) : firstOccurrences xs = xs.eraseDups := by
  fun_induction firstOccurrences xs with
  | case1 => rfl
  | case2 x xs ih =>
    simp only [List.unattach_filter, List.unattach_attach] at ih
    rw [ih, List.eraseDups_cons]
    rfl

/-- The names that the body of a function calls: those of all call expressions below it, as far as
they have a name, each where it first stands.  Without a body nothing is called. -/
def bodyCalls (read : Reading) (n : SyntaxNode) : List String :=
  match n.inField? "body" with
  | some body =>
    ((body.preorder.filter fun c => c.kind == "call_expression").filterMap fun c =>
      ((c.inField? "function").bind calleeNode?).map fun m => m.text read).eraseDups
  | none => []

/-- The calls of a body are the callees of the function. -/
lemma bodyCalls_eq (read : Reading) (n : SyntaxNode) :
    bodyCalls read n = ((n.inField? "body").map (callees read)).getD [] := by
  unfold bodyCalls
  cases n.inField? "body" with
  | none => rfl
  | some body =>
    have hcalled : calledName? read = fun c => if c.kind == "call_expression" then
        ((c.inField? "function").bind calleeNode?).map fun m => m.text read else none := rfl
    simp only [Option.map_some, Option.getD_some, callees, firstOccurrences_eq_eraseDups, hcalled,
      List.filterMap_filter]

/-- A name that a body calls is the callee of a call expression below it. -/
lemma exists_call_of_mem_bodyCalls {read : Reading} {n : SyntaxNode} {name : String}
    (h : name ∈ bodyCalls read n) : ∃ body, n.inField? "body" = some body ∧
      ∃ c ∈ body.preorder, calledName? read c = some name := by
  rw [bodyCalls_eq] at h
  cases hbody : n.inField? "body" with
  | none =>
    rw [hbody] at h
    cases h
  | some body =>
    rw [hbody, Option.map_some, Option.getD_some, callees, mem_firstOccurrences] at h
    exact ⟨body, rfl, List.mem_filterMap.mp h⟩

/-- Whether a node is a function definition with a name. -/
def isNamedDefinition (read : Reading) (n : SyntaxNode) : Bool :=
  n.kind == "function_definition" && (functionName? read n).isSome

/-- The definitions of functions with a name to which the walk comes. -/
def definitions (read : Reading) (tree : SyntaxNode) : List SyntaxNode :=
  (tree.places.filter fun p => p.isReached && isNamedDefinition read p.node).map (·.node)

/-- The definitions to which the walk comes are nodes of the tree. -/
lemma mem_preorder_of_mem_definitions {read : Reading} {tree n : SyntaxNode}
    (h : n ∈ tree.definitions read) : n ∈ tree.preorder ∧ n.kind = "function_definition" := by
  obtain ⟨p, hp, rfl⟩ := List.mem_map.mp h
  obtain ⟨hplace, hdefinition⟩ := List.mem_filter.mp hp
  simp only [isNamedDefinition, Bool.and_eq_true, beq_iff_eq] at hdefinition
  rw [← map_node_places]
  exact ⟨List.mem_map_of_mem hplace, hdefinition.2.1⟩

/-- A draft is that of the function which a definition defines, with the names that it calls. -/
structure DefinesFunction (read : Reading) (n : SyntaxNode) (p : SymbolDraft × List String) :
    Prop where
  name_eq : functionName? read n = some p.1.name
  line_eq : p.1.line = n.line
  declaration_eq : p.1.declaration = signature read n
  calls_eq : p.2 = bodyCalls read n

/-- What a visited node gives for functions. -/
def functionSources (read : Reading) (v : Scope × SyntaxNode) : List SyntaxNode :=
  if isNamedDefinition read v.2 then [v.2] else []

/-- A draft is the one that a definition gives, with the names that its body calls. -/
def GivesFunction (read : Reading) (n : SyntaxNode) (p : SymbolDraft × List String) : Prop :=
  ∃ declarator name, n.inField? "declarator" = some declarator ∧
    functionName? read n = some name ∧ p = (functionDraft read n declarator name, bodyCalls read n)

/-- What a visited node gives for functions is the symbol of its definition. -/
lemma forall₂_givesFunction (read : Reading) (v : Scope × SyntaxNode) :
    List.Forall₂ (fun p n => GivesFunction read n p)
      (draftsOfKind .function (visitFindings read v)) (functionSources read v) := by
  rw [functionSources, isNamedDefinition]
  by_cases hkind : v.2.kind = "function_definition"
  · have hrole : NodeRole.ofKind v.2.kind = .function := by
      rw [hkind]
      rfl
    rw [draftsOfKind_of_role (by rw [hrole]; rfl), visitFindings, ownFindings, hrole]
    cases hname : functionName? read v.2 with
    | none => simp [functionFindings, hname]
    | some name =>
      obtain ⟨declarator, hdeclarator⟩ := exists_declarator_of_functionName? read hname
      simp only [functionFindings_eq read hname hdeclarator, hkind, beq_self_eq_true,
        Option.isSome_some, Bool.and_self, if_true, ← bodyCalls_eq]
      exact .cons ⟨declarator, name, hdeclarator, hname, rfl⟩ .nil
  · rw [draftsOfKind_of_otherRole fun h => hkind (NodeRole.eq_definition_of_symbolKind? h)]
    simp [hkind]

/-- What a visited node gives for functions is what its definition defines. -/
lemma forall₂_functionSources (read : Reading) (v : Scope × SyntaxNode) :
    List.Forall₂ (fun p n => DefinesFunction read n p)
      (draftsOfKind .function (visitFindings read v)) (functionSources read v) := by
  refine (forall₂_givesFunction read v).imp ?_
  rintro _ n ⟨declarator, name, -, hname, rfl⟩
  exact ⟨hname, rfl, rfl, rfl⟩

/-- The sources of the visits are the definitions of functions. -/
lemma flatMap_functionSources (read : Reading) (tree : SyntaxNode) :
    (tree.visits .file).flatMap (functionSources read) = tree.definitions read := by
  rw [definitions, List.map_eq_flatMap]
  refine flatMap_visits (fun v hv => ?_) .file tree
  rw [isNamedDefinition, Bool.and_eq_true, beq_iff_eq] at hv
  rw [hv.1]
  decide

end SyntaxNode

/-! ### Recorded calls -/

namespace Extraction

variable {file : String} {read : Reading} {tree : SyntaxNode}

/-- The calls of functions, each with its definition. -/
def callsOfBodies (read : Reading) (xs : List (Symbol × SyntaxNode)) : List CallReference :=
  xs.flatMap fun x => (SyntaxNode.bodyCalls read x.2).map fun c => ⟨x.1.id, c⟩

/-- The function entries of a file belong to the definitions of the tree. -/
lemma forall₂_functions (file : String) (read : Reading) (tree : SyntaxNode) :
    List.Forall₂
      (fun x n => ∃ p, IsEntryOf file x p ∧ SyntaxNode.DefinesFunction read n p)
      ((entries file read tree).filter fun x => x.1.kind == .function) (tree.definitions read) := by
  rw [← SyntaxNode.flatMap_functionSources]
  exact forall₂_entries (SyntaxNode.forall₂_functionSources read)

/-- The function entries of a file are the symbols that the definitions of the tree give. -/
lemma forall₂_givesFunction (file : String) (read : Reading) (tree : SyntaxNode) :
    List.Forall₂
      (fun x n => ∃ p, IsEntryOf file x p ∧ SyntaxNode.GivesFunction read n p)
      ((entries file read tree).filter fun x => x.1.kind == .function) (tree.definitions read) := by
  rw [← SyntaxNode.flatMap_functionSources]
  exact forall₂_entries (SyntaxNode.forall₂_givesFunction read)

/-- The functions of a file are its function entries, with their scores. -/
lemma filter_isFunction (measurer : Measurer) (file : String) (read : Reading)
    (tree : SyntaxNode) : (ofTree measurer file read tree).symbols.filter (·.isFunction) =
      ((entries file read tree).filter fun x => x.1.kind == .function).map
        fun x => scored (measurer.measure read tree) x.1 :=
  filter_symbols measurer file read tree .function

/-- The functions of a file belong to the definitions of the tree. -/
lemma forall₂_functionSymbols (measurer : Measurer) (file : String) (read : Reading)
    (tree : SyntaxNode) :
    List.Forall₂ (fun s n => s.file = file ∧ SyntaxNode.functionName? read n = some s.name ∧
        s.line = n.line ∧ s.declaration = SyntaxNode.signature read n)
      ((ofTree measurer file read tree).symbols.filter (·.isFunction)) (tree.definitions read) := by
  rw [filter_isFunction, List.forall₂_map_left_iff]
  refine (forall₂_functions file read tree).imp ?_
  rintro _ n ⟨p, ⟨i, rfl⟩, hdefines⟩
  rw [file_scored, name_scored, line_scored, declaration_scored]
  exact ⟨rfl, hdefines.name_eq, hdefines.line_eq, hdefines.declaration_eq⟩

/-- What entries record is what the bodies of their definitions call. -/
lemma flatMap_entries_eq {xs : List (Symbol × List String)} {ns : List SyntaxNode}
    (h : List.Forall₂ (fun x n => ∃ p, IsEntryOf file x p ∧ SyntaxNode.DefinesFunction read n p)
      xs ns) (scores : Scores) :
    (xs.flatMap fun x => x.2.map fun c => (⟨x.1.id, c⟩ : CallReference)) =
      callsOfBodies read ((xs.map fun x => scored scores x.1).zip ns) := by
  induction h with
  | nil => rfl
  | cons hx _ ih =>
    obtain ⟨p, ⟨i, rfl⟩, hdefines⟩ := hx
    rw [List.flatMap_cons, ih, List.map_cons, List.zip_cons_cons, callsOfBodies, callsOfBodies,
      List.flatMap_cons, id_scored, hdefines.calls_eq]

/-- The calls that are recorded for a file are those of the bodies of its functions. -/
lemma calls_eq_callsOfBodies (measurer : Measurer) (file : String) (read : Reading)
    (tree : SyntaxNode) :
    (ofTree measurer file read tree).calls = callsOfBodies read
      (((ofTree measurer file read tree).symbols.filter (·.isFunction)).zip
        (tree.definitions read)) := by
  -- Entries of other kinds record nothing.
  have hother : ∀ x ∈ entries file read tree, (x.1.kind == .function) = false →
      (x.2.map fun c => (⟨x.1.id, c⟩ : CallReference)) = [] := by
    intro x hx hkind
    rw [List.map_eq_nil_iff]
    by_contra hne
    have hfunction := (of_mem_numbered (tree.callsFromFunctions_findings read .file) hx).2 hne
    exact Bool.false_ne_true (hkind.symm.trans hfunction)
  rw [filter_isFunction, ← flatMap_entries_eq (forall₂_functions file read tree),
    flatMap_filter_of_nil hother]
  rfl

/-- Among functions of other identifiers nothing is recorded for a symbol. -/
lemma filter_callsOfBodies_eq_nil {xs : List (Symbol × SyntaxNode)} {id : SymbolId}
    (hids : id ∉ xs.map (·.1.id)) :
    (callsOfBodies read xs).filter (fun r => r.caller == id) = [] := by
  refine List.filter_eq_nil_iff.mpr fun r hr hcaller => ?_
  obtain ⟨x, hx, hr⟩ := List.mem_flatMap.mp hr
  obtain ⟨c, -, rfl⟩ := List.mem_map.mp hr
  exact hids (List.mem_map.mpr ⟨x, hx, beq_iff_eq.mp hcaller⟩)

/-- If the identifiers of functions are distinct, the calls of one of them can be read off. -/
lemma filter_callsOfBodies {xs : List (Symbol × SyntaxNode)}
    (hids : (xs.map (·.1.id)).Nodup) {x : Symbol × SyntaxNode} (hx : x ∈ xs) :
    ((callsOfBodies read xs).filter fun r => r.caller == x.1.id).map (·.callee) =
      SyntaxNode.bodyCalls read x.2 := by
  obtain ⟨before, after, rfl⟩ := List.append_of_mem hx
  rw [List.map_append, List.map_cons, List.nodup_append, List.nodup_cons] at hids
  obtain ⟨-, ⟨hafter, -⟩, hbefore⟩ := hids
  have hparts : callsOfBodies read (before ++ x :: after) = callsOfBodies read before ++
      ((SyntaxNode.bodyCalls read x.2).map (fun c => (⟨x.1.id, c⟩ : CallReference)) ++
        callsOfBodies read after) := by
    rw [callsOfBodies, List.flatMap_append, List.flatMap_cons]
    rfl
  have hown : ((SyntaxNode.bodyCalls read x.2).map (fun c => (⟨x.1.id, c⟩ : CallReference))).filter
      (fun r => r.caller == x.1.id) =
        (SyntaxNode.bodyCalls read x.2).map fun c => (⟨x.1.id, c⟩ : CallReference) := by
    refine List.filter_eq_self.mpr fun r hr => ?_
    obtain ⟨c, -, rfl⟩ := List.mem_map.mp hr
    exact beq_self_eq_true _
  rw [hparts, List.filter_append, List.filter_append, filter_callsOfBodies_eq_nil hafter,
    filter_callsOfBodies_eq_nil fun h => hbefore _ h _ List.mem_cons_self rfl, hown,
    List.nil_append, List.append_nil, List.map_map]
  exact List.map_id _

end Extraction

namespace FileContent

/-- Every file with a supported extension and a syntax tree is extracted.  Its functions are those
of the definitions with a name to which the walk comes, and if the identifiers of its symbols are
distinct, the calls with the identifier of a function are those of the body: the name of each call
expression that has one, in preorder and each name once.  All calls of the file are those of such
bodies, one function after the other, so every call stands in the body of a function. -/
theorem calls_of_bodies (measurer : Measurer) {file : String} {content : FileContent}
    {tree : SyntaxNode} (hfile : (Language.ofPath? file).isSome = true)
    (htree : content.tree = some tree) :
    let read := readingOf (Text.decodeLossy content.bytes)
    let definitions := tree.definitions read
    (∀ n ∈ definitions, n ∈ tree.preorder ∧ n.kind = "function_definition") ∧
    ∃ e, content.extract measurer file = .ok e ∧
      List.Forall₂ (fun s n => (s.file = file ∧ SyntaxNode.functionName? read n = some s.name ∧
          s.line = n.line ∧ s.declaration = SyntaxNode.signature read n) ∧
        ((e.symbols.map (·.id)).Nodup →
          (e.calls.filter fun r => r.caller == s.id).map (·.callee) = SyntaxNode.bodyCalls read n))
        (e.symbols.filter (·.isFunction)) definitions ∧
      e.calls = Extraction.callsOfBodies read ((e.symbols.filter (·.isFunction)).zip definitions) ∧
      ∀ r ∈ e.calls, ∃ n ∈ definitions, ∃ body, n.inField? "body" = some body ∧
        ∃ c ∈ body.preorder, SyntaxNode.calledName? read c = some r.callee := by
  intro read definitions
  refine ⟨fun n hn => ?_, _, extract_eq measurer hfile htree, ?_⟩
  · obtain ⟨p, hp, rfl⟩ := List.mem_map.mp hn
    obtain ⟨hplace, hdefinition⟩ := List.mem_filter.mp hp
    simp only [SyntaxNode.isNamedDefinition, Bool.and_eq_true, beq_iff_eq] at hdefinition
    rw [← SyntaxNode.map_node_places]
    exact ⟨List.mem_map_of_mem hplace, hdefinition.2.1⟩
  have hcalls := Extraction.calls_eq_callsOfBodies measurer file read tree
  refine ⟨?_, hcalls, fun r hr => ?_⟩
  · obtain ⟨hlength, hdefines⟩ :=
      List.forall₂_iff_zip.mp (Extraction.forall₂_functionSymbols measurer file read tree)
    refine List.forall₂_iff_zip.mpr ⟨hlength, fun {s n} hx => ⟨hdefines hx, fun hids => ?_⟩⟩
    rw [hcalls]
    refine Extraction.filter_callsOfBodies ?_ hx
    have hfst := List.map_fst_zip hlength.le
    rw [← Function.comp_def, ← List.map_map, hfst]
    exact hids.sublist (List.filter_sublist.map _)
  · rw [hcalls] at hr
    obtain ⟨x, hx, hr⟩ := List.mem_flatMap.mp hr
    obtain ⟨c, hc, rfl⟩ := List.mem_map.mp hr
    exact ⟨x.2, (List.of_mem_zip hx).2, SyntaxNode.exists_call_of_mem_bodyCalls hc⟩

/-- A file with a function that has a class in its body, of which a member is defined there. -/
def localClass : FileContent where
  bytes := "void f() { g(h()); struct A { void k() { g(); } }; }\n".toUTF8
  tree := some
    ⟨"translation_unit", true, none, ⟨0, 53⟩, 0, [
      ⟨"function_definition", true, none, ⟨0, 52⟩, 0, [
        ⟨"primitive_type", true, some "type", ⟨0, 4⟩, 0, []⟩,
        ⟨"function_declarator", true, some "declarator", ⟨5, 8⟩, 0, [
          ⟨"identifier", true, some "declarator", ⟨5, 6⟩, 0, []⟩,
          ⟨"parameter_list", true, some "parameters", ⟨6, 8⟩, 0, []⟩]⟩,
        ⟨"compound_statement", true, some "body", ⟨9, 52⟩, 0, [
          ⟨"call_expression", true, none, ⟨11, 17⟩, 0, [
            ⟨"identifier", true, some "function", ⟨11, 12⟩, 0, []⟩,
            ⟨"argument_list", true, some "arguments", ⟨12, 17⟩, 0, [
              ⟨"call_expression", true, none, ⟨13, 16⟩, 0, [
                ⟨"identifier", true, some "function", ⟨13, 14⟩, 0, []⟩]⟩]⟩]⟩,
          ⟨"struct_specifier", true, none, ⟨19, 49⟩, 0, [
            ⟨"type_identifier", true, some "name", ⟨26, 27⟩, 0, []⟩,
            ⟨"field_declaration_list", true, some "body", ⟨28, 49⟩, 0, [
              ⟨"function_definition", true, none, ⟨30, 47⟩, 0, [
                ⟨"primitive_type", true, some "type", ⟨30, 34⟩, 0, []⟩,
                ⟨"function_declarator", true, some "declarator", ⟨35, 38⟩, 0, [
                  ⟨"field_identifier", true, some "declarator", ⟨35, 36⟩, 0, []⟩,
                  ⟨"parameter_list", true, some "parameters", ⟨36, 38⟩, 0, []⟩]⟩,
                ⟨"compound_statement", true, some "body", ⟨39, 47⟩, 0, [
                  ⟨"call_expression", true, none, ⟨41, 44⟩, 0, [
                    ⟨"identifier", true, some "function", ⟨41, 42⟩, 0, []⟩]⟩]⟩]⟩]⟩]⟩]⟩]⟩]⟩

/-- Of this file the calls of the outer function are those of its whole body, and the member has its
own. -/
theorem calls_of_bodies_localClass :
    (Language.ofPath? "src/a.cpp").isSome = true ∧ localClass.tree.isSome = true ∧
      ∃ e, localClass.extract .cyclomatic "src/a.cpp" = .ok e ∧ (e.symbols.map (·.id)).Nodup ∧
        (e.symbols.filter (·.isFunction)).map (fun s =>
          (e.calls.filter fun r => r.caller == s.id).map (·.callee)) = [["g", "h"], ["g"]] := by
  have hfile : (Language.ofPath? "src/a.cpp").isSome = true := by decide
  have htree : localClass.tree = some (localClass.tree.get rfl) := rfl
  let read := readingOf (Text.decodeLossy localClass.bytes)
  obtain ⟨-, e, hextract, hfunctions, -⟩ := calls_of_bodies .cyclomatic hfile htree
  have he : e = Extraction.ofTree .cyclomatic "src/a.cpp" read (localClass.tree.get rfl) :=
    Except.ok.inj (hextract.symm.trans (extract_eq .cyclomatic hfile htree))
  have hids : (e.symbols.map (·.id)).Nodup := by
    rw [he]
    decide +kernel
  have hcallees : List.Forall₂ (· = ·) ((e.symbols.filter (·.isFunction)).map fun s =>
      (e.calls.filter fun r => r.caller == s.id).map (·.callee))
      (((localClass.tree.get rfl).definitions read).map (SyntaxNode.bodyCalls read)) := by
    rw [List.forall₂_map_left_iff, List.forall₂_map_right_iff]
    exact hfunctions.imp fun s n h => h.2 hids
  rw [List.forall₂_eq_eq_eq] at hcallees
  refine ⟨hfile, rfl, e, hextract, hids, hcallees.trans ?_⟩
  decide +kernel

end FileContent

end CodeAtlas
