import CodeAtlas.Proofs.Extraction.Calls
import CodeAtlas.Proofs.Extraction.Variables
import CodeAtlas.Proofs.SyntaxTree.Nodes

/-!
# The scores of a file

Functions are scored by their names.  The score of a name is the highest of all its definitions that
have a body, wherever these stand in the tree, be it that the walk comes to them or not; without
such a definition it is 0 (`SyntaxNode.highestScore`).  Each function of a file has the score of its
name and the class that belongs to it, and nothing else is changed by measuring
(`FileContent.scores_of_definitions`).

Scores are kept in 32 bits.  A body has fewer decision points than the tree has nodes, so in a tree
with fewer than `2 ^ 32` nodes no score is cut off.
-/

namespace CodeAtlas

/-! ### Tables of scores -/

namespace Scores

/-- A score is put in under its own name. -/
lemma getElem?_raise (scores : Scores) (name key : String) (score : UInt32) :
    (scores.raise name score)[key]? =
      if name = key then
        some (match scores[key]? with
          | some old => max old score
          | none => score)
      else scores[key]? := by
  rw [raise, Std.ExtTreeMap.getElem?_alter]
  by_cases hkey : name = key
  · subst hkey
    cases scores[name]? <;> simp
  · simp [hkey]

/-- The score of a name after others have been put in is the highest of its scores. -/
lemma toNat_foldl_raise (xs : List (String × UInt32)) (scores : Scores) (name : String) :
    ((xs.foldl (fun scores p => scores.raise p.1 p.2) scores)[name]?).map UInt32.toNat =
      ((scores[name]?.map UInt32.toNat).toList ++
        (xs.filter fun p => p.1 == name).map fun p => p.2.toNat).max? := by
  induction xs generalizing scores with
  | nil =>
    rw [List.foldl_nil]
    cases scores[name]? <;> rfl
  | cons p xs ih =>
    rw [List.foldl_cons, ih, getElem?_raise, List.filter_cons]
    by_cases hname : p.1 = name
    · rw [if_pos hname, if_pos (beq_iff_eq.mpr hname)]
      cases scores[name]? with
      | none => rfl
      | some old =>
        simp only [Option.map_some, Option.toList_some, List.singleton_append, List.map_cons,
          List.max?_cons', List.foldl_cons, UInt32.toNat_max]
    · rw [if_neg hname, if_neg (by simpa using hname)]

end Scores

/-! ### The scores of a tree -/

namespace SyntaxNode

variable (read : Reading) {tree n body : SyntaxNode} {name : String}

/-- The definitions of functions with a name, wherever they stand in a tree. -/
def definitionsOf (tree : SyntaxNode) (name : String) : List SyntaxNode :=
  tree.preorder.filter fun n =>
    n.kind == "function_definition" && functionName? read n == some name

/-- The scores of a name in a tree: for each of its definitions that has a body, one more than the
number of decision points in the body. -/
def scoresOf (tree : SyntaxNode) (name : String) : List Nat :=
  (definitionsOf read tree name).filterMap fun n =>
    (n.inField? "body").map fun body => 1 + (body.preorder.filter (isDecision read)).length

/-- The highest score of a name in a tree, or 0 if the name has none. -/
def highestScore (tree : SyntaxNode) (name : String) : Nat := (scoresOf read tree name).max?.getD 0

/-- The score of a body is not cut off if the tree around it is not too large. -/
lemma toNat_bodyScore (htree : tree.preorder.length < wordValues 32) (hn : n ∈ tree.preorder)
    (hbody : n.inField? "body" = some body) :
    (bodyScore read body).toNat = 1 + (body.preorder.filter (isDecision read)).length := by
  have hdecisions := List.length_filter_le (isDecision read) body.preorder
  have hchild := length_preorder_lt (List.mem_of_find?_eq_some hbody)
  have hnode := (sublist_preorder tree n hn).length_le
  have hbound : 1 + (body.preorder.filter (isDecision read)).length < 2 ^ 32 :=
    lt_of_le_of_lt (by omega) htree
  exact Nat.mod_eq_of_lt hbound

/-- The scores that a tree is measured with are those of its names. -/
lemma filterMap_namedScore? (htree : tree.preorder.length < wordValues 32) (name : String) :
    (((tree.preorder.filterMap (namedScore? read)).filter fun p => p.1 == name).map
      fun p => p.2.toNat) = scoresOf read tree name := by
  rw [scoresOf, definitionsOf, List.filterMap_filter, List.filter_filterMap, List.map_filterMap]
  refine List.filterMap_congr fun n hn => ?_
  rw [namedScore?]
  by_cases hkind : n.kind = "function_definition"
  · cases hname : functionName? read n with
    | none => simp [hkind]
    | some own =>
      cases hbody : n.inField? "body" with
      | none => simp [hkind]
      | some body =>
        by_cases hown : own = name
        · simp [hkind, hown, toNat_bodyScore read htree hn hbody]
        · simp [hkind, hown]
  · simp [hkind]

/-- Measuring gives every name its highest score. -/
lemma toNat_measure (htree : tree.preorder.length < wordValues 32) (name : String) :
    ((Measurer.cyclomatic.measure read tree)[name]?).map UInt32.toNat =
      (scoresOf read tree name).max? := by
  rw [← filterMap_namedScore? read htree, Measurer.measure]
  refine (Scores.toNat_foldl_raise _ ∅ name).trans ?_
  rw [Std.ExtTreeMap.getElem?_empty]
  rfl

/-- The highest score of a name fits into a word. -/
lemma toNat_highestScore (htree : tree.preorder.length < wordValues 32) (name : String) :
    (highestScore read tree name).toUInt32.toNat = highestScore read tree name := by
  rw [highestScore, ← toNat_measure read htree]
  cases (Measurer.cyclomatic.measure read tree)[name]? with
  | none => rfl
  | some word => simp

/-- A definition with a body counts for its name. -/
lemma one_le_highestScore (hn : n ∈ tree.preorder) (hkind : n.kind = "function_definition")
    (hname : functionName? read n = some name) (hbody : (n.inField? "body").isSome = true) :
    1 ≤ highestScore read tree name := by
  obtain ⟨body, hbody⟩ := Option.isSome_iff_exists.mp hbody
  have hdefinition : n ∈ definitionsOf read tree name :=
    List.mem_filter.mpr ⟨hn, by simp [hkind, hname]⟩
  have hscore : 1 + (body.preorder.filter (isDecision read)).length ∈ scoresOf read tree name :=
    List.mem_filterMap.mpr ⟨n, hdefinition, by rw [hbody]; rfl⟩
  obtain ⟨highest, hhighest⟩ :=
    Option.isSome_iff_exists.mp (List.isSome_max?_of_mem hscore)
  have hle := (List.max?_eq_some_iff.mp hhighest).2 _ hscore
  rw [highestScore, hhighest, Option.getD_some]
  omega

end SyntaxNode

/-! ### The scores of functions -/

/-- A symbol is a function with a score and the class that belongs to it. -/
def Symbol.HasScore (s : Symbol) (score : Nat) : Prop :=
  ∃ returnType parameters word,
    s.detail = .function returnType parameters (Complexity.ofScore word) word ∧
      word.toNat = score

namespace Extraction

variable {file : String} {read : Reading} {tree : SyntaxNode}

/-- Functions are found without a score. -/
lemma exists_unmeasured {x : Symbol × List String} (hx : x ∈ entries file read tree)
    (hfunction : x.1.isFunction = true) :
    ∃ returnType parameters, x.1.detail = .unmeasured returnType parameters := by
  have hmem : x ∈ (entries file read tree).filter fun x => x.1.kind == .function :=
    List.mem_filter.mpr ⟨hx, hfunction⟩
  obtain ⟨n, -, _, ⟨i, rfl⟩, declarator, name, -, -, rfl⟩ :=
    exists_of_mem_of_forall₂ (forall₂_givesFunction file read tree) hmem
  exact ⟨_, _, rfl⟩

/-- Without measuring no symbol gets a score. -/
lemma symbols_unmeasured : (ofTree .unmeasured file read tree).symbols =
    (entries file read tree).map (·.1) := by
  rw [symbols_ofTree]
  refine List.map_congr_left fun x _ => ?_
  simp [scored, Measurer.measure]

/-- A function that is found without a score gets the highest score of its name. -/
lemma scored_of_unmeasured (htree : tree.preorder.length < wordValues 32) {s : Symbol}
    {returnType : String} {parameters : List String}
    (hdetail : s.detail = .unmeasured returnType parameters) :
    scored (Measurer.cyclomatic.measure read tree) s =
      s.withScore (tree.highestScore read s.name).toUInt32 := by
  have hscore := SyntaxNode.toNat_measure read htree s.name
  rw [SyntaxNode.highestScore, ← hscore, scored]
  cases (Measurer.cyclomatic.measure read tree)[s.name]? with
  | none =>
    obtain ⟨id, name, file, line, declaration, origin, detail⟩ := s
    change detail = _ at hdetail
    subst hdetail
    rfl
  | some word => simp

/-- A function that is found without a score has the highest score of its name in the end. -/
lemma hasScore_scored (htree : tree.preorder.length < wordValues 32) {s : Symbol}
    {returnType : String} {parameters : List String}
    (hdetail : s.detail = .unmeasured returnType parameters) :
    (scored (Measurer.cyclomatic.measure read tree) s).HasScore
    (tree.highestScore read s.name) := by
  rw [scored_of_unmeasured htree hdetail]
  refine ⟨returnType, parameters, (tree.highestScore read s.name).toUInt32, ?_,
    SyntaxNode.toNat_highestScore read htree s.name⟩
  rw [Symbol.withScore, hdetail]
  rfl

/-- The functions of a file have the highest scores of their names. -/
lemma hasScore_of_mem (htree : tree.preorder.length < wordValues 32) {s : Symbol}
    (hs : s ∈ (ofTree .cyclomatic file read tree).symbols) (hfunction : s.isFunction = true) :
    s.HasScore (tree.highestScore read s.name) := by
  rw [symbols_ofTree, List.mem_map] at hs
  obtain ⟨x, hx, rfl⟩ := hs
  rw [isFunction_scored] at hfunction
  obtain ⟨returnType, parameters, hdetail⟩ := exists_unmeasured hx hfunction
  rw [name_scored]
  exact hasScore_scored htree hdetail

/-- Measuring changes nothing but the scores of functions. -/
lemma ofTree_cyclomatic (htree : tree.preorder.length < wordValues 32) :
    ofTree .cyclomatic file read tree =
      { ofTree .unmeasured file read tree with
        symbols := (ofTree .unmeasured file read tree).symbols.map fun s =>
          if s.isFunction then s.withScore (tree.highestScore read s.name).toUInt32 else s } := by
  have hsymbols : (ofTree .cyclomatic file read tree).symbols =
      (ofTree .unmeasured file read tree).symbols.map fun s =>
        if s.isFunction then s.withScore (tree.highestScore read s.name).toUInt32 else s := by
    rw [symbols_ofTree, symbols_unmeasured, List.map_map]
    refine List.map_congr_left fun x hx => ?_
    cases hfunction : x.1.isFunction with
    | true =>
      obtain ⟨returnType, parameters, hdetail⟩ := exists_unmeasured hx hfunction
      rw [scored_of_unmeasured htree hdetail, Function.comp_apply, if_pos hfunction]
    | false =>
      have hkind : x.1.kind ≠ .function := fun h => by simp [Symbol.isFunction, h] at hfunction
      rw [scored_of_kind_ne _ hkind, Function.comp_apply, if_neg (by simp [hfunction])]
  rw [← hsymbols]
  rfl

end Extraction

namespace FileContent

/-- Every file with a supported extension and a syntax tree of fewer than `2 ^ 32` nodes is
extracted, and each of its functions has the highest score of its name and the class that belongs to
it.  The functions are those of the definitions with a name to which the walk comes, one after the
other, and if such a definition has a body the score is at least 1.  Against the extraction without
measuring, nothing is changed but the scores of functions. -/
theorem scores_of_definitions {file : String} {content : FileContent} {tree : SyntaxNode}
    (hfile : (Language.ofPath? file).isSome = true) (htree : content.tree = some tree)
    (hsize : tree.preorder.length < wordValues 32) :
    let read := readingOf (Text.decodeLossy content.bytes)
    ∃ e e₀, content.extract .cyclomatic file = .ok e ∧ content.extract .unmeasured file = .ok e₀ ∧
      (∀ s ∈ e.symbols, s.isFunction = true → s.HasScore (tree.highestScore read s.name)) ∧
      List.Forall₂ (fun s n => SyntaxNode.functionName? read n = some s.name ∧ s.line = n.line ∧
          ∃ score, s.HasScore score ∧ ((n.inField? "body").isSome = true → 1 ≤ score))
        (e.symbols.filter (·.isFunction)) (tree.definitions read) ∧
      e = { e₀ with symbols := e₀.symbols.map fun s =>
        if s.isFunction then s.withScore (tree.highestScore read s.name).toUInt32 else s } := by
  intro read
  refine ⟨_, _, extract_eq .cyclomatic hfile htree, extract_eq .unmeasured hfile htree,
    fun s hs hfunction => Extraction.hasScore_of_mem hsize hs hfunction, ?_,
    Extraction.ofTree_cyclomatic hsize⟩
  obtain ⟨hlength, hdefines⟩ :=
    List.forall₂_iff_zip.mp (Extraction.forall₂_functionSymbols .cyclomatic file read tree)
  refine List.forall₂_iff_zip.mpr ⟨hlength, fun {s n} hx => ?_⟩
  obtain ⟨-, hname, hline, -⟩ := hdefines hx
  obtain ⟨hs, hfunction⟩ := List.mem_filter.mp (List.of_mem_zip hx).1
  obtain ⟨hn, hkind⟩ := SyntaxNode.mem_preorder_of_mem_definitions (List.of_mem_zip hx).2
  exact ⟨hname, hline, _, Extraction.hasScore_of_mem hsize hs hfunction,
    SyntaxNode.one_le_highestScore read hn hkind hname⟩

/-- A file that defines a function twice, under the two branches of a conditional of the
preprocessor, and the second time with a conditional expression. -/
def twoBranches : FileContent where
  bytes := "#if A\nint f() { }\n#else\nint f() { b ? c : d; }\n#endif\n".toUTF8
  tree := some
    ⟨"translation_unit", true, none, ⟨0, 54⟩, 0, [
      ⟨"preproc_if", true, none, ⟨0, 53⟩, 0, [
        ⟨"identifier", true, some "condition", ⟨4, 5⟩, 0, []⟩,
        ⟨"function_definition", true, none, ⟨6, 17⟩, 1, [
          ⟨"primitive_type", true, some "type", ⟨6, 9⟩, 1, []⟩,
          ⟨"function_declarator", true, some "declarator", ⟨10, 13⟩, 1, [
            ⟨"identifier", true, some "declarator", ⟨10, 11⟩, 1, []⟩,
            ⟨"parameter_list", true, some "parameters", ⟨11, 13⟩, 1, []⟩]⟩,
          ⟨"compound_statement", true, some "body", ⟨14, 17⟩, 1, []⟩]⟩,
        ⟨"preproc_else", true, some "alternative", ⟨18, 46⟩, 2, [
          ⟨"function_definition", true, none, ⟨24, 46⟩, 3, [
            ⟨"primitive_type", true, some "type", ⟨24, 27⟩, 3, []⟩,
            ⟨"function_declarator", true, some "declarator", ⟨28, 31⟩, 3, [
              ⟨"identifier", true, some "declarator", ⟨28, 29⟩, 3, []⟩,
              ⟨"parameter_list", true, some "parameters", ⟨29, 31⟩, 3, []⟩]⟩,
            ⟨"compound_statement", true, some "body", ⟨32, 46⟩, 3, [
              ⟨"expression_statement", true, none, ⟨34, 44⟩, 3, [
                ⟨"conditional_expression", true, none, ⟨34, 43⟩, 3, [
                  ⟨"identifier", true, some "condition", ⟨34, 35⟩, 3, []⟩,
                  ⟨"identifier", true, some "consequence", ⟨38, 39⟩, 3, []⟩,
                  ⟨"identifier", true, some "alternative", ⟨42, 43⟩, 3, []⟩]⟩]⟩]⟩]⟩]⟩]⟩]⟩

/-- Both functions of this file have the score of the second. -/
theorem scores_of_definitions_twoBranches :
    (Language.ofPath? "src/a.c").isSome = true ∧ twoBranches.tree.isSome = true ∧
      (twoBranches.tree.get rfl).preorder.length < wordValues 32 ∧
      ∃ e, twoBranches.extract .cyclomatic "src/a.c" = .ok e ∧
        (e.symbols.filter (·.isFunction)).map (·.name) = ["f", "f"] ∧
        ∀ s ∈ e.symbols.filter (·.isFunction), s.HasScore 2 := by
  have hfile : (Language.ofPath? "src/a.c").isSome = true := by decide
  have htree : twoBranches.tree = some (twoBranches.tree.get rfl) := rfl
  have hsize : (twoBranches.tree.get rfl).preorder.length < wordValues 32 := by decide +kernel
  let read := readingOf (Text.decodeLossy twoBranches.bytes)
  obtain ⟨e, -, hextract, -, hscores, hdefines, -⟩ := scores_of_definitions hfile htree hsize
  have hnames : List.Forall₂ (· = ·) ((e.symbols.filter (·.isFunction)).map fun s => some s.name)
      (((twoBranches.tree.get rfl).definitions read).map (SyntaxNode.functionName? read)) := by
    rw [List.forall₂_map_left_iff, List.forall₂_map_right_iff]
    exact hdefines.imp fun s n h => h.1.symm
  have hdefined : ((twoBranches.tree.get rfl).definitions read).map
      (SyntaxNode.functionName? read) = ["f", "f"].map some := by
    decide +kernel
  have hhighest : (twoBranches.tree.get rfl).highestScore read "f" = 2 := by decide +kernel
  rw [List.forall₂_eq_eq_eq, hdefined, ← Function.comp_def, ← List.map_map] at hnames
  have hboth : (e.symbols.filter (·.isFunction)).map (·.name) = ["f", "f"] :=
    List.map_injective_iff.mpr (fun _ _ => Option.some.inj) hnames
  refine ⟨hfile, rfl, hsize, e, hextract, hboth, fun s hs => ?_⟩
  have hname : s.name ∈ ["f", "f"] := hboth ▸ List.mem_map_of_mem hs
  have hf : s.name = "f" := by simpa using hname
  obtain ⟨hmem, hfunction⟩ := List.mem_filter.mp hs
  rw [← hhighest, ← hf]
  exact hscores s hmem hfunction

end FileContent

end CodeAtlas
