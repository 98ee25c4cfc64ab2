import CodeAtlas.Proofs.Extraction.MistakenComments
import CodeAtlas.Proofs.Extraction.Numbering

/-!
# Where a comment shows in an extraction

Comments that are held under no field are taken out of a syntax tree, while the text and all ranges
stay.  `FileContent.extract_eq_iff_of_uncommented` says when the extraction of the file does not
change: always if the tree holds no node that takes a comment for something else, and otherwise
exactly if it shows at none of the visited nodes.

What makes this condition necessary, even though identifiers are digests and the calls of all
functions stand in one list, is that the effects cannot make up for each other.  Taking out comments
only ever adds names to a function and only ever takes away variables, so equal numbers of symbols
and calls are equal function by function.
-/

namespace CodeAtlas

/-! ### From extractions back to findings -/

namespace Extraction

open SyntaxNode (Near)

variable {file : String} {found found' : List Finding}

/-- The calls of numbered symbols. -/
def callsOf (symbols : List (Symbol × List String)) : List CallReference :=
  symbols.flatMap fun p => p.2.map fun c => ⟨p.1.id, c⟩

/-- A finding is a symbol or an include. -/
lemma length_findings (file : String) (found : List Finding) :
    found.length = (ofFindings file found).symbols.length +
      (ofFindings file found).includes.length := by
  have hcount (ordinal : Nat) : found.length =
      (numbered file ordinal found).length + (includesOf file found).length := by
    induction found generalizing ordinal with
    | nil => rfl
    | cons f found ih =>
      cases f with
      | symbol draft callees =>
        rw [List.length_cons, ih (ordinal + 1), numbered, List.length_cons, Nat.add_right_comm]
        rfl
      | include_ target style =>
        rw [List.length_cons, ih ordinal, numbered, Nat.add_assoc]
        rfl
  rw [hcount 0, ofFindings, List.length_map]

/-- Findings that are near make no fewer calls. -/
lemma length_callsOf_le (file : String) (h : List.Forall₂ Near found found') (ordinal : Nat) :
    (callsOf (numbered file ordinal found)).length ≤
      (callsOf (numbered file ordinal found')).length := by
  induction h generalizing ordinal with
  | nil => exact le_rfl
  | @cons f f' _ _ hnear _ ih =>
    cases hnear with
    | same =>
      cases f with
      | symbol draft callees =>
        simpa [numbered, callsOf] using ih (ordinal + 1)
      | include_ target style => exact ih ordinal
    | calls draft hle =>
      have := ih (ordinal + 1)
      simp only [numbered, callsOf, List.flatMap_cons, List.length_append,
        List.length_map] at this ⊢
      omega
    | parameters => simpa [numbered, callsOf] using ih (ordinal + 1)

/-- Near findings that amount to the same symbols and calls are the same.  The induction is on the
findings; since no finding makes fewer calls than the one that it is near to, the calls of each of
them stand at the same places. -/
lemma eq_of_near (scores : Scores) (h : List.Forall₂ Near found found') (ordinal : Nat)
    (hsymbols : (numbered file ordinal found').map (fun p => scored scores p.1) =
      (numbered file ordinal found).map (fun p => scored scores p.1))
    (hcalls : callsOf (numbered file ordinal found') = callsOf (numbered file ordinal found)) :
    found' = found := by
  induction h generalizing ordinal with
  | nil => rfl
  | @cons f f' _ _ hnear hrest ih =>
    cases hnear with
    | same =>
      cases f with
      | include_ target style => rw [ih ordinal hsymbols hcalls]
      | symbol draft callees =>
        simp only [numbered, List.map_cons, callsOf, List.flatMap_cons] at hsymbols hcalls
        rw [ih (ordinal + 1) (List.cons.inj hsymbols).2 (List.append_cancel_left hcalls)]
    | @calls draft callees callees' hle =>
      simp only [numbered, List.map_cons] at hsymbols
      simp only [numbered, callsOf, List.flatMap_cons] at hcalls
      have hless := length_callsOf_le file hrest (ordinal + 1)
      have hlength := congrArg List.length hcalls
      simp only [List.length_append, List.length_map] at hlength
      obtain ⟨hfirst, hothers⟩ := List.append_inj hcalls (by
        simp only [callsOf] at hless
        simp only [List.length_map]
        omega)
      have hcallees : callees' = callees :=
        List.map_injective_iff.mpr (fun c d hcd => (CallReference.mk.inj hcd).2) hfirst
      rw [hcallees, ih (ordinal + 1) (List.cons.inj hsymbols).2 hothers]
    | parameters name line declaration value ps ps' =>
      simp only [numbered, List.map_cons, callsOf, List.flatMap_cons, List.map_nil,
        List.nil_append] at hsymbols hcalls
      obtain ⟨hfirst, hothers⟩ := List.cons.inj hsymbols
      have hps : ps' = ps := by
        have hdetail := congrArg Symbol.detail hfirst
        simp only [scored, SymbolDraft.toSymbol] at hdetail
        cases hscore : scores[name]? with
        | none =>
          rw [hscore] at hdetail
          exact (SymbolDetail.define.inj hdetail).1
        | some score =>
          rw [hscore] at hdetail
          exact (SymbolDetail.define.inj hdetail).1
      rw [hps, ih (ordinal + 1) hothers hcalls]

/-- Findings that amount to the same extraction are as many. -/
lemma length_eq_of_withScores_eq (scores : Scores)
    (h : (ofFindings file found').withScores scores = (ofFindings file found).withScores scores) :
    found'.length = found.length := by
  have hsymbols := congrArg (fun e : Extraction => e.symbols.length) h
  simp only [withScores, List.length_map] at hsymbols
  have hincludes := congrArg (fun e : Extraction => e.includes.length) h
  simp only [withScores] at hincludes
  rw [length_findings file found', length_findings file found, hsymbols, hincludes]

/-- Near findings that amount to the same extraction are the same. -/
lemma eq_of_near_of_withScores_eq (scores : Scores) (hnear : List.Forall₂ Near found found')
    (h : (ofFindings file found').withScores scores = (ofFindings file found).withScores scores) :
    found' = found := by
  have hsymbols := congrArg Extraction.symbols h
  simp only [withScores, ofFindings, List.map_map, Function.comp_def] at hsymbols
  exact eq_of_near scores hnear 0 hsymbols (congrArg Extraction.calls h)

end Extraction

/-! ### Extractions -/

namespace FileContent

open SyntaxNode

variable {tree tree' : SyntaxNode}

/-- If comments show at none of the nodes at which the walk stops, the file is extracted as
before. -/
lemma extract_eq_of_leavesFindings (measurer : Measurer) (file : String) (bytes : ByteArray)
    (h : Uncommented tree tree')
    (hleaves : List.Forall₂ (LeavesFindings (readingOf (Text.decodeLossy bytes)))
      (tree.visits .file) (tree'.visits .file)) :
    FileContent.extract measurer file ⟨bytes, some tree'⟩ =
      FileContent.extract measurer file ⟨bytes, some tree⟩ := by
  revert hleaves
  simp only [FileContent.extract]
  generalize readingOf (Text.decodeLossy bytes) = read
  intro hleaves
  rw [Extraction.ofTree, Extraction.ofTree, h.measure_eq, findings_eq_flatMap_visits,
    findings_eq_flatMap_visits, flatMap_eq_of_forall₂ (h.forall₂_visits .file) hleaves
      fun v v' hv hall => (compares_visitFindings read hv).eq_iff.mpr hall]

/-- If a file of a language is extracted as before, comments show at none of the nodes at which the
walk stops. -/
lemma leavesFindings_of_extract_eq (measurer : Measurer) {file : String}
    (hfile : (Language.ofPath? file).isSome = true) (bytes : ByteArray) (h : Uncommented tree tree')
    (heq : FileContent.extract measurer file ⟨bytes, some tree'⟩ =
      FileContent.extract measurer file ⟨bytes, some tree⟩) :
    List.Forall₂ (LeavesFindings (readingOf (Text.decodeLossy bytes))) (tree.visits .file)
      (tree'.visits .file) := by
  obtain ⟨language, hlanguage⟩ := Option.isSome_iff_exists.mp hfile
  simp only [FileContent.extract, hlanguage, Except.ok.injEq] at heq
  revert heq
  generalize readingOf (Text.decodeLossy bytes) = read
  intro heq
  rw [Extraction.ofTree, Extraction.ofTree, h.measure_eq, findings_eq_flatMap_visits,
    findings_eq_flatMap_visits] at heq
  -- there are as many findings, so no visit loses one, and each is near to what it was
  have hparts := forall₂_length_eq_of_flatMap (h.forall₂_visits .file)
    (fun v v' hv => (compares_visitFindings read hv).length_le)
    (Extraction.length_eq_of_withScores_eq _ heq)
  have hnear : List.Forall₂ Near ((tree.visits .file).flatMap (visitFindings read))
      ((tree'.visits .file).flatMap (visitFindings read)) :=
    List.rel_flatMap hparts fun v v' hv => (compares_visitFindings read hv.1).near hv.2
  have hfound := Extraction.eq_of_near_of_withScores_eq _ hnear heq
  exact (forall₂_eq_of_flatMap hparts hfound).imp fun v v' hv =>
    (compares_visitFindings read hv.1).eq_iff.mp hv.2

/-- Comments that are held under no field do not show in what is extracted from a file if no node of
its tree takes a comment for a callee, a parameter or a declarator.  In general they show exactly
if, at some node at which the walk stops, a function calls other names without them, a definition of
the preprocessor loses what it takes for a parameter, or a declarator becomes a prototype. -/
theorem extract_eq_iff_of_uncommented (measurer : Measurer) {file : String}
    (hfile : (Language.ofPath? file).isSome = true) (bytes : ByteArray)
    (h : Uncommented tree tree') :
    ((∀ n ∈ tree.preorder, n.mistakesComment = false) →
        FileContent.extract measurer file ⟨bytes, some tree'⟩ =
          FileContent.extract measurer file ⟨bytes, some tree⟩) ∧
      (FileContent.extract measurer file ⟨bytes, some tree'⟩ =
          FileContent.extract measurer file ⟨bytes, some tree⟩ ↔
        List.Forall₂ (LeavesFindings (readingOf (Text.decodeLossy bytes))) (tree.visits .file)
          (tree'.visits .file)) := by
  refine ⟨fun hclean => ?_, ?_, ?_⟩
  · exact extract_eq_of_leavesFindings measurer file bytes h (forall₂_leavesFindings _ h hclean)
  · exact leavesFindings_of_extract_eq measurer hfile bytes h
  · exact extract_eq_of_leavesFindings measurer file bytes h

/-- A function that calls another one through a pointer. -/
def pointerCallBytes : ByteArray := "void f(void) { /* b */ (/* c */ *g)(); }\n".toUTF8

/-- The syntax tree of this function, with the comments that stand before the call and those that
stand in the parentheses around its callee. -/
def pointerCall (before inside : List SyntaxNode) : SyntaxNode :=
  ⟨"translation_unit", true, none, ⟨0, 41⟩, 0, [
    ⟨"function_definition", true, none, ⟨0, 40⟩, 0, [
      ⟨"primitive_type", true, some "type", ⟨0, 4⟩, 0, []⟩,
      ⟨"function_declarator", true, some "declarator", ⟨5, 12⟩, 0, [
        ⟨"identifier", true, some "declarator", ⟨5, 6⟩, 0, []⟩,
        ⟨"parameter_list", true, some "parameters", ⟨6, 12⟩, 0, [
          ⟨"parameter_declaration", true, none, ⟨7, 11⟩, 0, [
            ⟨"primitive_type", true, some "type", ⟨7, 11⟩, 0, []⟩]⟩]⟩]⟩,
      ⟨"compound_statement", true, some "body", ⟨13, 40⟩, 0, before ++ [
        ⟨"expression_statement", true, none, ⟨23, 38⟩, 0, [
          ⟨"call_expression", true, none, ⟨23, 37⟩, 0, [
            ⟨"parenthesized_expression", true, some "function", ⟨23, 35⟩, 0, inside ++ [
              ⟨"pointer_expression", true, none, ⟨32, 34⟩, 0, [
                ⟨"*", false, some "operator", ⟨32, 33⟩, 0, []⟩,
                ⟨"identifier", true, some "argument", ⟨33, 34⟩, 0, []⟩]⟩]⟩,
            ⟨"argument_list", true, some "arguments", ⟨35, 37⟩, 0, []⟩]⟩]⟩]⟩]⟩]⟩

/-- The comment before the call. -/
def commentBefore : SyntaxNode := ⟨"comment", true, none, ⟨15, 22⟩, 0, []⟩

/-- The comment in the parentheses. -/
def commentInside : SyntaxNode := ⟨"comment", true, none, ⟨24, 31⟩, 0, []⟩

/-- The comment before the call can be taken out. -/
lemma uncommented_before (inside : List SyntaxNode) :
    Uncommented (pointerCall [commentBefore] inside) (pointerCall [] inside) := by
  refine .node (.keep (.node (.keep (.refl _) (.keep (.refl _) (.keep (.node ?_) .nil)))) .nil)
  exact .drop ⟨rfl, rfl, rfl⟩ (.refl _)

/-- The comment in the parentheses can be taken out. -/
lemma uncommented_inside (before : List SyntaxNode) :
    Uncommented (pointerCall before [commentInside]) (pointerCall before []) := by
  refine .node (.keep (.node (.keep (.refl _) (.keep (.refl _) (.keep (.node ?_) .nil)))) .nil)
  refine (UncommentedAll.refl before).append (.keep (.node (.keep (.node ?_) .nil)) .nil)
  exact .keep (.node (.drop ⟨rfl, rfl, rfl⟩ (.refl _))) (.refl _)

/-- The comment before the call does not show, be there another one in the parentheses or not. -/
theorem extract_eq_uncommented_before :
    (Language.ofPath? "a.c").isSome = true ∧
      (Uncommented (pointerCall [commentBefore] []) (pointerCall [] []) ∧
        (∀ n ∈ (pointerCall [commentBefore] []).preorder, n.mistakesComment = false) ∧
        FileContent.extract .cyclomatic "a.c" ⟨pointerCallBytes, some (pointerCall [] [])⟩ =
          FileContent.extract .cyclomatic "a.c"
            ⟨pointerCallBytes, some (pointerCall [commentBefore] [])⟩) ∧
      Uncommented (pointerCall [commentBefore] [commentInside]) (pointerCall [] [commentInside]) ∧
      FileContent.extract .cyclomatic "a.c"
          ⟨pointerCallBytes, some (pointerCall [] [commentInside])⟩ =
        FileContent.extract .cyclomatic "a.c"
          ⟨pointerCallBytes, some (pointerCall [commentBefore] [commentInside])⟩ := by
  have hclean : ∀ n ∈ (pointerCall [commentBefore] []).preorder, n.mistakesComment = false := by
    decide +kernel
  refine ⟨by decide, ⟨uncommented_before _, hclean, ?_⟩, uncommented_before _, ?_⟩
  · exact (extract_eq_iff_of_uncommented .cyclomatic (by decide) pointerCallBytes
      (uncommented_before _)).1 hclean
  · refine (extract_eq_iff_of_uncommented .cyclomatic (by decide) pointerCallBytes
      (uncommented_before _)).2.mpr ?_
    exact .cons ⟨fun _ _ => rfl, nofun, nofun⟩ .nil

/-- The comment in the parentheses shows: with it the call is not found. -/
theorem not_extract_eq_uncommented_inside :
    Uncommented (pointerCall [commentBefore] [commentInside]) (pointerCall [commentBefore] []) ∧
      FileContent.extract .cyclomatic "a.c"
          ⟨pointerCallBytes, some (pointerCall [commentBefore] [])⟩ ≠
        FileContent.extract .cyclomatic "a.c"
          ⟨pointerCallBytes, some (pointerCall [commentBefore] [commentInside])⟩ := by
  refine ⟨uncommented_inside _, fun h => ?_⟩
  have hcount := congrArg (fun r => r.toOption.map fun e => e.calls.length) h
  exact absurd hcount (by decide +kernel)

end FileContent

end CodeAtlas
