import CodeAtlas.Proofs.Extraction.WellFormed
import Mathlib.Data.List.Nodup

/-!
# How the symbols of a file are numbered

The symbols of an extraction are numbered in the order in which they are found, and the number is
part of the content from which an identifier is derived.  While the numbers fit into 32 bits no two
symbols of a file have the same content, whatever the tree is.  Whether their identifiers differ as
well is up to the digest, so where that matters it is a hypothesis: the identifiers of this file's
contents are distinct.

`FileContent.isTreeExtraction_extract` collects what the rest of the library relies on: every file
with a supported extension and a syntax tree is extracted, its symbols have the identifiers of their
contents and stand in the file, the calls come from its functions and none is recorded twice, and
the includes are those of the file.
-/

namespace CodeAtlas

/-- The symbol of a finding with the names that it calls. -/
def Finding.draft? : Finding → Option (SymbolDraft × List String)
  | .symbol draft callees => some (draft, callees)
  | .include_ _ _ => none

/-- Lines are counted from one. -/
lemma SyntaxNode.one_le_line (n : SyntaxNode) : 1 ≤ n.line := by
  have hbound : min (n.row + 1) (wordValues 32 - 1) < 2 ^ 32 :=
    lt_of_le_of_lt (Nat.min_le_right _ _) (by decide)
  have hone : 1 ≤ min (n.row + 1) (wordValues 32 - 1) :=
    le_min (Nat.le_add_left 1 _) (by decide)
  have hvalue : n.line.toNat = min (n.row + 1) (wordValues 32 - 1) := Nat.mod_eq_of_lt hbound
  rwa [UInt32.le_iff_toNat_le, hvalue]

namespace Extraction

variable {e : Extraction} {file : String} {found : List Finding}

/-- The symbols of findings are their drafts, numbered from the given ordinal. -/
lemma numbered_eq (file : String) (ordinal : Nat) (found : List Finding) :
    numbered file ordinal found = ((found.filterMap Finding.draft?).zipIdx ordinal).map
      fun p => (p.1.1.toSymbol file .syntaxTree p.2, p.1.2) := by
  induction found generalizing ordinal with
  | nil => rfl
  | cons f found ih =>
    cases f with
    | symbol draft callees => simp only [numbered, ih, List.filterMap_cons, Finding.draft?,
        List.zipIdx_cons, List.map_cons]
    | include_ target style => simp only [numbered, ih, List.filterMap_cons, Finding.draft?]

/-- Scores change no name. -/
@[simp] lemma name_scored (scores : Scores) (s : Symbol) : (scored scores s).name = s.name := by
  unfold scored
  split <;> rfl

/-- Scores change no line. -/
@[simp] lemma line_scored (scores : Scores) (s : Symbol) : (scored scores s).line = s.line := by
  unfold scored
  split <;> rfl

/-- Scores change no origin. -/
@[simp] lemma origin_scored (scores : Scores) (s : Symbol) :
    (scored scores s).origin = s.origin := by
  unfold scored
  split <;> rfl

/-- Scores change no kind. -/
@[simp] lemma kind_scored (scores : Scores) (s : Symbol) : (scored scores s).kind = s.kind := by
  unfold scored
  split
  · simp [Symbol.kind, Symbol.withScore]
  · rfl

/-- The contents from which the symbols of an extraction get their identifiers: what each of them is
and the number under which it was found. -/
def contents (e : Extraction) (file : String) : List SymbolId.Content :=
  e.symbols.zipIdx.map fun p =>
    ⟨.syntaxTree, p.1.kind, p.1.name, file, p.1.line, p.2.toUInt32⟩

/-- Contents differ in their numbers while these fit into a word. -/
lemma nodup_contents (h : e.symbols.length ≤ wordValues 32) : (e.contents file).Nodup := by
  apply List.Nodup.of_map SymbolId.Content.ordinal
  have hordinals : (e.contents file).map SymbolId.Content.ordinal =
      (List.range' 0 e.symbols.length).map Nat.toUInt32 := by
    rw [contents, List.map_map, ← List.zipIdx_map_snd 0 e.symbols, List.map_map]
    rfl
  rw [hordinals]
  refine List.Nodup.map_on ?_ List.nodup_range'
  intro i hi j hj hij
  have hi' : i < 2 ^ 32 := by
    have := (List.mem_range'_1.mp hi).2
    exact lt_of_lt_of_le (by omega) h
  have hj' : j < 2 ^ 32 := by
    have := (List.mem_range'_1.mp hj).2
    exact lt_of_lt_of_le (by omega) h
  have hnat : i % 2 ^ 32 = j % 2 ^ 32 := congrArg UInt32.toNat hij
  rwa [Nat.mod_eq_of_lt hi', Nat.mod_eq_of_lt hj'] at hnat

/-- What the rest of the library relies on in an extraction from the syntax tree of a file. -/
structure IsTreeExtraction (e : Extraction) (file : String) : Prop where
  /-- Each symbol has the identifier of its content, in which its number is its place. -/
  ids_eq : e.symbols.map (·.id) = (e.contents file).map SymbolId.derive
  /-- No two symbols have the same content. -/
  contents_nodup : e.symbols.length ≤ wordValues 32 → (e.contents file).Nodup
  /-- Every symbol names the file and the method, and lines are counted from one. -/
  of_mem_symbols : ∀ s ∈ e.symbols, s.file = file ∧ s.origin = .syntaxTree ∧ 1 ≤ s.line
  /-- Every call comes from a function of the same file. -/
  caller_mem : ∀ r ∈ e.calls, ∃ s ∈ e.symbols, s.isFunction = true ∧ s.id = r.caller
  /-- No function calls a name twice, provided that the digest tells the contents apart. -/
  calls_nodup : e.symbols.length ≤ wordValues 32 →
    (∀ c ∈ e.contents file, ∀ d ∈ e.contents file,
      SymbolId.derive c = SymbolId.derive d → c = d) → e.calls.Nodup
  /-- Every include is one of the file. -/
  include_file : ∀ i ∈ e.includes, i.file = file

/-- Each symbol of an extraction from a tree has the identifier of its content. -/
lemma ids_ofFindings (scores : Scores) (file : String) (found : List Finding) :
    (((ofFindings file found).withScores scores).symbols).map (·.id) =
      (((ofFindings file found).withScores scores).contents file).map SymbolId.derive := by
  refine List.ext_getElem? fun i => ?_
  simp only [contents, withScores, ofFindings, numbered_eq, List.getElem?_map, List.getElem?_zipIdx,
    Nat.zero_add]
  cases (found.filterMap Finding.draft?)[i]? with
  | none => rfl
  | some p =>
    simp only [Option.map_some, id_scored, kind_scored, name_scored, line_scored]
    rfl

/-- If the symbols have distinct identifiers and none of them calls a name twice, no call is
recorded twice. -/
lemma nodup_calls {symbols : List (Symbol × List String)}
    (hids : (symbols.map (·.1.id)).Nodup) (hcallees : ∀ p ∈ symbols, p.2.Nodup) :
    (symbols.flatMap fun p => p.2.map fun c => (⟨p.1.id, c⟩ : CallReference)).Nodup := by
  rw [List.nodup_flatMap]
  constructor
  · intro p hp
    exact (hcallees p hp).map fun c d hcd => (CallReference.mk.inj hcd).2
  · refine (List.pairwise_map.mp hids).imp ?_
    intro p q hpq r hr hr'
    obtain ⟨c, -, rfl⟩ := List.mem_map.mp hr
    obtain ⟨d, -, hd⟩ := List.mem_map.mp hr'
    exact hpq (CallReference.mk.inj hd).1.symm

/-- Symbols of regular findings stand on a line, and call no name twice. -/
lemma of_mem_numbered_of_isRegular (hfound : ∀ f ∈ found, f.IsRegular) {ordinal : Nat}
    {p : Symbol × List String} (hp : p ∈ numbered file ordinal found) :
    p.1.origin = .syntaxTree ∧ 1 ≤ p.1.line ∧ p.2.Nodup := by
  rw [numbered_eq, List.mem_map] at hp
  obtain ⟨⟨⟨draft, callees⟩, i⟩, hmem, rfl⟩ := hp
  obtain ⟨f, hf, hdraft⟩ := List.mem_filterMap.mp (List.fst_mem_of_mem_zipIdx hmem)
  cases f with
  | symbol draft' callees' =>
    obtain ⟨rfl, rfl⟩ := Prod.mk.inj (Option.some.inj hdraft)
    obtain ⟨⟨node, hline⟩, hnodup, -⟩ := hfound _ hf
    refine ⟨rfl, ?_, hnodup⟩
    rw [show (draft'.toSymbol file .syntaxTree i).line = node.line from hline]
    exact node.one_le_line
  | include_ target style => cases hdraft

/-- What is extracted from the findings of a tree is an extraction from a tree. -/
lemma isTreeExtraction_ofTree (measurer : Measurer) (file : String) (read : Reading)
    (tree : SyntaxNode) : (ofTree measurer file read tree).IsTreeExtraction file := by
  have hregular := tree.isRegular_findings read .file
  have hspeaks : (ofTree measurer file read tree).SpeaksOf file :=
    (speaksOf_ofFindings fun f hf => (hregular f hf).callsFromFunctions).withScores _
  have hids := ids_ofFindings (measurer.measure read tree) file (tree.findings read .file)
  refine ⟨hids, nodup_contents, ?_, hspeaks.caller_mem, ?_, hspeaks.include_file⟩
  · intro s hs
    obtain ⟨s', hs', rfl⟩ := List.mem_map.mp hs
    obtain ⟨p, hp, rfl⟩ := List.mem_map.mp hs'
    obtain ⟨horigin, hline, -⟩ := of_mem_numbered_of_isRegular hregular hp
    refine ⟨hspeaks.file_eq _ hs, ?_, ?_⟩
    · rwa [origin_scored]
    · rwa [line_scored]
  · intro hlength hinj
    refine nodup_calls ?_ fun p hp => (of_mem_numbered_of_isRegular hregular hp).2.2
    have hdistinct : ((ofTree measurer file read tree).symbols.map (·.id)).Nodup := by
      rw [ofTree, hids]
      exact (nodup_contents hlength).map_on fun c hc d hd => hinj c hc d hd
    rw [ofTree, withScores, List.map_map] at hdistinct
    simpa only [Function.comp_def, id_scored, ofFindings, List.map_map] using hdistinct

end Extraction

namespace FileContent

/-- A file with a supported extension and a syntax tree is extracted, and what is extracted has all
that the rest of the library relies on. -/
theorem isTreeExtraction_extract (measurer : Measurer) {file : String} {content : FileContent}
    {tree : SyntaxNode} (hfile : (Language.ofPath? file).isSome = true)
    (htree : content.tree = some tree) :
    ∃ e, content.extract measurer file = .ok e ∧ e.IsTreeExtraction file := by
  obtain ⟨language, hlanguage⟩ := Option.isSome_iff_exists.mp hfile
  refine ⟨Extraction.ofTree measurer file (readingOf (Text.decodeLossy content.bytes)) tree, ?_,
    Extraction.isTreeExtraction_ofTree measurer file _ tree⟩
  simp only [extract, hlanguage, htree]

/-- A file with one function, which calls another one twice. -/
def twoCalls : FileContent where
  bytes := "void f() { g(); g(); }\n".toUTF8
  tree := some
    ⟨"translation_unit", true, none, ⟨0, 23⟩, 0, [
      ⟨"function_definition", true, none, ⟨0, 22⟩, 0, [
        ⟨"primitive_type", true, some "type", ⟨0, 4⟩, 0, []⟩,
        ⟨"function_declarator", true, some "declarator", ⟨5, 8⟩, 0, [
          ⟨"identifier", true, some "declarator", ⟨5, 6⟩, 0, []⟩,
          ⟨"parameter_list", true, some "parameters", ⟨6, 8⟩, 0, []⟩]⟩,
        ⟨"compound_statement", true, some "body", ⟨9, 22⟩, 0, [
          ⟨"call_expression", true, none, ⟨11, 14⟩, 0, [
            ⟨"identifier", true, some "function", ⟨11, 12⟩, 0, []⟩]⟩,
          ⟨"call_expression", true, none, ⟨16, 19⟩, 0, [
            ⟨"identifier", true, some "function", ⟨16, 17⟩, 0, []⟩]⟩]⟩]⟩]⟩

/-- The file in which a function is called twice is extracted, and none of its calls is recorded
twice. -/
theorem isTreeExtraction_twoCalls :
    (Language.ofPath? "src/a.c").isSome = true ∧ twoCalls.tree.isSome = true ∧
      ∃ e, twoCalls.extract .cyclomatic "src/a.c" = .ok e ∧ e.IsTreeExtraction "src/a.c" :=
  ⟨by decide, rfl, isTreeExtraction_extract .cyclomatic (by decide) rfl⟩

end FileContent

end CodeAtlas
