import CodeAtlas.Proofs.Extraction.Sources

/-!
# The types of a file

A structure, union, class or enumeration that has a name and a body defines a type.  Each such node
to which the walk comes gives one symbol, with its last name and its line, and there are no other
symbols of these kinds (`Extraction.map_heading_types`).

The walk leaves out parts of a tree.  Of a function it enters the body and not the type that it
returns or its parameters, of a declaration or a type definition the type and not what is declared,
and of enumerations and directives nothing (`Step.isTaken_iff`).  So the types of a file are those
of its tree exactly if none of them is defined in one of these parts
(`FileContent.types_of_file_iff`).
-/

namespace CodeAtlas

/-- What a symbol stands for in a list of symbols. -/
structure Heading where
  kind : SymbolKind
  name : String
  line : UInt32
  deriving DecidableEq

/-- The heading of a symbol. -/
def Symbol.heading (s : Symbol) : Heading := ⟨s.kind, s.name, s.line⟩

/-- The heading of a symbol that is found. -/
def SymbolDraft.heading (d : SymbolDraft) : Heading := ⟨d.detail.kind, d.name, d.line⟩

/-- Whether symbols of a kind stand for the definition of a type. -/
def SymbolKind.isType (k : SymbolKind) : Bool := k == .record || k == .enumeration

namespace SyntaxNode

/-- The kinds of nodes that define structures. -/
def recordKinds : List String := ["struct_specifier", "union_specifier", "class_specifier"]

/-- Whether a node defines a type and names it. -/
def isNamedType (n : SyntaxNode) : Bool :=
  (recordKinds.contains n.kind || n.kind == "enum_specifier") &&
    ((n.inField? "name").isSome && (n.inField? "body").isSome)

/-- The heading of the type that a node defines: the last part of its name, and its line. -/
def typeHeading (read : Reading) (n : SyntaxNode) : Heading where
  kind := if n.kind == "enum_specifier" then .enumeration else .record
  name := ((n.inField? "name").map fun name => (lastNamePart name).text read).getD ""
  line := n.line

end SyntaxNode

/-! ### Roles and kinds -/

namespace NodeRole

variable (kind : String)

lemma ofKind_eq_record_iff : ofKind kind = .record ↔ kind ∈ SyntaxNode.recordKinds := by
  constructor
  · intro h
    unfold ofKind at h
    split_ifs at h with _ hkind
    simpa [SyntaxNode.recordKinds, or_assoc] using hkind
  · revert kind
    decide

lemma ofKind_eq_enumeration_iff : ofKind kind = .enumeration ↔ kind = "enum_specifier" := by
  constructor
  · intro h
    unfold ofKind at h
    split_ifs at h with _ _ hkind
    exact beq_iff_eq.mp hkind
  · rintro rfl
    rfl

/-- Of declarations and type definitions the type is entered. -/
lemma ofKind_entersType_iff : (ofKind kind = .declaration ∨ ofKind kind = .typeDefinition) ↔
    kind ∈ ["declaration", "type_definition", "alias_declaration"] := by
  constructor
  · intro h
    unfold ofKind at h
    split_ifs at h <;> grind
  · revert kind
    decide

/-- Enumerations and directives are not entered. -/
lemma ofKind_isClosed_iff :
    (ofKind kind = .enumeration ∨ ofKind kind = .define ∨ ofKind kind = .include_) ↔
      kind ∈ ["enum_specifier", "preproc_def", "preproc_function_def", "preproc_include"] := by
  constructor
  · intro h
    unfold ofKind at h
    split_ifs at h <;> grind
  · revert kind
    decide

end NodeRole

/-! ### What a node gives -/

namespace SyntaxNode

/-- The headings of the types among findings. -/
def typeHeadings (found : List Finding) : List Heading :=
  ((found.filterMap Finding.draft?).map fun p => p.1.heading).filter fun h => h.kind.isType

/-- A record gives the heading of its type, if it names one. -/
lemma typeHeadings_recordFindings (read : Reading) {n : SyntaxNode} (hkind : n.kind ∈ recordKinds) :
    typeHeadings (recordFindings read n) = if isNamedType n then [typeHeading read n] else [] := by
  have henum : n.kind ≠ "enum_specifier" := by
    intro h
    rw [h] at hkind
    exact absurd hkind (by decide)
  simp only [recordFindings, isNamedType, List.contains_iff_mem.mpr hkind, Bool.true_or,
    Bool.true_and]
  cases hname : n.inField? "name" with
  | none => rfl
  | some name =>
    cases hbody : n.inField? "body" with
    | none => rfl
    | some body =>
      simp [typeHeadings, Finding.draft?, SymbolDraft.heading, typeHeading, hname, henum,
        SymbolDetail.kind, SymbolKind.isType]

/-- An enumeration gives the heading of its type, if it names one. -/
lemma typeHeadings_enumerationFindings (read : Reading) {n : SyntaxNode}
    (hkind : n.kind = "enum_specifier") : typeHeadings (enumerationFindings read n) =
      if isNamedType n then [typeHeading read n] else [] := by
  simp only [enumerationFindings, isNamedType, hkind, beq_self_eq_true, Bool.or_true,
    Bool.true_and]
  cases hname : n.inField? "name" with
  | none => rfl
  | some name =>
    cases hbody : n.inField? "body" with
    | none => rfl
    | some body =>
      simp [typeHeadings, Finding.draft?, SymbolDraft.heading, typeHeading, hname, hkind,
        SymbolDetail.kind, SymbolKind.isType]

/-- Nodes with other roles give no types. -/
lemma typeHeadings_eq_nil {read : Reading} {scope : Scope} {n : SyntaxNode}
    (hrecord : NodeRole.ofKind n.kind ≠ .record)
    (henumeration : NodeRole.ofKind n.kind ≠ .enumeration) :
    typeHeadings (ownFindings read scope n) = [] := by
  rw [typeHeadings, List.filter_eq_nil_iff]
  intro h hh htype
  obtain ⟨p, hp, rfl⟩ := List.mem_map.mp hh
  obtain ⟨f, hf, hdraft⟩ := List.mem_filterMap.mp hp
  have hrole := kind_of_mem_ownFindings hf hdraft
  simp only [SymbolDraft.heading, SymbolKind.isType, Bool.or_eq_true, beq_iff_eq] at htype
  rcases htype with htype | htype
  · rw [htype] at hrole
    exact hrecord (NodeRole.eq_of_symbolKind? hrole rfl)
  · rw [htype] at hrole
    exact henumeration (NodeRole.eq_of_symbolKind? hrole rfl)

/-- A visited node gives the heading of the type that it defines, if it names one. -/
lemma typeHeadings_visitFindings (read : Reading) (v : Scope × SyntaxNode) :
    typeHeadings (visitFindings read v) =
      if isNamedType v.2 then [typeHeading read v.2] else [] := by
  by_cases hrecord : NodeRole.ofKind v.2.kind = .record
  · rw [visitFindings, ownFindings, hrecord]
    exact typeHeadings_recordFindings read ((NodeRole.ofKind_eq_record_iff _).mp hrecord)
  by_cases henumeration : NodeRole.ofKind v.2.kind = .enumeration
  · rw [visitFindings, ownFindings, henumeration]
    exact typeHeadings_enumerationFindings read
      ((NodeRole.ofKind_eq_enumeration_iff _).mp henumeration)
  have hnone : isNamedType v.2 = false := by
    rw [NodeRole.ofKind_eq_record_iff] at hrecord
    rw [NodeRole.ofKind_eq_enumeration_iff] at henumeration
    simp [isNamedType, hrecord, henumeration]
  rw [hnone, if_neg Bool.false_ne_true]
  exact typeHeadings_eq_nil hrecord henumeration

/-- The headings of the types that are found in a tree are those of the nodes that define types and
to which the walk comes. -/
lemma typeHeadings_findings (read : Reading) (tree : SyntaxNode) :
    typeHeadings (tree.findings read .file) =
      (tree.places.filter fun p => p.isReached && isNamedType p.node).map
        fun p => typeHeading read p.node := by
  have hvisits : typeHeadings (tree.findings read .file) =
      (tree.visits .file).flatMap fun v => typeHeadings (visitFindings read v) := by
    rw [findings_eq_flatMap_visits, typeHeadings, List.filterMap_flatMap, List.map_flatMap,
      List.filter_flatMap]
    rfl
  rw [hvisits, List.map_eq_flatMap]
  simp only [typeHeadings_visitFindings]
  refine flatMap_visits (fun v hv => ?_) .file tree
  simp only [isNamedType, Bool.and_eq_true, Bool.or_eq_true, List.contains_iff_mem,
    beq_iff_eq] at hv
  rcases hv.1 with hkind | hkind
  · rw [(NodeRole.ofKind_eq_record_iff _).mpr hkind]
    exact nofun
  · rw [(NodeRole.ofKind_eq_enumeration_iff _).mpr hkind]
    exact nofun

/-! ### The parts that the walk leaves out -/

/-- A step that does not lead to a part of the tree that is left out. -/
structure Step.StaysInside (s : Step) : Prop where
  /-- Of a function only the body is entered. -/
  of_function : s.parent.kind = "function_definition" → s.isInto "body" = true
  /-- Of a declaration or a type definition only the type is entered. -/
  of_declaration : s.parent.kind ∈ ["declaration", "type_definition", "alias_declaration"] →
    s.isInto "type" = true
  /-- Of enumerations and directives nothing is entered. -/
  of_closed : s.parent.kind ∉
    ["enum_specifier", "preproc_def", "preproc_function_def", "preproc_include"]

/-- The walk takes exactly the steps that do not lead to a part which is left out. -/
lemma Step.isTaken_iff (s : Step) : s.isTaken = true ↔ s.StaysInside := by
  have hroles : s.StaysInside ↔
      (NodeRole.ofKind s.parent.kind = .function → s.isInto "body" = true) ∧
      (NodeRole.ofKind s.parent.kind = .declaration ∨
        NodeRole.ofKind s.parent.kind = .typeDefinition → s.isInto "type" = true) ∧
      ¬(NodeRole.ofKind s.parent.kind = .enumeration ∨ NodeRole.ofKind s.parent.kind = .define ∨
        NodeRole.ofKind s.parent.kind = .include_) := by
    rw [NodeRole.ofKind_eq_function_iff, NodeRole.ofKind_entersType_iff,
      NodeRole.ofKind_isClosed_iff]
    exact ⟨fun h => ⟨h.of_function, h.of_declaration, h.of_closed⟩, fun h => ⟨h.1, h.2.1, h.2.2⟩⟩
  rw [hroles, isTaken]
  cases NodeRole.ofKind s.parent.kind <;> simp

/-- The walk comes to all nodes that define types exactly if none of them is defined in a part that
is left out. -/
lemma filter_isNamedType_eq_iff (tree : SyntaxNode) :
    (tree.places.filter fun p => p.isReached && isNamedType p.node) =
        (tree.places.filter fun p => isNamedType p.node) ↔
      ∀ p ∈ tree.places, isNamedType p.node = true → ∀ s ∈ p.steps, s.StaysInside := by
  rw [← List.filter_filter, List.filter_eq_self]
  simp only [List.mem_filter, Place.isReached, List.all_eq_true, Step.isTaken_iff, and_imp]

end SyntaxNode

/-! ### The types among the symbols -/

namespace Extraction

/-- Scores change no heading. -/
lemma heading_scored (scores : Scores) (s : Symbol) : (scored scores s).heading = s.heading := by
  simp only [Symbol.heading, kind_scored, name_scored, line_scored]

/-- The symbols of a file that stand for types have the headings of the nodes that define them and
to which the walk comes, in the order of the tree. -/
lemma map_heading_types (measurer : Measurer) (file : String) (read : Reading) (tree : SyntaxNode) :
    ((ofTree measurer file read tree).symbols.filter fun s => s.kind.isType).map Symbol.heading =
      (tree.places.filter fun p => p.isReached && p.node.isNamedType).map
        fun p => p.node.typeHeading read := by
  have hheadings : (ofTree measurer file read tree).symbols.map Symbol.heading =
      ((tree.findings read .file).filterMap Finding.draft?).map fun p => p.1.heading := by
    rw [symbols_ofTree, entries, numbered_eq, List.map_map, List.map_map]
    conv => rhs; rw [← List.zipIdx_map_fst 0 ((tree.findings read .file).filterMap Finding.draft?)]
    rw [List.map_map]
    exact List.map_congr_left fun p _ => heading_scored _ _
  rw [← SyntaxNode.typeHeadings_findings, SyntaxNode.typeHeadings, ← hheadings, List.filter_map]
  rfl

end Extraction

namespace FileContent

/-- Every file with a supported extension and a syntax tree is extracted.  Its structures and
enumerations are the types of the nodes that define them and to which the walk comes: one symbol for
each, in the order of the tree, with its last name and its line.  They are the types of all nodes
that define and name one, wherever these stand in the tree and each exactly once, if and only if no
such node stands in a function outside its body, in a declaration or type definition outside its
type, or in an enumeration or directive. -/
theorem types_of_file_iff (measurer : Measurer) {file : String} {content : FileContent}
    {tree : SyntaxNode} (hfile : (Language.ofPath? file).isSome = true)
    (htree : content.tree = some tree) :
    let read := readingOf (Text.decodeLossy content.bytes)
    ∃ e, content.extract measurer file = .ok e ∧
      (e.symbols.filter fun s => s.kind.isType).map Symbol.heading =
        (tree.places.filter fun p => p.isReached && p.node.isNamedType).map
          (fun p => p.node.typeHeading read) ∧
      (((e.symbols.filter fun s => s.kind.isType).map Symbol.heading).Perm
          ((tree.preorder.filter SyntaxNode.isNamedType).map (SyntaxNode.typeHeading read)) ↔
        ∀ p ∈ tree.places, p.node.isNamedType = true → ∀ s ∈ p.steps, s.StaysInside) := by
  intro read
  have hreached := Extraction.map_heading_types measurer file read tree
  refine ⟨_, extract_eq measurer hfile htree, hreached, ?_⟩
  -- The nodes that define types, as places.
  have hall : (tree.preorder.filter SyntaxNode.isNamedType).map (SyntaxNode.typeHeading read) =
      (tree.places.filter fun p => p.node.isNamedType).map fun p => p.node.typeHeading read := by
    rw [← SyntaxNode.map_node_places, List.filter_map, List.map_map]
    rfl
  rw [hreached, hall, ← SyntaxNode.filter_isNamedType_eq_iff]
  constructor
  · intro hperm
    have hlength := hperm.length_eq
    rw [List.length_map, List.length_map, ← List.filter_filter] at hlength
    rw [← List.filter_filter]
    exact List.filter_sublist.eq_of_length hlength
  · intro heq
    rw [heq]

/-- A file with a structure inside another one, and an enumeration in the body of a function. -/
def nestedTypes : FileContent where
  bytes := "typedef struct s { struct t { int a; } b; } u;\nvoid f() { enum e { c }; }\n".toUTF8
  tree := some
    ⟨"translation_unit", true, none, ⟨0, 74⟩, 0, [
      ⟨"type_definition", true, none, ⟨0, 46⟩, 0, [
        ⟨"struct_specifier", true, some "type", ⟨8, 43⟩, 0, [
          ⟨"type_identifier", true, some "name", ⟨15, 16⟩, 0, []⟩,
          ⟨"field_declaration_list", true, some "body", ⟨17, 43⟩, 0, [
            ⟨"field_declaration", true, none, ⟨19, 41⟩, 0, [
              ⟨"struct_specifier", true, some "type", ⟨19, 38⟩, 0, [
                ⟨"type_identifier", true, some "name", ⟨26, 27⟩, 0, []⟩,
                ⟨"field_declaration_list", true, some "body", ⟨28, 38⟩, 0, [
                  ⟨"field_declaration", true, none, ⟨30, 36⟩, 0, [
                    ⟨"primitive_type", true, some "type", ⟨30, 33⟩, 0, []⟩,
                    ⟨"field_identifier", true, some "declarator", ⟨34, 35⟩, 0, []⟩]⟩]⟩]⟩,
              ⟨"field_identifier", true, some "declarator", ⟨39, 40⟩, 0, []⟩]⟩]⟩]⟩,
        ⟨"type_identifier", true, some "declarator", ⟨44, 45⟩, 0, []⟩]⟩,
      ⟨"function_definition", true, none, ⟨47, 73⟩, 1, [
        ⟨"primitive_type", true, some "type", ⟨47, 51⟩, 1, []⟩,
        ⟨"function_declarator", true, some "declarator", ⟨52, 55⟩, 1, [
          ⟨"identifier", true, some "declarator", ⟨52, 53⟩, 1, []⟩,
          ⟨"parameter_list", true, some "parameters", ⟨53, 55⟩, 1, []⟩]⟩,
        ⟨"compound_statement", true, some "body", ⟨56, 73⟩, 1, [
          ⟨"enum_specifier", true, none, ⟨58, 70⟩, 1, [
            ⟨"type_identifier", true, some "name", ⟨63, 64⟩, 1, []⟩,
            ⟨"enumerator_list", true, some "body", ⟨65, 70⟩, 1, [
              ⟨"enumerator", true, none, ⟨67, 68⟩, 1, [
                ⟨"identifier", true, some "name", ⟨67, 68⟩, 1, []⟩]⟩]⟩]⟩]⟩]⟩]⟩

/-- All three types of this file are found. -/
theorem types_of_file_nestedTypes :
    (Language.ofPath? "src/a.c").isSome = true ∧ nestedTypes.tree.isSome = true ∧
      (∀ p ∈ (nestedTypes.tree.get rfl).places, p.node.isNamedType = true →
        ∀ s ∈ p.steps, s.StaysInside) ∧
      ∃ e, nestedTypes.extract .cyclomatic "src/a.c" = .ok e ∧
        ((e.symbols.filter fun s => s.kind.isType).map Symbol.heading).Perm
          [⟨.record, "s", 1⟩, ⟨.record, "t", 1⟩, ⟨.enumeration, "e", 2⟩] := by
  have hfile : (Language.ofPath? "src/a.c").isSome = true := by decide
  have htree : nestedTypes.tree = some (nestedTypes.tree.get rfl) := rfl
  have hinside : ∀ p ∈ (nestedTypes.tree.get rfl).places, p.node.isNamedType = true →
      ∀ s ∈ p.steps, s.StaysInside := by
    simp only [← SyntaxNode.Step.isTaken_iff]
    decide +kernel
  obtain ⟨e, hextract, -, htypes⟩ := types_of_file_iff .cyclomatic hfile htree
  have hnamed : ((nestedTypes.tree.get rfl).preorder.filter SyntaxNode.isNamedType).map
      (SyntaxNode.typeHeading (readingOf (Text.decodeLossy nestedTypes.bytes))) =
        [⟨.record, "s", 1⟩, ⟨.record, "t", 1⟩, ⟨.enumeration, "e", 2⟩] := by
    decide +kernel
  exact ⟨hfile, rfl, hinside, e, hextract, hnamed ▸ htypes.mpr hinside⟩

/-- A file with a function that returns a structure which is defined where it is returned. -/
def returnedStructure : FileContent where
  bytes := "struct made { int a; } make2(void) { struct made m; return m; }\n".toUTF8
  tree := some
    ⟨"translation_unit", true, none, ⟨0, 64⟩, 0, [
      ⟨"function_definition", true, none, ⟨0, 63⟩, 0, [
        ⟨"struct_specifier", true, some "type", ⟨0, 22⟩, 0, [
          ⟨"struct", false, none, ⟨0, 6⟩, 0, []⟩,
          ⟨"type_identifier", true, some "name", ⟨7, 11⟩, 0, []⟩,
          ⟨"field_declaration_list", true, some "body", ⟨12, 22⟩, 0, [
            ⟨"\x7b", false, none, ⟨12, 13⟩, 0, []⟩,
            ⟨"field_declaration", true, none, ⟨14, 20⟩, 0, [
              ⟨"primitive_type", true, some "type", ⟨14, 17⟩, 0, []⟩,
              ⟨"field_identifier", true, some "declarator", ⟨18, 19⟩, 0, []⟩,
              ⟨";", false, none, ⟨19, 20⟩, 0, []⟩]⟩,
            ⟨"\x7d", false, none, ⟨21, 22⟩, 0, []⟩]⟩]⟩,
        ⟨"function_declarator", true, some "declarator", ⟨23, 34⟩, 0, [
          ⟨"identifier", true, some "declarator", ⟨23, 28⟩, 0, []⟩,
          ⟨"parameter_list", true, some "parameters", ⟨28, 34⟩, 0, [
            ⟨"(", false, none, ⟨28, 29⟩, 0, []⟩,
            ⟨"parameter_declaration", true, none, ⟨29, 33⟩, 0, [
              ⟨"primitive_type", true, some "type", ⟨29, 33⟩, 0, []⟩]⟩,
            ⟨")", false, none, ⟨33, 34⟩, 0, []⟩]⟩]⟩,
        ⟨"compound_statement", true, some "body", ⟨35, 63⟩, 0, [
          ⟨"\x7b", false, none, ⟨35, 36⟩, 0, []⟩,
          ⟨"declaration", true, none, ⟨37, 51⟩, 0, [
            ⟨"struct_specifier", true, some "type", ⟨37, 48⟩, 0, [
              ⟨"struct", false, none, ⟨37, 43⟩, 0, []⟩,
              ⟨"type_identifier", true, some "name", ⟨44, 48⟩, 0, []⟩]⟩,
            ⟨"identifier", true, some "declarator", ⟨49, 50⟩, 0, []⟩,
            ⟨";", false, none, ⟨50, 51⟩, 0, []⟩]⟩,
          ⟨"return_statement", true, none, ⟨52, 61⟩, 0, [
            ⟨"return", false, none, ⟨52, 58⟩, 0, []⟩,
            ⟨"identifier", true, none, ⟨59, 60⟩, 0, []⟩,
            ⟨";", false, none, ⟨60, 61⟩, 0, []⟩]⟩,
          ⟨"\x7d", false, none, ⟨62, 63⟩, 0, []⟩]⟩]⟩]⟩

/-- This structure is missed, so the types of a file are not always those of its tree. -/
theorem not_types_of_file :
    ¬ ∀ (measurer : Measurer) (file : String) (content : FileContent) (tree : SyntaxNode),
      (Language.ofPath? file).isSome = true → content.tree = some tree →
      ∃ e, content.extract measurer file = .ok e ∧
        ((e.symbols.filter fun s => s.kind.isType).map Symbol.heading).Perm
          ((tree.preorder.filter SyntaxNode.isNamedType).map
            (SyntaxNode.typeHeading (readingOf (Text.decodeLossy content.bytes)))) := by
  intro h
  have hfile : (Language.ofPath? "src/a.c").isSome = true := by decide
  have htree : returnedStructure.tree = some (returnedStructure.tree.get rfl) := rfl
  obtain ⟨e, hextract, hperm⟩ := h .cyclomatic "src/a.c" returnedStructure _ hfile htree
  rw [extract_eq .cyclomatic hfile htree, Except.ok.injEq] at hextract
  rw [← hextract, Extraction.map_heading_types] at hperm
  have hlength := hperm.length_eq
  rw [List.length_map, List.length_map] at hlength
  revert hlength
  decide +kernel

end FileContent

end CodeAtlas
