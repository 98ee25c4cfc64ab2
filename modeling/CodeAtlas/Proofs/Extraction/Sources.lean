import CodeAtlas.Proofs.Extraction.Numbering
import CodeAtlas.Proofs.Extraction.Places
import Mathlib.Data.List.Forall2

/-!
# From the nodes of a tree to the symbols of a file

The symbols of one kind stand in the order of the nodes that they come from.  So if it is known of
every visited node which sources it has for symbols of this kind, be it itself or some of its
children, the symbols of the file are those of the sources of the visits, one after the other
(`Extraction.forall₂_entries`).

An *entry* of a file is one of its symbols as it was found, without a score, with the names that it
calls.
-/

namespace CodeAtlas

/-! ### Lists -/

section Lists

variable {α β γ : Type}

/-- What a partial function makes of a list belongs to the members at which it is defined. -/
lemma forall₂_filterMap_filter {f : α → Option β} {p : α → Bool} {R : β → α → Prop}
    (hp : ∀ x, (f x).isSome = p x) (hR : ∀ x y, f x = some y → R y x) (xs : List α) :
    List.Forall₂ R (xs.filterMap f) (xs.filter p) := by
  induction xs with
  | nil => exact .nil
  | cons x xs ih =>
    have hx := hp x
    cases hf : f x with
    | none =>
      rw [hf, Option.isSome_none] at hx
      rwa [List.filterMap_cons_none hf, List.filter_cons_of_neg (by simp [← hx])]
    | some y =>
      rw [hf, Option.isSome_some] at hx
      rw [List.filterMap_cons_some hf, List.filter_cons_of_pos hx.symm]
      exact .cons (hR x y hf) ih

/-- Members that contribute nothing can be left out. -/
lemma flatMap_filter_of_nil {f : α → List β} {p : α → Bool} {xs : List α}
    (hnil : ∀ x ∈ xs, p x = false → f x = []) : (xs.filter p).flatMap f = xs.flatMap f := by
  induction xs with
  | nil => rfl
  | cons x xs ih =>
    rw [List.forall_mem_cons] at hnil
    cases hx : p x with
    | true => rw [List.filter_cons_of_pos hx, List.flatMap_cons, List.flatMap_cons, ih hnil.2]
    | false =>
      rw [List.filter_cons_of_neg (by simp [hx]), List.flatMap_cons, hnil.1 hx, ih hnil.2,
        List.nil_append]

/-- Lists that belong together by two relations in a row. -/
lemma forall₂_comp {R : α → β → Prop} {S : β → γ → Prop} {xs : List α} {ys : List β} {zs : List γ}
    (hR : List.Forall₂ R xs ys) (hS : List.Forall₂ S ys zs) :
    List.Forall₂ (fun x z => ∃ y, R x y ∧ S y z) xs zs := by
  induction hR generalizing zs with
  | nil =>
    cases hS
    exact .nil
  | cons hxy _ ih =>
    cases hS with
    | cons hyz hS => exact .cons ⟨_, hxy, hyz⟩ (ih hS)

/-- A member of a list belongs to some member of a list that belongs to it. -/
lemma exists_of_mem_of_forall₂ {R : α → β → Prop} {xs : List α} {ys : List β}
    (h : List.Forall₂ R xs ys) {x : α} (hx : x ∈ xs) : ∃ y ∈ ys, R x y := by
  induction h with
  | nil => cases hx
  | cons hxy _ ih =>
    rcases List.mem_cons.mp hx with rfl | hx
    · exact ⟨_, List.mem_cons_self, hxy⟩
    · obtain ⟨y, hy, hxy⟩ := ih hx
      exact ⟨y, List.mem_cons_of_mem _ hy, hxy⟩

end Lists

/-! ### Drafts and the nodes they come from -/

/-- The kind of the symbols that the nodes with a role contribute. -/
def NodeRole.symbolKind? : NodeRole → Option SymbolKind
  | .function => some .function
  | .record => some .record
  | .enumeration => some .enumeration
  | .typeDefinition => some .alias
  | .define => some .define
  | .declaration => some .global
  | .include_ | .block | .transparent => none

/-- Only one role contributes symbols of a kind. -/
lemma NodeRole.eq_of_symbolKind? {r r' : NodeRole} {k : SymbolKind}
    (h : r.symbolKind? = some k) (h' : r'.symbolKind? = some k) : r = r' := by
  have hsame := h.trans h'.symm
  cases r <;> cases r' <;> first | rfl | simp [symbolKind?] at h hsame

/-- Only definitions of functions have the role of functions. -/
lemma NodeRole.ofKind_eq_function_iff (kind : String) :
    ofKind kind = .function ↔ kind = "function_definition" := by
  constructor
  · intro h
    unfold ofKind at h
    split_ifs at h with hkind
    exact beq_iff_eq.mp hkind
  · rintro rfl
    rfl

namespace SyntaxNode

variable {α : Type} {R : SymbolDraft × List String → α → Prop} {k : SymbolKind}
  {sources : Scope × SyntaxNode → List α}

/-- The draft of a single finding has its detail. -/
lemma detail_of_mem_singleton {f : Finding} {p : SymbolDraft × List String} {draft : SymbolDraft}
    {callees : List String} (hf : f ∈ [Finding.symbol draft callees]) (hp : f.draft? = some p) :
    p.1.detail = draft.detail := by
  rw [List.mem_singleton.mp hf] at hp
  rw [← Option.some.inj hp]

/-- The symbols that a node contributes are of the kind that belongs to its role. -/
lemma kind_of_mem_ownFindings {read : Reading} {scope : Scope} {n : SyntaxNode} {f : Finding}
    (hf : f ∈ ownFindings read scope n) {p : SymbolDraft × List String}
    (hp : f.draft? = some p) : (NodeRole.ofKind n.kind).symbolKind? = some p.1.detail.kind := by
  unfold ownFindings at hf
  cases hrole : NodeRole.ofKind n.kind <;> simp only [hrole] at hf
  case function =>
    unfold functionFindings at hf
    split at hf
    · rw [detail_of_mem_singleton hf hp]
      rfl
    · cases hf
  case record =>
    unfold recordFindings at hf
    split at hf
    · rw [detail_of_mem_singleton hf hp]
      rfl
    · cases hf
  case enumeration =>
    unfold enumerationFindings at hf
    split at hf
    · rw [detail_of_mem_singleton hf hp]
      rfl
    · cases hf
  case typeDefinition =>
    unfold typeDefinitionFindings at hf
    split_ifs at hf
    · split at hf
      · rw [detail_of_mem_singleton hf hp]
        rfl
      · cases hf
    · obtain ⟨d, -, hd⟩ := List.mem_filterMap.mp hf
      obtain ⟨name, -, rfl⟩ := Option.map_eq_some_iff.mp hd
      rw [← Option.some.inj hp]
      rfl
  case define =>
    unfold defineFindings at hf
    split at hf
    · rw [detail_of_mem_singleton hf hp]
      rfl
    · cases hf
  case include_ =>
    unfold includeFindings at hf
    split at hf
    · split_ifs at hf
      · rw [List.mem_singleton.mp hf] at hp
        cases hp
      · rw [List.mem_singleton.mp hf] at hp
        cases hp
      · cases hf
    · cases hf
  case declaration =>
    split_ifs at hf
    · unfold variableFindings at hf
      split at hf
      · obtain ⟨d, -, hd⟩ := List.mem_filterMap.mp hf
        simp only at hd
        split_ifs at hd
        obtain ⟨name, -, rfl⟩ := Option.map_eq_some_iff.mp hd
        rw [← Option.some.inj hp]
        rfl
      · cases hf
    · cases hf
  case block => cases hf
  case transparent => cases hf

/-- The drafts of one kind among findings, each with the names that it calls. -/
def draftsOfKind (k : SymbolKind) (found : List Finding) : List (SymbolDraft × List String) :=
  (found.filterMap Finding.draft?).filter fun p => p.1.detail.kind == k

/-- A node with the role for a kind contributes drafts of this kind only. -/
lemma draftsOfKind_of_role {read : Reading} {v : Scope × SyntaxNode}
    (hrole : (NodeRole.ofKind v.2.kind).symbolKind? = some k) :
    draftsOfKind k (visitFindings read v) =
      (visitFindings read v).filterMap Finding.draft? := by
  refine List.filter_eq_self.mpr fun p hp => ?_
  obtain ⟨f, hf, hdraft⟩ := List.mem_filterMap.mp hp
  rw [kind_of_mem_ownFindings hf hdraft] at hrole
  rw [beq_iff_eq]
  exact Option.some.inj hrole

/-- A node with another role contributes no draft of the kind. -/
lemma draftsOfKind_of_otherRole {read : Reading} {v : Scope × SyntaxNode}
    (hrole : (NodeRole.ofKind v.2.kind).symbolKind? ≠ some k) :
    draftsOfKind k (visitFindings read v) = [] := by
  refine List.filter_eq_nil_iff.mpr fun p hp hkind => ?_
  obtain ⟨f, hf, hdraft⟩ := List.mem_filterMap.mp hp
  rw [kind_of_mem_ownFindings hf hdraft] at hrole
  exact hrole (congrArg some (beq_iff_eq.mp hkind))

/-- The drafts that are found in a tree belong to the sources of its visits. -/
lemma forall₂_draftsOfKind {read : Reading}
    (hsources : ∀ v, List.Forall₂ R (draftsOfKind k (visitFindings read v)) (sources v))
    (scope : Scope) (tree : SyntaxNode) :
    List.Forall₂ R (draftsOfKind k (tree.findings read scope))
      ((tree.visits scope).flatMap sources) := by
  have hdrafts : draftsOfKind k (tree.findings read scope) =
      (tree.visits scope).flatMap fun v => draftsOfKind k (visitFindings read v) := by
    rw [findings_eq_flatMap_visits, draftsOfKind, List.filterMap_flatMap, List.filter_flatMap]
    rfl
  rw [hdrafts]
  induction tree.visits scope with
  | nil => exact .nil
  | cons v visits ih => exact List.rel_append (hsources v) ih

section Counting

variable {counts : Scope × SyntaxNode → Bool}
  (hrole : ∀ v, counts v = true → (NodeRole.ofKind v.2.kind).symbolKind? ≠ none)

include hrole

/-- If only nodes with a role for symbols count, the visits that count are the places of such nodes
to which the walk comes. -/
lemma filter_visits (scope : Scope) (tree : SyntaxNode) :
    (tree.visits scope).filter counts =
      (tree.places.filter fun p => p.isReached && counts (p.visit scope)).map
        (Place.visit scope) := by
  rw [visits_eq_places, List.filter_map, List.filter_filter]
  congr 1
  refine List.filter_congr fun p _ => ?_
  cases hcounts : counts (p.visit scope) with
  | false => simp [hcounts]
  | true =>
    -- The walk stops at a node that counts.
    have hstops : (NodeRole.ofKind p.node.kind).symbolKind? ≠ none := hrole _ hcounts
    simp only [Function.comp_apply, hcounts, Place.isVisited, Bool.true_and, Bool.and_true]
    cases hkind : NodeRole.ofKind p.node.kind <;> simp_all [NodeRole.symbolKind?]

/-- What comes of the visits that count comes of their places. -/
lemma flatMap_visits (scope : Scope) (tree : SyntaxNode) :
    ((tree.visits scope).flatMap fun v => if counts v then sources v else []) =
      (tree.places.filter fun p => p.isReached && counts (p.visit scope)).flatMap
        fun p => sources (p.visit scope) := by
  have hnil : ∀ v ∈ tree.visits scope, counts v = false →
      (if counts v then sources v else []) = [] := by
    intro v _ hv
    rw [hv, if_neg Bool.false_ne_true]
  rw [← List.flatMap_map, ← filter_visits hrole, ← flatMap_filter_of_nil hnil]
  exact List.flatMap_congr fun v hv => if_pos (List.mem_filter.mp hv).2

end Counting

end SyntaxNode

namespace Extraction

variable {α : Type} {R : SymbolDraft × List String → α → Prop} {k : SymbolKind}
  {sources : Scope × SyntaxNode → List α} {file : String} {read : Reading} {tree : SyntaxNode}

/-- The symbols of a file as they are found, each with the names that it calls. -/
def entries (file : String) (read : Reading) (tree : SyntaxNode) : List (Symbol × List String) :=
  numbered file 0 (tree.findings read .file)

/-- An entry is that of a draft: only its identifier is new. -/
def IsEntryOf (file : String) (x : Symbol × List String) (p : SymbolDraft × List String) : Prop :=
  ∃ i, x = (p.1.toSymbol file .syntaxTree i, p.2)

/-- The numbered symbols of findings belong to their drafts. -/
lemma forall₂_numbered (file : String) (ordinal : Nat) (found : List Finding) :
    List.Forall₂ (IsEntryOf file) (numbered file ordinal found)
      (found.filterMap Finding.draft?) := by
  rw [numbered_eq, List.forall₂_map_left_iff]
  conv => arg 3; rw [← List.zipIdx_map_fst ordinal (found.filterMap Finding.draft?)]
  rw [List.forall₂_map_right_iff, List.forall₂_same]
  exact fun p _ => ⟨p.2, rfl⟩

/-- The entries of one kind belong to the sources of the visits. -/
lemma forall₂_entries
    (hsources : ∀ v, List.Forall₂ R
      (SyntaxNode.draftsOfKind k (SyntaxNode.visitFindings read v)) (sources v)) :
    List.Forall₂ (fun x source => ∃ p, IsEntryOf file x p ∧ R p source)
      ((entries file read tree).filter fun x => x.1.kind == k)
      ((tree.visits .file).flatMap sources) := by
  refine forall₂_comp ?_ (SyntaxNode.forall₂_draftsOfKind hsources .file tree)
  refine List.rel_filter ?_ (forall₂_numbered file 0 (tree.findings read .file))
  rintro x p ⟨i, rfl⟩
  rfl

/-- The symbols of a file are its entries, with their scores. -/
lemma symbols_ofTree (measurer : Measurer) (file : String) (read : Reading) (tree : SyntaxNode) :
    (ofTree measurer file read tree).symbols =
      (entries file read tree).map fun x => scored (measurer.measure read tree) x.1 := by
  simp [ofTree, withScores, ofFindings, entries]

/-- The symbols of one kind are the entries of this kind, with their scores. -/
lemma filter_symbols (measurer : Measurer) (file : String) (read : Reading) (tree : SyntaxNode)
    (k : SymbolKind) :
    ((ofTree measurer file read tree).symbols.filter fun s => s.kind == k) =
      ((entries file read tree).filter fun x => x.1.kind == k).map
        fun x => scored (measurer.measure read tree) x.1 := by
  rw [symbols_ofTree, List.filter_map]
  simp only [Function.comp_def, kind_scored]

/-- Scores change no declaration. -/
@[simp] lemma declaration_scored (scores : Scores) (s : Symbol) :
    (scored scores s).declaration = s.declaration := by
  unfold scored
  split <;> rfl

end Extraction

/-- What is extracted from a file with a syntax tree. -/
lemma FileContent.extract_eq (measurer : Measurer) {file : String} {content : FileContent}
    {tree : SyntaxNode} (hfile : (Language.ofPath? file).isSome = true)
    (htree : content.tree = some tree) :
    content.extract measurer file =
      .ok (Extraction.ofTree measurer file (readingOf (Text.decodeLossy content.bytes)) tree) := by
  obtain ⟨language, hlanguage⟩ := Option.isSome_iff_exists.mp hfile
  simp only [extract, hlanguage, htree]

end CodeAtlas
