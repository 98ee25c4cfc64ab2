import CodeAtlas.Extraction.Basic
import Mathlib.Data.List.Basic

/-!
# Walks that hand on what they have found

What is found in a tree is collected first; then the repeated calls of a body are dropped, and the
symbols are numbered.  A walk can do both on its way instead, if every node hands on to the next one
which names were called already (`SyntaxNode.scanCalls`) or which number comes next
(`Extraction.visit`).  Either comes to the same (`SyntaxNode.calls_scanCalls`,
`Extraction.out_visit`).

In both cases the walk is a fold over what is collected, and the fold is followed with an invariant
on what is handed on.
-/

namespace CodeAtlas

open Std (ExtTreeSet)

namespace SyntaxNode

variable {read : Reading}

/-! ### Calls that were seen -/

/-- The names called so far: all of them, and each where it came first. -/
structure CalledNames where
  seen : ExtTreeSet String := ∅
  calls : List String := []

/-- A name is added unless it was called before. -/
def CalledNames.add (c : CalledNames) (name : String) : CalledNames :=
  if name ∈ c.seen then c else ⟨c.seen.insert name, c.calls ++ [name]⟩

mutual

/-- Goes through a tree and adds the names that are called in it. -/
def scanCalls (read : Reading) : SyntaxNode → CalledNames → CalledNames
  | ⟨kind, named, field, span, row, children⟩, c =>
    scanCallsInAll read children
      ((calledName? read ⟨kind, named, field, span, row, children⟩).elim c c.add)

/-- Goes through a list of trees and adds the names that are called in them. -/
def scanCallsInAll (read : Reading) : List SyntaxNode → CalledNames → CalledNames
  | [], c => c
  | n :: ns, c => scanCallsInAll read ns (scanCalls read n c)

end

mutual

/-- The names that are called in a tree are added one after the other. -/
lemma scanCalls_eq_foldl : ∀ (n : SyntaxNode) (c : CalledNames),
    scanCalls read n c = (n.preorder.filterMap (calledName? read)).foldl CalledNames.add c
  | ⟨kind, named, field, span, row, children⟩, c => by
    rw [scanCalls, scanCallsInAll_eq_foldl children, preorder, List.filterMap_cons]
    cases calledName? read ⟨kind, named, field, span, row, children⟩ <;> rfl

/-- The names that are called in a list of trees are added one after the other. -/
lemma scanCallsInAll_eq_foldl : ∀ (ns : List SyntaxNode) (c : CalledNames),
    scanCallsInAll read ns c =
      ((preorderAll ns).filterMap (calledName? read)).foldl CalledNames.add c
  | [], c => by rw [scanCallsInAll, preorderAll]; rfl
  | n :: ns, c => by
    rw [scanCallsInAll, scanCalls_eq_foldl n, scanCallsInAll_eq_foldl ns, preorderAll,
      List.filterMap_append, List.foldl_append]

end

/-- Names are added where they come first, as long as those that were seen are those called. -/
lemma calls_foldl_add (names : List String) (c : CalledNames)
    (hseen : ∀ name, name ∈ c.seen ↔ name ∈ c.calls) :
    (names.foldl CalledNames.add c).calls =
      c.calls ++ firstOccurrences (names.filter fun name => !c.calls.contains name) := by
  induction names generalizing c with
  | nil => rw [List.filter_nil, firstOccurrences, List.append_nil, List.foldl_nil]
  | cons name names ih =>
    rw [List.foldl_cons]
    by_cases hname : name ∈ c.seen
    · have hcalled : name ∈ c.calls := (hseen name).mp hname
      rw [CalledNames.add, if_pos hname, ih c hseen, List.filter_cons_of_neg (by simpa)]
    · have hcalled : name ∉ c.calls := fun hcalled => hname ((hseen name).mpr hcalled)
      have hseen' : ∀ n, n ∈ c.seen.insert name ↔ n ∈ c.calls ++ [name] := by
        intro n
        rw [ExtTreeSet.mem_insert, Std.LawfulEqCmp.compare_eq_iff_eq, hseen, List.mem_append,
          List.mem_singleton, or_comm, eq_comm]
      rw [CalledNames.add, if_neg hname, ih _ hseen', List.filter_cons_of_pos (by simpa),
        firstOccurrences, List.filter_filter, List.append_assoc, List.singleton_append]
      congr 3
      refine List.filter_congr fun n _ => ?_
      by_cases hn : n = name <;> simp [hn]

/-- The calls of a body are those of a walk that drops each name which it has seen. -/
theorem calls_scanCalls (read : Reading) (body : SyntaxNode) :
    (scanCalls read body {}).calls = callees read body := by
  rw [scanCalls_eq_foldl, calls_foldl_add _ _ (by simp), callees]
  simp

end SyntaxNode

namespace Extraction

variable {file : String} {read : Reading}

/-! ### Numbers that are handed on -/

/-- What a walk over the tree of a file has found so far, and the number of the next symbol. -/
structure Walk where
  out : Extraction := {}
  ordinal : UInt32 := 0

/-- A finding is recorded; a symbol takes the next number. -/
def Walk.record (file : String) (w : Walk) : Finding → Walk
  | .symbol d callees =>
    let s := d.toSymbol file .syntaxTree w.ordinal.toNat
    { out := { w.out with
        symbols := w.out.symbols ++ [s]
        calls := w.out.calls ++ callees.map fun c => ⟨s.id, c⟩ }
      ordinal := w.ordinal + 1 }
  | .include_ target style =>
    { w with out := { w.out with includes := w.out.includes ++ [⟨file, target, style⟩] } }

mutual

/-- Goes through a tree which stands in a scope and records what is found. -/
def visit (file : String) (read : Reading) (scope : Scope) : SyntaxNode → Walk → Walk
  | ⟨kind, named, field, span, row, children⟩, w =>
    let w := (SyntaxNode.ownFindings read scope ⟨kind, named, field, span, row, children⟩).foldl
      (Walk.record file) w
    match NodeRole.ofKind kind with
    | .function => visitField file read .nested "body" children w
    | .record => visitChildren file read .nested children w
    | .enumeration => w
    | .typeDefinition => visitField file read scope "type" children w
    | .define => w
    | .include_ => w
    | .declaration => visitField file read scope "type" children w
    | .block => visitChildren file read .nested children w
    | .transparent => visitChildren file read scope children w

/-- Goes through a list of trees. -/
def visitChildren (file : String) (read : Reading) (scope : Scope) :
    List SyntaxNode → Walk → Walk
  | [], w => w
  | c :: cs, w => visitChildren file read scope cs (visit file read scope c w)

/-- Goes through the first tree of a list that is held in a field. -/
def visitField (file : String) (read : Reading) (scope : Scope) (name : String) :
    List SyntaxNode → Walk → Walk
  | [], w => w
  | c :: cs, w =>
    if c.field == some name then visit file read scope c w
    else visitField file read scope name cs w

end

mutual

/-- All that is found in a tree is recorded, one finding after the other. -/
lemma visit_eq_foldl (scope : Scope) : ∀ (n : SyntaxNode) (w : Walk),
    visit file read scope n w = (n.findings read scope).foldl (Walk.record file) w
  | ⟨kind, named, field, span, row, children⟩, w => by
    rw [visit, SyntaxNode.findings, List.foldl_append]
    cases NodeRole.ofKind kind with
    | function => exact visitField_eq_foldl .nested "body" children _
    | record => exact visitChildren_eq_foldl .nested children _
    | enumeration => rfl
    | typeDefinition => exact visitField_eq_foldl scope "type" children _
    | define => rfl
    | include_ => rfl
    | declaration => exact visitField_eq_foldl scope "type" children _
    | block => exact visitChildren_eq_foldl .nested children _
    | transparent => exact visitChildren_eq_foldl scope children _

/-- All that is found in a list of trees is recorded, one finding after the other. -/
lemma visitChildren_eq_foldl (scope : Scope) : ∀ (ns : List SyntaxNode) (w : Walk),
    visitChildren file read scope ns w =
      (SyntaxNode.findingsInAll read scope ns).foldl (Walk.record file) w
  | [], w => by rw [visitChildren, SyntaxNode.findingsInAll]; rfl
  | n :: ns, w => by
    rw [visitChildren, visit_eq_foldl scope n, visitChildren_eq_foldl scope ns,
      SyntaxNode.findingsInAll, List.foldl_append]

/-- All that is found in the tree of a field is recorded, one finding after the other. -/
lemma visitField_eq_foldl (scope : Scope) (name : String) : ∀ (ns : List SyntaxNode) (w : Walk),
    visitField file read scope name ns w =
      (SyntaxNode.findingsInField read scope name ns).foldl (Walk.record file) w
  | [], w => by rw [visitField, SyntaxNode.findingsInField]; rfl
  | n :: ns, w => by
    rw [visitField, SyntaxNode.findingsInField]
    split_ifs
    · exact visit_eq_foldl scope n w
    · exact visitField_eq_foldl scope name ns w

end

/-- A number goes into the identifier as a word, so a word will do. -/
lemma toSymbol_toNat_toUInt32 (d : SymbolDraft) (file : String) (origin : Origin) (ordinal : Nat) :
    d.toSymbol file origin ordinal.toUInt32.toNat = d.toSymbol file origin ordinal := by
  have hword : ordinal.toUInt32.toNat.toUInt32 = ordinal.toUInt32 := UInt32.ofNat_toNat
  rw [SymbolDraft.toSymbol, SymbolDraft.toSymbol, hword]

/-- Findings that are recorded are put behind those before them, and they go on with the numbers. -/
lemma out_foldl_record (found : List Finding) (w : Walk) (ordinal : Nat)
    (hordinal : w.ordinal = ordinal.toUInt32) :
    (found.foldl (Walk.record file) w).out =
      { symbols := w.out.symbols ++ (numbered file ordinal found).map (·.1)
        calls := w.out.calls ++ (numbered file ordinal found).flatMap
          fun (s, callees) => callees.map fun c => ⟨s.id, c⟩
        includes := w.out.includes ++ includesOf file found } := by
  induction found generalizing w ordinal with
  | nil => simp [numbered, includesOf]
  | cons f found ih =>
    rw [List.foldl_cons]
    cases f with
    | symbol d callees =>
      have hnext : (w.record file (.symbol d callees)).ordinal = (ordinal + 1).toUInt32 := by
        rw [Walk.record, hordinal]
        exact (UInt32.ofNat_add ordinal 1).symm
      rw [ih _ _ hnext, Walk.record, hordinal, toSymbol_toNat_toUInt32]
      simp [numbered, includesOf]
    | include_ target style =>
      rw [ih (w.record file (.include_ target style)) ordinal hordinal]
      simp [Walk.record, numbered, includesOf]

/-- What is extracted of a file, but for the scores, is what a walk records that numbers the symbols
as they come. -/
theorem out_visit (file : String) (read : Reading) (tree : SyntaxNode) :
    (visit file read .file tree {}).out = ofFindings file (tree.findings read .file) := by
  rw [visit_eq_foldl, out_foldl_record _ _ 0 rfl]
  rfl

end Extraction

end CodeAtlas
