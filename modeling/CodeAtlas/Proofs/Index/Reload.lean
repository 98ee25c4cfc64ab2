import CodeAtlas.Proofs.Index.Incremental

/-!
# An index that is read back cannot be told from the one that was written

A snapshot keeps sorted lists: which symbols and which references there are, but not in which order
they came, and not the maps that group them.  An index that is read back therefore differs inside
from the one that was written.  The relation `ProjectIndex.Agrees` says what the two share: the set
of symbols, the set of references, and the graph.

Every edit keeps the relation, whatever the extractions are.  In particular an identifier may come
twice in an extraction or stand for a symbol of another file, and supplementary symbols may stand in
files that were never indexed; the files that two indexes list may then differ, and nothing else.
-/

namespace CodeAtlas

namespace ProjectIndex

variable {x y : ProjectIndex}

/-- Both indexes say the same, in whatever order they keep it. -/
structure Agrees (x y : ProjectIndex) : Prop where
  symbols : ∃ S, x.symbols.Holds S ∧ y.symbols.Holds S
  calls : ∃ R, x.calls.Holds R ∧ y.calls.Holds R
  edges : ∃ E, x.graph.Holds E
  graph_eq : x.graph = y.graph

namespace Agrees

/-- Indexes that agree list the same symbols. -/
lemma symbols_eq (h : x.Agrees y) : x.snapshot.symbols = y.snapshot.symbols := by
  obtain ⟨S, hx, hy⟩ := h.symbols
  exact hx.toList_eq hy

/-- Indexes that agree list the same references. -/
lemma calls_eq (h : x.Agrees y) : x.snapshot.calls = y.snapshot.calls := by
  obtain ⟨R, hx, hy⟩ := h.calls
  exact hx.toList_eq hy

/-- The same symbols go with a file. -/
lemma perm_removeFile (h : x.Agrees y) (file : String) :
    (x.removeFile file).1.Perm (y.removeFile file).1 := by
  obtain ⟨S, hx, hy⟩ := h.symbols
  exact hx.perm_removeFile hy file

/-- Indexes that agree do so without a file.  The identifiers of its symbols may be taken out in
different orders, which leaves the same graph and the same references. -/
lemma removeFile (h : x.Agrees y) (file : String) :
    (x.removeFile file).2.Agrees (y.removeFile file).2 := by
  obtain ⟨S, hxs, hys⟩ := h.symbols
  obtain ⟨R, hxc, hyc⟩ := h.calls
  obtain ⟨E, hxg⟩ := h.edges
  have hids : ∀ id, id ∈ (x.symbols.removeFile file).1.map (·.id) ↔
      id ∈ (y.symbols.removeFile file).1.map (·.id) := fun id =>
    ((hxs.perm_removeFile hys file).map _).mem_iff
  have hycalls : (y.removeFile file).2.calls.Holds
      {r | r ∈ R ∧ r.caller ∉ (x.symbols.removeFile file).1.map (·.id)} := by
    refine (hyc.removeCallers ((y.symbols.removeFile file).1.map (·.id))).congr fun r => ?_
    rw [Set.mem_ofPred_eq, Set.mem_ofPred_eq, hids]
  refine ⟨⟨_, hxs.removeFile file, hys.removeFile file⟩, ⟨_, hxc.removeCallers _, hycalls⟩,
    ⟨_, (hxg.removeSymbols _).removeIncludes file⟩, ?_⟩
  have hgraph : x.graph.removeSymbols ((x.symbols.removeFile file).1.map (·.id)) =
      y.graph.removeSymbols ((y.symbols.removeFile file).1.map (·.id)) := by
    rw [← h.graph_eq]
    exact hxg.removeSymbols_congr hids
  exact congrArg (CallGraph.removeIncludes · file) hgraph

/-- Indexes that agree do so with a file that is put in.  Edges lead to the functions of a name in
the order of the table, which may differ, and the set of edges is the same. -/
lemma insertFile (h : x.Agrees y) (file : String) (e : Extraction) :
    (x.insertFile file e).Agrees (y.insertFile file e) := by
  obtain ⟨S, hxs, hys⟩ := h.symbols
  obtain ⟨R, hxc, hyc⟩ := h.calls
  obtain ⟨E, hxg⟩ := h.edges
  have hyg : y.graph.Holds E := h.graph_eq ▸ hxg
  obtain ⟨T, hxt, hyt⟩ := hxs.exists_insertAll hys e.symbols
  obtain ⟨hxcalls, hxgraph⟩ := holds_insertFile file hxg hxc hxt
  obtain ⟨hycalls, hygraph⟩ := holds_insertFile file hyg hyc hyt
  refine ⟨⟨T, hxt, hyt⟩, ⟨_, hxcalls, hycalls⟩, ⟨_, hxgraph⟩, ?_⟩
  refine hxgraph.eq_of_includes_eq hygraph ?_
  rw [includes_insertFile, includes_insertFile, h.graph_eq]

/-- Every edit keeps two indexes in agreement. -/
lemma onIndex (h : x.Agrees y) (edit : FileEdit) : (edit.onIndex x).Agrees (edit.onIndex y) := by
  cases edit with
  | replace file e => exact (h.removeFile file).insertFile file e
  | remove file => exact h.removeFile file

/-- Every sequence of edits keeps two indexes in agreement. -/
lemma foldl_onIndex (h : x.Agrees y) (edits : List FileEdit) :
    (edits.foldl FileEdit.onIndex x).Agrees (edits.foldl FileEdit.onIndex y) := by
  induction edits generalizing x y with
  | nil => exact h
  | cons edit edits ih => exact ih (h.onIndex edit)

end Agrees

/-- An index is sound if its tables hold sets. -/
abbrev Sound (x : ProjectIndex) : Prop := x.Agrees x

/-- Every index that is made at once is sound. -/
lemma sound_ofMerged (projectId root : String) (merged : MergedExtraction) :
    (ofMerged projectId root merged).Sound where
  symbols :=
    have h := (SymbolTable.consistent_ofList merged.extraction.symbols).holds
    ⟨_, h, h⟩
  calls :=
    have h := CallTable.Holds.empty.insertAll merged.extraction.calls
    ⟨_, h, h⟩
  edges := ⟨_, (CallGraph.holds_empty.addEdges _).addIncludes _⟩
  graph_eq := rfl

/-- An index that is read back agrees with the one that was written. -/
lemma Sound.agrees_ofSnapshot (h : x.Sound) (projectId root : String) :
    x.Agrees (ofSnapshot projectId root x.snapshot x.graph) where
  symbols := by
    obtain ⟨S, hx, -⟩ := h.symbols
    have hnone : ∀ s ∈ x.symbols.toList, ∀ s' ∈ (∅ : Set Symbol), s.id ≠ s'.id :=
      fun s _ s' hs' => absurd hs' (Set.notMem_empty s')
    refine ⟨S, hx, (SymbolTable.Holds.empty.insertAll hx.consistent.nodup_map_id_toList
      hnone).congr fun s => ?_⟩
    simpa using hx.mem_toList s
  calls := by
    obtain ⟨R, hx, -⟩ := h.calls
    refine ⟨R, hx, (CallTable.Holds.empty.insertAll x.calls.toList).congr fun r => ?_⟩
    simpa using hx.mem_toList r
  edges := h.edges
  graph_eq := rfl

end ProjectIndex

/-- Reading an index back is invisible to later updates.  An index that was made at once from any
extractions and edited in whatever way is written and read back, under any name and root.  The two
have the same symbols, references and graph; they have so after any further edits that are made to
both; and whichever file is retracted then, the same symbols go with it. -/
theorem FileEdit.foldl_onIndex_ofSnapshot (projectId root projectId' root' : String)
    (merged : MergedExtraction) (before after : List FileEdit) (file : String) :
    let written := before.foldl FileEdit.onIndex (.ofMerged projectId root merged)
    let reread := ProjectIndex.ofSnapshot projectId' root' written.snapshot written.graph
    let x := after.foldl FileEdit.onIndex written
    let y := after.foldl FileEdit.onIndex reread
    (reread.snapshot.symbols = written.snapshot.symbols ∧
      reread.snapshot.calls = written.snapshot.calls ∧ reread.graph = written.graph) ∧
    (y.snapshot.symbols = x.snapshot.symbols ∧ y.snapshot.calls = x.snapshot.calls ∧
      y.graph = x.graph) ∧
    (y.removeFile file).1.Perm (x.removeFile file).1 := by
  intro written reread x y
  have hwritten : written.Sound :=
    (ProjectIndex.sound_ofMerged projectId root merged).foldl_onIndex before
  have hreread : written.Agrees reread := hwritten.agrees_ofSnapshot projectId' root'
  have hxy : x.Agrees y := hreread.foldl_onIndex after
  exact ⟨⟨hreread.symbols_eq.symm, hreread.calls_eq.symm, hreread.graph_eq.symm⟩,
    ⟨hxy.symbols_eq.symm, hxy.calls_eq.symm, hxy.graph_eq.symm⟩, (hxy.perm_removeFile file).symm⟩

end CodeAtlas
