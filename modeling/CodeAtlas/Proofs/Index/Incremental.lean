import CodeAtlas.Index.Merge
import CodeAtlas.Proofs.Graph.EdgeSet
import CodeAtlas.Proofs.Index.CallTable
import CodeAtlas.Proofs.Index.SourceFiles
import CodeAtlas.Proofs.Index.SymbolTable

/-!
# Incremental indexing equals a full build

An index says of a project's files what the files say together: the relation `ProjectIndex.Indexes`
between an index and the extractions of the live files asks that the table of symbols, the table of
calls and the graph hold the sets of `SourceFiles`, that the include lists are those of the single
files, and that the listed files are the live ones.

Two very different constructions satisfy it.  A full build resolves all calls against all functions
at once, through a map of names.  Replacing a file retracts what the file said, by the identifiers
of its symbols, and then patches the graph twice, along the calls of the file and along the calls of
others to its functions.  The relation leaves no freedom in what an index shows, so an index that
has seen any history of edits shows what a build of the files that are left shows.
-/

namespace CodeAtlas

open Std (ExtTreeMap ExtTreeSet)

/-- The include list that an extraction leaves, if it has includes. -/
def Extraction.targets (e : Extraction) : Option (List String) :=
  e.includes.foldl (fun ts i => CallGraph.withTarget ts i.target) none

/-! ### Resolving all calls at once -/

namespace CallTargets

/-- The functions of a name after a symbol was registered. -/
lemma mem_of_register (t : CallTargets) (s : Symbol) (name : String) (id : SymbolId) :
    id ∈ (t.register s).of name ↔
      id ∈ t.of name ∨ s.isFunction = true ∧ s.name = name ∧ s.id = id := by
  unfold register
  by_cases hfun : s.isFunction
  · simp only [hfun, if_true, of, ExtTreeMap.getElem?_insert, Std.LawfulEqCmp.compare_eq_iff_eq,
      true_and]
    by_cases hname : s.name = name
    · simp [hname, @eq_comm _ s.id]
    · simp [hname]
  · simp [hfun]

/-- The functions of a name among some symbols. -/
lemma mem_of_ofSymbols (ss : List Symbol) (name : String) (id : SymbolId) :
    id ∈ (ofSymbols ss).of name ↔
      ∃ s ∈ ss, s.isFunction = true ∧ s.name = name ∧ s.id = id := by
  suffices hrun : ∀ (ss : List Symbol) (t : CallTargets), id ∈ (ss.foldl register t).of name ↔
      id ∈ t.of name ∨ ∃ s ∈ ss, s.isFunction = true ∧ s.name = name ∧ s.id = id by
    rw [ofSymbols, hrun]
    simp [of]
  intro ss
  induction ss with
  | nil => simp
  | cons s ss ih =>
    intro t
    rw [List.foldl_cons, ih, mem_of_register, List.exists_mem_cons_iff, or_assoc]

/-- The edges of references lead from their callers to all functions of their names. -/
lemma mem_resolve (t : CallTargets) (rs : List CallReference) (e : CallEdge) :
    e ∈ t.resolve rs ↔ ∃ r ∈ rs, r.caller = e.caller ∧ e.callee ∈ t.of r.callee := by
  simp only [resolve, List.mem_flatMap, List.mem_map, CallEdge.mk_eq_iff]
  constructor
  · rintro ⟨r, hr, id, hid, hcaller, rfl⟩
    exact ⟨r, hr, hcaller, hid⟩
  · rintro ⟨r, hr, hcaller, hid⟩
    exact ⟨r, hr, e.callee, hid, hcaller, rfl⟩

end CallTargets

namespace ProjectIndex

variable {x y : ProjectIndex} {live : SourceFiles} {file : String} {e : Extraction}

/-- The index says what the files say together. -/
structure Indexes (x : ProjectIndex) (live : SourceFiles) : Prop where
  symbols : x.symbols.Holds live.symbols
  calls : x.calls.Holds live.calls
  graph : x.graph.Holds live.edges
  includes : ∀ file : String, x.graph.includes[file]? = (live[file]?).bind Extraction.targets
  mem_files : ∀ file : String, file ∈ x.files ↔ file ∈ live

/-! ### What is shown of an index depends on the files alone -/

/-- Indexes of the same files have the same graph. -/
lemma Indexes.graph_eq (hx : x.Indexes live) (hy : y.Indexes live) : x.graph = y.graph :=
  hx.graph.eq_of_includes_eq hy.graph
    (ExtTreeMap.ext_getElem? fun k => (hx.includes k).trans (hy.includes k).symm)

/-- Indexes of the same files have the same snapshot. -/
lemma Indexes.snapshot_eq (hx : x.Indexes live) (hy : y.Indexes live) :
    x.snapshot = y.snapshot := by
  have hfiles : x.files = y.files :=
    ExtTreeSet.ext_mem fun k => (hx.mem_files k).trans (hy.mem_files k).symm
  rw [snapshot, snapshot, hx.symbols.toList_eq hy.symbols, hx.calls.toList_eq hy.calls, hfiles]

/-! ### Building the index at once -/

/-- The index of files that is made at once. -/
def ofFiles (projectId root : String) (files : List (String × Extraction)) : ProjectIndex :=
  ofMerged projectId root (.ofParts (files.map Prod.fst) (files.map Prod.snd) [])

/-- Appending extractions appends each of their parts. -/
lemma foldl_append (es : List Extraction) (e : Extraction) :
    es.foldl Extraction.append e =
      ⟨e.symbols ++ es.flatMap (·.symbols), e.calls ++ es.flatMap (·.calls),
        e.includes ++ es.flatMap (·.includes)⟩ := by
  induction es generalizing e with
  | nil => simp
  | cons e' es ih => simp [ih, Extraction.append]

/-- The extraction that is merged of files. -/
lemma extraction_ofParts (files : List (String × Extraction)) :
    (MergedExtraction.ofParts (files.map Prod.fst) (files.map Prod.snd) []).extraction =
      ⟨files.flatMap (·.2.symbols), files.flatMap (·.2.calls), files.flatMap (·.2.includes)⟩ := by
  simp [MergedExtraction.ofParts, foldl_append, List.flatMap_map]

section

variable {files : List (String × Extraction)}

/-- A list of the files has the entries of their map. -/
lemma mem_iff_getElem? (hfiles : files.Perm live.toList) (p : String × Extraction) :
    p ∈ files ↔ live[p.1]? = some p.2 := by
  rw [hfiles.mem_iff, ExtTreeMap.mem_toList_iff_getElem?_eq_some]

/-- A list of the files names no file twice. -/
lemma nodup_paths (hfiles : files.Perm live.toList) : (files.map Prod.fst).Nodup := by
  rw [(hfiles.map Prod.fst).nodup_iff, ExtTreeMap.map_fst_toList_eq_keys]
  exact live.nodup_keys

/-- What one part of the extractions gives, file after file. -/
lemma mem_flatMap_iff (hfiles : files.Perm live.toList) (part : Extraction → List α) (a : α) :
    a ∈ files.flatMap (fun p => part p.2) ↔ a ∈ live.collect part := by
  rw [List.mem_flatMap]
  constructor
  · rintro ⟨p, hp, ha⟩
    exact ⟨p.1, p.2, (mem_iff_getElem? hfiles p).mp hp, ha⟩
  · rintro ⟨f, e, he, ha⟩
    exact ⟨(f, e), (mem_iff_getElem? hfiles (f, e)).mpr he, ha⟩

/-- The symbols of well-formed files have distinct identifiers. -/
lemma nodup_ids (hwf : live.WellFormed) (hfiles : files.Perm live.toList) :
    ((files.flatMap (·.2.symbols)).map (·.id)).Nodup := by
  have hmem : ∀ s, s ∈ files.flatMap (·.2.symbols) ↔ s ∈ live.symbols := fun s =>
    mem_flatMap_iff hfiles Extraction.symbols s
  refine List.Nodup.map_on (fun s hs s' hs' hid => ?_) ?_
  · exact hwf.eq_of_id_eq ((hmem s).mp hs) ((hmem s').mp hs') hid
  · rw [List.nodup_flatMap]
    constructor
    · intro p hp
      exact (hwf.extraction p.1 p.2 ((mem_iff_getElem? hfiles p).mp hp)).nodup_ids.of_map
    · refine (List.pairwise_map.mp (nodup_paths hfiles)).imp_of_mem fun {p q} hp hq hne => ?_
      refine List.disjoint_left.mpr ?_
      intro s hs hs'
      have hp' := (hwf.extraction p.1 p.2 ((mem_iff_getElem? hfiles p).mp hp)).file_eq s hs
      have hq' := (hwf.extraction q.1 q.2 ((mem_iff_getElem? hfiles q).mp hq)).file_eq s hs'
      exact hne (hp'.symm.trans hq')

/-- The includes of one file among those of all files are its own. -/
lemma filter_includes (hwf : live.WellFormed) (hfiles : files.Perm live.toList) (k : String) :
    (files.flatMap (·.2.includes)).filter (fun i => i.file == k) =
      ((live[k]?).map Extraction.includes).getD [] := by
  have hown : ∀ p ∈ files, ∀ i ∈ p.2.includes, i.file = p.1 := fun p hp =>
    (hwf.extraction p.1 p.2 ((mem_iff_getElem? hfiles p).mp hp)).include_file
  have hother : ∀ l : List (String × Extraction), (∀ p ∈ l, p ∈ files) → (∀ p ∈ l, p.1 ≠ k) →
      (l.flatMap (·.2.includes)).filter (fun i => i.file == k) = [] := by
    intro l hl hk
    rw [List.filter_eq_nil_iff]
    intro i hi
    obtain ⟨p, hp, hi⟩ := List.mem_flatMap.mp hi
    simpa [hown p (hl p hp) i hi] using hk p hp
  cases hlive : live[k]? with
  | none =>
    refine hother files (fun p hp => hp) fun p hp hk => ?_
    rw [mem_iff_getElem? hfiles, hk, hlive] at hp
    cases hp
  | some e =>
    -- The entry of the file parts the list, and no other entry is of the file.
    obtain ⟨before, after, rfl⟩ :=
      List.append_of_mem ((mem_iff_getElem? hfiles (k, e)).mpr hlive)
    have hnodup := nodup_paths hfiles
    rw [List.map_append, List.map_cons, List.nodup_middle, List.nodup_cons] at hnodup
    have hne : ∀ p, p ∈ before ∨ p ∈ after → p.1 ≠ k := by
      intro p hp hk
      have hpath : p.1 ∈ before.map Prod.fst ++ after.map Prod.fst :=
        List.mem_append.mpr (hp.imp List.mem_map_of_mem List.mem_map_of_mem)
      exact hnodup.1 (hk ▸ hpath)
    have hbefore := hother before (fun p hp => by simp [hp]) fun p hp => hne p (Or.inl hp)
    have hafter := hother after (fun p hp => by simp [hp]) fun p hp => hne p (Or.inr hp)
    have hself : e.includes.filter (fun i => i.file == k) = e.includes := by
      rw [List.filter_eq_self]
      intro i hi
      simpa using hown (k, e) (by simp) i hi
    simp [List.flatMap_append, List.flatMap_cons, hbefore, hafter, hself]

/-- The index that is made at once says what the files say together, in whatever order they are
read. -/
lemma indexes_ofFiles (projectId root : String) (hwf : live.WellFormed)
    (hfiles : files.Perm live.toList) : (ofFiles projectId root files).Indexes live where
  symbols := by
    rw [ofFiles, ofMerged, extraction_ofParts]
    have hnone : ∀ s ∈ files.flatMap (·.2.symbols), ∀ s' ∈ (∅ : Set Symbol), s.id ≠ s'.id :=
      fun s _ s' hs' => absurd hs' (Set.notMem_empty s')
    refine (SymbolTable.Holds.empty.insertAll (nodup_ids hwf hfiles) hnone).congr fun s => ?_
    simpa [SourceFiles.symbols] using mem_flatMap_iff hfiles Extraction.symbols s
  calls := by
    rw [ofFiles, ofMerged, extraction_ofParts]
    refine (CallTable.Holds.empty.insertAll _).congr fun r => ?_
    simpa [SourceFiles.calls] using mem_flatMap_iff hfiles Extraction.calls r
  graph := by
    rw [ofFiles, ofMerged, extraction_ofParts]
    refine ((CallGraph.holds_empty.addEdges _).addIncludes _).congr fun e => ?_
    have hsymbols : ∀ s, s ∈ files.flatMap (·.2.symbols) ↔ s ∈ live.symbols := fun s =>
      mem_flatMap_iff hfiles Extraction.symbols s
    have hcalls : ∀ r, r ∈ files.flatMap (·.2.calls) ↔ r ∈ live.calls := fun r =>
      mem_flatMap_iff hfiles Extraction.calls r
    simp only [Set.mem_ofPred_eq, Set.mem_empty_iff_false, false_or, CallTargets.mem_resolve,
      CallTargets.mem_of_ofSymbols, hsymbols, hcalls]
    rfl
  includes k := by
    rw [ofFiles, ofMerged, extraction_ofParts, CallGraph.includes_addIncludes,
      CallGraph.includes_addEdges, filter_includes hwf hfiles]
    cases live[k]? with
    | none => simp [CallGraph.empty]
    | some e => simp [CallGraph.empty, Extraction.targets]
  mem_files k := by
    have hpaths : (MergedExtraction.ofParts (files.map Prod.fst) (files.map Prod.snd) []).files =
        files.map Prod.fst := rfl
    rw [ofFiles, ofMerged, hpaths, ExtTreeSet.mem_ofList, List.contains_iff_mem,
      (hfiles.map Prod.fst).mem_iff, ExtTreeMap.map_fst_toList_eq_keys, ExtTreeMap.mem_keys]

end

/-! ### Reading an index back -/

/-- The index that is read back from the snapshot and the graph of another one says the same. -/
lemma Indexes.ofSnapshot (hx : x.Indexes live) (hwf : live.WellFormed) (projectId root : String) :
    (ProjectIndex.ofSnapshot projectId root x.snapshot x.graph).Indexes live where
  symbols := by
    have hnone : ∀ s ∈ x.symbols.toList, ∀ s' ∈ (∅ : Set Symbol), s.id ≠ s'.id :=
      fun s _ s' hs' => absurd hs' (Set.notMem_empty s')
    refine (SymbolTable.Holds.empty.insertAll hx.symbols.consistent.nodup_map_id_toList
      hnone).congr fun s => ?_
    simpa using hx.symbols.mem_toList s
  calls := by
    refine (CallTable.Holds.empty.insertAll x.calls.toList).congr fun r => ?_
    simpa using hx.calls.mem_toList r
  graph := hx.graph
  includes := hx.includes
  mem_files k := by
    have hfiles : k ∈ (ProjectIndex.ofSnapshot projectId root x.snapshot x.graph).files ↔
        k ∈ x.files ∨ ∃ s ∈ live.symbols, s.file = k := by
      simp [ProjectIndex.ofSnapshot, snapshot, hx.symbols.mem_toList]
    rw [hfiles, hx.mem_files]
    refine ⟨fun h => h.elim id ?_, Or.inl⟩
    rintro ⟨s, hs, rfl⟩
    obtain ⟨e, he, -⟩ := hwf.mem_of_mem_symbols hs
    exact ExtTreeMap.mem_iff_isSome_getElem?.mpr (Option.isSome_of_eq_some he)

/-! ### Retracting a file -/

/-- The index without a file says what the other files say. -/
lemma Indexes.removeFile (hx : x.Indexes live) (hwf : live.WellFormed) (file : String) :
    (x.removeFile file).2.Indexes (live.erase file) := by
  have hids : ∀ id, id ∉ (x.symbols.removeFile file).1.map (·.id) ↔
      ∀ s ∈ live.symbols, s.file = file → s.id ≠ id := by
    intro id
    simp only [List.mem_map, hx.symbols.mem_removeFile, not_exists, not_and, and_imp, ne_eq]
  refine ⟨?_, ?_, ?_, fun k => ?_, fun k => ?_⟩
  · exact (hx.symbols.removeFile file).congr fun s => (hwf.mem_symbols_erase file s).symm
  · refine (hx.calls.removeCallers ((x.symbols.removeFile file).1.map (·.id))).congr fun r => ?_
    rw [Set.mem_ofPred_eq, hids, hwf.mem_calls_erase]
  · refine ((hx.graph.removeSymbols ((x.symbols.removeFile file).1.map (·.id))).removeIncludes
      file).congr fun d => ?_
    rw [Set.mem_ofPred_eq, hids, hids, hwf.mem_edges_erase]
    exact and_congr_right fun _ => ⟨fun h s hs hf => ⟨h.1 s hs hf, h.2 s hs hf⟩,
      fun h => ⟨fun s hs hf => (h s hs hf).1, fun s hs hf => (h s hs hf).2⟩⟩
  · have hget : (x.removeFile file).2.graph.includes[k]? = (x.graph.includes.erase file)[k]? := by
      simp [ProjectIndex.removeFile, CallGraph.removeIncludes, CallGraph.includes_removeSymbols]
    rw [hget, ExtTreeMap.getElem?_erase, ExtTreeMap.getElem?_erase, hx.includes]
    split_ifs <;> rfl
  · have hmem : k ∈ (x.removeFile file).2.files ↔ k ∈ x.files.erase file := Iff.rfl
    rw [hmem, ExtTreeSet.mem_erase, ExtTreeMap.mem_erase, hx.mem_files]

/-! ### Putting in a file -/

/-- Recording the calls of a file puts in their references, and edges to the functions that they
name. -/
lemma holds_foldl_addCall {g : CallGraph} {t : CallTable} {E : Set CallEdge}
    {R : Set CallReference} (symbols : SymbolTable) (rs : List CallReference) (hg : g.Holds E)
    (ht : t.Holds R) :
    (rs.foldl (addCall symbols) (g, t)).1.Holds {d | d ∈ E ∨
      ∃ r ∈ rs, r.caller = d.caller ∧ d.callee ∈ symbols.functionIds r.callee} ∧
    (rs.foldl (addCall symbols) (g, t)).2.Holds {r | r ∈ R ∨ r ∈ rs} := by
  induction rs generalizing g t E R with
  | nil => exact ⟨hg.congr fun d => by simp, ht.congr fun r => by simp⟩
  | cons r rs ih =>
    obtain ⟨hgraph, hcalls⟩ := ih (hg.addEdges _) (ht.insert r)
    refine ⟨hgraph.congr fun d => ?_, hcalls.congr fun r' => ?_⟩
    · have hhead : d ∈ (symbols.functionIds r.callee).map (fun id => (⟨r.caller, id⟩ : CallEdge)) ↔
          r.caller = d.caller ∧ d.callee ∈ symbols.functionIds r.callee := by
        simp only [List.mem_map, CallEdge.mk_eq_iff]
        exact ⟨fun ⟨id, hid, hcaller, hcallee⟩ => ⟨hcaller, hcallee ▸ hid⟩,
          fun ⟨hcaller, hid⟩ => ⟨_, hid, hcaller, rfl⟩⟩
      simp only [Set.mem_ofPred_eq, hhead, List.exists_mem_cons_iff, or_assoc]
    · simp only [Set.mem_ofPred_eq, Set.mem_insert_iff, List.mem_cons]
      tauto

/-- Adding the incoming edges of functions links every recorded caller of their names to them. -/
lemma holds_foldl_addIncoming {g : CallGraph} {E : Set CallEdge} (calls : CallTable)
    (ss : List Symbol) (hg : g.Holds E) :
    (ss.foldl (addIncoming calls) g).Holds {d | d ∈ E ∨
      ∃ s ∈ ss, s.id = d.callee ∧ d.caller ∈ calls.callersOf s.name} := by
  induction ss generalizing g E with
  | nil => exact hg.congr fun d => by simp
  | cons s ss ih =>
    refine (ih (hg.addEdges _)).congr fun d => ?_
    have hhead : d ∈ (calls.callersOf s.name).toList.map (fun c => (⟨c, s.id⟩ : CallEdge)) ↔
        s.id = d.callee ∧ d.caller ∈ calls.callersOf s.name := by
      simp only [List.mem_map, CallEdge.mk_eq_iff, ExtTreeSet.mem_toList]
      exact ⟨fun ⟨c, hc, hcaller, hcallee⟩ => ⟨hcallee, hcaller ▸ hc⟩,
        fun ⟨hcallee, hc⟩ => ⟨_, hc, rfl, hcallee⟩⟩
    simp only [Set.mem_ofPred_eq, hhead, List.exists_mem_cons_iff, or_assoc]

/-- Recording calls leaves the includes alone. -/
lemma includes_foldl_addCall (symbols : SymbolTable) (rs : List CallReference)
    (state : CallGraph × CallTable) :
    (rs.foldl (addCall symbols) state).1.includes = state.1.includes := by
  induction rs generalizing state with
  | nil => rfl
  | cons r rs ih => exact (ih _).trans (CallGraph.includes_addEdges _ _)

/-- Adding incoming edges leaves the includes alone. -/
lemma includes_foldl_addIncoming (calls : CallTable) (ss : List Symbol) (g : CallGraph) :
    (ss.foldl (addIncoming calls) g).includes = g.includes := by
  induction ss generalizing g with
  | nil => rfl
  | cons s ss ih => exact (ih _).trans (CallGraph.includes_addEdges _ _)

/-- Putting in a file touches the includes alone by what the file includes. -/
lemma includes_insertFile (x : ProjectIndex) (file : String) (e : Extraction) :
    (x.insertFile file e).graph.includes = (x.graph.addIncludes e.includes).includes := by
  rw [insertFile, includes_foldl_addIncoming, includes_foldl_addCall]

/-- What putting in a file adds to the references and to the edges, given which symbols there are
then.  Of the tables only the sets matter that they hold. -/
lemma holds_insertFile {e : Extraction} {E : Set CallEdge} {R : Set CallReference} {T : Set Symbol}
    (file : String) (hg : x.graph.Holds E) (hc : x.calls.Holds R)
    (hs : (x.symbols.insertAll e.symbols).Holds T) :
    (x.insertFile file e).calls.Holds {r | r ∈ R ∨ r ∈ e.calls} ∧
    (x.insertFile file e).graph.Holds {d | (d ∈ E ∨ ∃ r ∈ e.calls, r.caller = d.caller ∧
        ∃ s ∈ T, s.isFunction = true ∧ s.name = r.callee ∧ s.id = d.callee) ∨
      ∃ s ∈ e.symbols.filter Symbol.isFunction, s.id = d.callee ∧
        (⟨d.caller, s.name⟩ ∈ R ∨ ⟨d.caller, s.name⟩ ∈ e.calls)} := by
  obtain ⟨hgraph, hcalls⟩ := holds_foldl_addCall (x.symbols.insertAll e.symbols) e.calls
    (hg.addIncludes e.includes) hc
  refine ⟨hcalls, (holds_foldl_addIncoming _ _ hgraph).congr fun d => ?_⟩
  simp only [Set.mem_ofPred_eq, hs.mem_functionIds, hcalls.mem_callersOf]

/-- The index with a new file says what all files say with the new one. -/
lemma Indexes.insertFile (hx : x.Indexes live) (hnew : live[file]? = none)
    (hwf : SourceFiles.WellFormed (live.insert file e)) :
    (x.insertFile file e).Indexes (live.insert file e) := by
  have he : e.WellFormed file := hwf.extraction file e (by simp)
  have hsymbols :
      (x.symbols.insertAll e.symbols).Holds (SourceFiles.symbols (live.insert file e)) :=
    (hx.symbols.insertAll he.nodup_ids (hwf.id_ne_of_insert hnew)).congr fun s =>
      (SourceFiles.mem_symbols_insert hnew s).symm
  obtain ⟨hcalls, hgraph⟩ := holds_insertFile file hx.graph hx.calls hsymbols
  refine ⟨hsymbols, hcalls.congr fun r => (SourceFiles.mem_calls_insert hnew r).symm,
    hgraph.congr fun d => ?_, fun k => ?_, fun k => ?_⟩
  · simp only [Set.mem_ofPred_eq, SourceFiles.mem_edges_insert hnew,
      SourceFiles.mem_calls_insert hnew, List.mem_filter, or_assoc, and_assoc]
  · rw [includes_insertFile, CallGraph.includes_addIncludes, ExtTreeMap.getElem?_insert,
      hx.includes]
    simp only [Std.LawfulEqCmp.compare_eq_iff_eq]
    by_cases hk : file = k
    · subst hk
      have hall : e.includes.filter (fun i => i.file == file) = e.includes := by
        rw [List.filter_eq_self]
        intro i hi
        simpa using he.include_file i hi
      simp [hall, hnew, Extraction.targets]
    · have hnone : e.includes.filter (fun i => i.file == k) = [] := by
        rw [List.filter_eq_nil_iff]
        intro i hi
        simpa [he.include_file i hi] using hk
      simp [hnone, hk]
  · have hmem : k ∈ (x.insertFile file e).files ↔ k ∈ x.files.insert file := Iff.rfl
    rw [hmem, ExtTreeSet.mem_insert, ExtTreeMap.mem_insert, hx.mem_files]

/-- The index with a file replaced says what the files say with the new extraction of that one. -/
lemma Indexes.replaceFile (hx : x.Indexes live) (hwf : live.WellFormed)
    (hwf' : SourceFiles.WellFormed (live.insert file e)) :
    (x.replaceFile file e).Indexes (live.insert file e) := by
  have hsame : (live.erase file).insert file e = live.insert file e := by
    refine ExtTreeMap.ext_getElem? fun k => ?_
    simp only [ExtTreeMap.getElem?_insert, ExtTreeMap.getElem?_erase]
    split_ifs <;> rfl
  rw [← hsame] at hwf' ⊢
  exact (hx.removeFile hwf file).insertFile (by simp) hwf'

end ProjectIndex

/-! ### Histories of edits -/

/-- An edit of a project: a file gets a new extraction, or it goes. -/
inductive FileEdit where
  | replace (file : String) (e : Extraction)
  | remove (file : String)

namespace FileEdit

/-- What an edit does to an index. -/
def onIndex (x : ProjectIndex) : FileEdit → ProjectIndex
  | .replace file e => x.replaceFile file e
  | .remove file => (x.removeFile file).2

/-- What an edit does to the files. -/
def onFiles (live : SourceFiles) : FileEdit → SourceFiles
  | .replace file e => live.insert file e
  | .remove file => live.erase file

/-- Extractions that may stand side by side: each speaks of its own file, and those of different
files share no identifier. -/
structure Compatible (known : Set (String × Extraction)) : Prop where
  wellFormed : ∀ p ∈ known, p.2.WellFormed p.1
  id_ne : ∀ p ∈ known, ∀ q ∈ known, p.1 ≠ q.1 →
    ∀ s ∈ p.2.symbols, ∀ s' ∈ q.2.symbols, s.id ≠ s'.id

variable {known : Set (String × Extraction)} {live : SourceFiles} {x : ProjectIndex}

/-- Files with extractions of a compatible set are well formed. -/
lemma Compatible.wellFormed_files (h : Compatible known)
    (hlive : ∀ (file : String) (e : Extraction), live[file]? = some e → (file, e) ∈ known) :
    live.WellFormed where
  extraction file e he := h.wellFormed (file, e) (hlive file e he)
  file_eq_of_id_eq := by
    rintro s ⟨f, e, he, hs⟩ s' ⟨f', e', he', hs'⟩ hid
    rw [(h.wellFormed _ (hlive f e he)).file_eq s hs,
      (h.wellFormed _ (hlive f' e' he')).file_eq s' hs']
    by_contra hne
    exact h.id_ne _ (hlive f e he) _ (hlive f' e' he') hne s hs s' hs' hid

/-- An edit with an extraction of a set keeps the files in the set. -/
lemma onFiles_subset {edit : FileEdit}
    (hedit : ∀ (file : String) (e : Extraction), edit = .replace file e → (file, e) ∈ known)
    (hlive : ∀ (file : String) (e : Extraction), live[file]? = some e → (file, e) ∈ known) :
    ∀ (file : String) (e : Extraction), (onFiles live edit)[file]? = some e →
      (file, e) ∈ known := by
  intro k e' he'
  cases edit with
  | replace file e =>
    simp only [onFiles, ExtTreeMap.getElem?_insert, Std.LawfulEqCmp.compare_eq_iff_eq] at he'
    split_ifs at he' with hk
    · exact hk ▸ Option.some.inj he' ▸ hedit file e rfl
    · exact hlive k e' he'
  | remove file =>
    exact hlive k e' ((SourceFiles.getElem?_erase_eq_some_iff live file k e').mp he').2

/-- One edit keeps index and files together. -/
lemma indexes_onIndex (hknown : Compatible known) {edit : FileEdit}
    (hedit : ∀ (file : String) (e : Extraction), edit = .replace file e → (file, e) ∈ known)
    (hlive : ∀ (file : String) (e : Extraction), live[file]? = some e → (file, e) ∈ known)
    (hx : x.Indexes live) : (onIndex x edit).Indexes (onFiles live edit) := by
  have hwf : live.WellFormed := hknown.wellFormed_files hlive
  have hwf' : (onFiles live edit).WellFormed :=
    hknown.wellFormed_files (onFiles_subset hedit hlive)
  cases edit with
  | replace file e => exact hx.replaceFile hwf hwf'
  | remove file => exact hx.removeFile hwf file

/-- Index and files stay together along every history. -/
lemma indexes_foldl_onIndex (hknown : Compatible known) (edits : List FileEdit)
    (hedits : ∀ (file : String) (e : Extraction), .replace file e ∈ edits → (file, e) ∈ known)
    (hlive : ∀ (file : String) (e : Extraction), live[file]? = some e → (file, e) ∈ known)
    (hx : x.Indexes live) :
    (edits.foldl onIndex x).Indexes (edits.foldl onFiles live) ∧
      (edits.foldl onFiles live).WellFormed := by
  induction edits generalizing x live with
  | nil => exact ⟨hx, hknown.wellFormed_files hlive⟩
  | cons edit edits ih =>
    have hedit : ∀ (file : String) (e : Extraction), edit = .replace file e → (file, e) ∈ known :=
      fun file e he => hedits file e (he ▸ List.mem_cons_self)
    exact ih (fun file e he => hedits file e (List.mem_cons_of_mem _ he))
      (onFiles_subset hedit hlive) (indexes_onIndex hknown hedit hlive hx)

/-- An index that is started empty or by a full build, and then edited in whatever way, shows what a
full build of the files that are left shows, in whatever order that build reads them: the same graph
and the same snapshot.  The snapshot has the symbols and calls of those files, an edge leads exactly
from a recorded caller to a function of the name that it calls, and both of its ends are known. -/
theorem foldl_onIndex_eq_ofFiles (projectId root : String) (hknown : Compatible known)
    (initial : SourceFiles)
    (hinitial : ∀ (file : String) (e : Extraction), initial[file]? = some e → (file, e) ∈ known)
    (start : ProjectIndex)
    (hstart : start = .empty projectId root ∧ initial = ∅ ∨
      ∃ files : List (String × Extraction), files.Perm initial.toList ∧
        start = .ofFiles projectId root files)
    (edits : List FileEdit)
    (hedits : ∀ (file : String) (e : Extraction), .replace file e ∈ edits → (file, e) ∈ known)
    (files : List (String × Extraction))
    (hfiles : files.Perm (edits.foldl onFiles initial).toList) :
    let live := edits.foldl onFiles initial
    let x := edits.foldl onIndex start
    let y := ProjectIndex.ofFiles projectId root files
    x.graph = y.graph ∧ x.snapshot = y.snapshot ∧
    (∀ s, s ∈ x.snapshot.symbols ↔ ∃ p ∈ live.toList, s ∈ p.2.symbols) ∧
    (∀ r, r ∈ x.snapshot.calls ↔ ∃ p ∈ live.toList, r ∈ p.2.calls) ∧
    (∀ c d, x.graph.hasEdge c d = true ↔ ∃ r ∈ x.snapshot.calls, r.caller = c ∧
      ∃ s ∈ x.snapshot.symbols, s.isFunction = true ∧ s.name = r.callee ∧ s.id = d) ∧
    ∀ c d, x.graph.hasEdge c d = true → (x.get? c).isSome = true ∧ (x.get? d).isSome = true := by
  intro live x y
  have hwf₀ : initial.WellFormed := hknown.wellFormed_files hinitial
  have hstart' : start.Indexes initial := by
    rcases hstart with ⟨rfl, rfl⟩ | ⟨files, hfiles, rfl⟩
    · have hnil : ([] : List (String × Extraction)).Perm (∅ : SourceFiles).toList := by simp
      exact ProjectIndex.indexes_ofFiles projectId root hwf₀ hnil
    · exact ProjectIndex.indexes_ofFiles projectId root hwf₀ hfiles
  obtain ⟨hx, hwf⟩ := indexes_foldl_onIndex hknown edits hedits hinitial hstart'
  have hy : y.Indexes live := ProjectIndex.indexes_ofFiles projectId root hwf hfiles
  have hsymbols : ∀ s, s ∈ x.snapshot.symbols ↔ s ∈ live.symbols := hx.symbols.mem_toList
  have hcalls : ∀ r, r ∈ x.snapshot.calls ↔ r ∈ live.calls := hx.calls.mem_toList
  refine ⟨hx.graph_eq hy, hx.snapshot_eq hy, fun s => ?_, fun r => ?_, fun c d => ?_,
    fun c d hedge => ?_⟩
  · rw [hsymbols, SourceFiles.symbols, ← ProjectIndex.mem_flatMap_iff (List.Perm.refl live.toList),
      List.mem_flatMap]
  · rw [hcalls, SourceFiles.calls, ← ProjectIndex.mem_flatMap_iff (List.Perm.refl live.toList),
      List.mem_flatMap]
  · rw [hx.graph.hasEdge_iff]
    simp only [hsymbols, hcalls]
    rfl
  · obtain ⟨⟨s, hs, rfl⟩, ⟨s', hs', rfl⟩⟩ :=
      hwf.exists_ends ((hx.graph.hasEdge_iff c d).mp hedge)
    exact ⟨Option.isSome_of_eq_some ((hx.symbols.get?_eq_some_iff s).mpr hs),
      Option.isSome_of_eq_some ((hx.symbols.get?_eq_some_iff s').mpr hs')⟩

/-- A file with one function that makes some calls. -/
def oneFunction (file name : String) (callees : List String) : Extraction where
  symbols := [⟨⟨name⟩, name, file, 1, "", .syntaxTree, .unmeasured "void" []⟩]
  calls := callees.map fun callee => ⟨⟨name⟩, callee⟩
  includes := [⟨file, "common.h", .quoted⟩]

/-- Three versions of two files: a caller, its callee, and the caller without the call. -/
def threeVersions : Set (String × Extraction) :=
  {("a.c", oneFunction "a.c" "run" ["step"]), ("b.c", oneFunction "b.c" "step" ["run"]),
    ("a.c", oneFunction "a.c" "run" [])}

/-- The caller comes before its callee, the callee goes and comes back, and then the caller changes.
-/
def fiveEdits : List FileEdit :=
  [.replace "a.c" (oneFunction "a.c" "run" ["step"]),
    .replace "b.c" (oneFunction "b.c" "step" ["run"]), .remove "b.c",
    .replace "b.c" (oneFunction "b.c" "step" ["run"]), .replace "a.c" (oneFunction "a.c" "run" [])]

/-- The history of five edits agrees with a build that reads the two files in reverse order. -/
theorem foldl_onIndex_fiveEdits :
    Compatible threeVersions ∧
    (∀ (file : String) (e : Extraction), .replace file e ∈ fiveEdits → (file, e) ∈ threeVersions) ∧
    (fiveEdits.foldl onIndex (.empty "p" "/p")).graph =
      (ProjectIndex.ofFiles "p" "/p" (fiveEdits.foldl onFiles ∅).toList.reverse).graph ∧
    (fiveEdits.foldl onIndex (.empty "p" "/p")).snapshot =
      (ProjectIndex.ofFiles "p" "/p" (fiveEdits.foldl onFiles ∅).toList.reverse).snapshot := by
  have hone : ∀ file name callees, (oneFunction file name callees).WellFormed file := by
    intro file name callees
    refine ⟨by simp [oneFunction], by simp [oneFunction], fun r hr => ?_, by simp [oneFunction]⟩
    obtain ⟨callee, -, rfl⟩ := List.mem_map.mp hr
    exact ⟨_, List.mem_singleton_self _, rfl, rfl⟩
  have hknown : Compatible threeVersions := by
    constructor
    · rintro p (rfl | rfl | rfl) <;> exact hone _ _ _
    · rintro p (rfl | rfl | rfl) q (rfl | rfl | rfl) <;> simp [oneFunction]
  have hedits : ∀ (file : String) (e : Extraction), .replace file e ∈ fiveEdits →
      (file, e) ∈ threeVersions := by
    intro file e he
    simp only [fiveEdits, List.mem_cons, List.not_mem_nil, FileEdit.replace.injEq, reduceCtorEq,
      or_false, false_or] at he
    rcases he with ⟨rfl, rfl⟩ | ⟨rfl, rfl⟩ | ⟨rfl, rfl⟩ | ⟨rfl, rfl⟩ <;> simp [threeVersions]
  obtain ⟨hgraph, hsnapshot, -⟩ := foldl_onIndex_eq_ofFiles "p" "/p" hknown ∅ (by simp)
    (.empty "p" "/p") (Or.inl ⟨rfl, rfl⟩) fiveEdits hedits _ (List.reverse_perm _)
  exact ⟨hknown, hedits, hgraph, hsnapshot⟩

end FileEdit

end CodeAtlas
