import CodeAtlas.Proofs.Index.Forgetting
import CodeAtlas.Proofs.Index.Merging
import CodeAtlas.Proofs.Index.TakingTurns

/-!
# The counts of an index that is loaded

A build tells how many files, symbols and call edges its index has, and the description on disk
gives the counts of the index that was written last.  The index that is loaded next has as many
symbols and edges.  It lists as its files those of the snapshot and those of all symbols, while an
index in memory lists those that were indexed.  So it has as many files exactly if every symbol
stands in a file that was indexed (`Indexer.loads_counts_of_told`), and that is so in every course
of events if the supplementary tools report symbols of the files that they were given alone.
-/

namespace CodeAtlas

open CodeAtlas.Action CodeAtlas.FileTree

open Std (ExtTreeSet)

/-- A set that is joined with a list is as large as before exactly if all of the list is in it. -/
lemma size_ofList_append_iff (s : ExtTreeSet String) (l : List String) :
    (ExtTreeSet.ofList (s.toList ++ l)).size = s.size ↔ ∀ a ∈ l, a ∈ s := by
  have hmem : ∀ a, a ∈ ExtTreeSet.ofList (s.toList ++ l) ↔ a ∈ s ∨ a ∈ l := by
    intro a
    rw [ExtTreeSet.mem_ofList, List.contains_iff_mem, List.mem_append, ExtTreeSet.mem_toList]
  constructor
  · intro hsize a ha
    have hnodup : s.toList.Nodup := s.distinct_toList.imp fun hne heq => by simp [heq] at hne
    have hsubset : s.toList ⊆ (ExtTreeSet.ofList (s.toList ++ l)).toList := fun b hb =>
      ExtTreeSet.mem_toList.mpr ((hmem b).mpr (Or.inl (ExtTreeSet.mem_toList.mp hb)))
    have hperm := (List.subperm_of_subset hnodup hsubset).perm_of_length_le (by
      rw [ExtTreeSet.length_toList, ExtTreeSet.length_toList, hsize])
    have hjoined := ExtTreeSet.mem_toList.mpr ((hmem a).mpr (Or.inr ha))
    exact ExtTreeSet.mem_toList.mp (hperm.mem_iff.mpr hjoined)
  · intro hall
    refine congrArg ExtTreeSet.size (ExtTreeSet.ext_mem fun a => (hmem a).trans ?_)
    exact or_iff_left_of_imp (hall a)

namespace ProjectIndex

variable {x : ProjectIndex} {e : Extraction} {edits : List FileEdit} {merged : MergedExtraction}

/-! ### Indexes whose symbols stand in their files -/

/-- Every symbol stands in one of the files that were indexed. -/
def ListsFiles (x : ProjectIndex) : Prop := ∀ s ∈ x.snapshot.symbols, s.file ∈ x.snapshot.files

/-- The files of a snapshot are those of the index. -/
lemma mem_snapshot_files {file : String} : file ∈ x.snapshot.files ↔ file ∈ x.files :=
  ExtTreeSet.mem_toList

namespace ListsFiles

/-- So it is without a file. -/
lemma removeFile (h : x.ListsFiles) (hx : x.Sound) (file : String) :
    (x.removeFile file).2.ListsFiles := by
  intro s hs
  obtain ⟨hs, hne⟩ := (mem_symbols_removeFile hx s).mp hs
  have hfile : s.file ∈ x.files.erase file := by
    rw [ExtTreeSet.mem_erase, ne_eq, Std.LawfulEqCmp.compare_eq_iff_eq]
    exact ⟨Ne.symm hne, mem_snapshot_files.mp (h s hs)⟩
  exact mem_snapshot_files.mpr hfile

/-- So it is with a file that is put in. -/
lemma insertFile (h : x.ListsFiles) (hx : x.Sound) {file : String} (he : e.SpeaksOf file) :
    (x.insertFile file e).ListsFiles := by
  intro s hs
  refine mem_snapshot_files.mpr ?_
  have hfiles : (x.insertFile file e).files = x.files.insert file := rfl
  rw [hfiles, ExtTreeSet.mem_insert, Std.LawfulEqCmp.compare_eq_iff_eq]
  rcases mem_or_mem_of_insertFile hx hs with hs | hs
  · exact Or.inl (he.file_eq s hs).symm
  · exact Or.inr (mem_snapshot_files.mp (h s hs))

/-- So it is after edits. -/
lemma foldl_onIndex (h : x.ListsFiles) (hx : x.Sound)
    (hedits : ∀ g e, .replace g e ∈ edits → e.SpeaksOf g) :
    (edits.foldl FileEdit.onIndex x).ListsFiles := by
  induction edits generalizing x with
  | nil => exact h
  | cons edit edits ih =>
    refine ih ?_ (Agrees.onIndex hx edit) fun g e he => hedits g e (List.mem_cons_of_mem _ he)
    cases edit with
    | replace g e =>
      have hspeaks := hedits g e List.mem_cons_self
      exact (h.removeFile hx g).insertFile (Agrees.removeFile hx g) hspeaks
    | remove g => exact h.removeFile hx g

end ListsFiles

/-- So it is of an index that is made at once of files and their symbols. -/
lemma listsFiles_ofMerged (id root : String) (h : merged.SpeaksOf merged.files) :
    (ofMerged id root merged).ListsFiles := by
  intro s hs
  refine mem_snapshot_files.mpr (ExtTreeSet.mem_ofList.mpr (List.contains_iff_mem.mpr ?_))
  rcases SymbolTable.consistent_empty.mem_or_mem_of_insertAll hs with hs | hs
  · exact h.file_mem s hs
  · rw [SymbolTable.Holds.empty.mem_toList] at hs
    exact absurd hs (Set.notMem_empty s)

/-- So it is of every index that is read back. -/
lemma listsFiles_ofSnapshot (id root : String) (snapshot : Snapshot) (graph : CallGraph) :
    (ofSnapshot id root snapshot graph).ListsFiles := by
  intro s hs
  refine mem_snapshot_files.mpr (ExtTreeSet.mem_ofList.mpr (List.contains_iff_mem.mpr ?_))
  rcases SymbolTable.consistent_empty.mem_or_mem_of_insertAll hs with hs | hs
  · exact List.mem_append_right _ (List.mem_map_of_mem hs)
  · rw [SymbolTable.Holds.empty.mem_toList] at hs
    exact absurd hs (Set.notMem_empty s)

/-! ### The counts of an index that is read back -/

/-- An index that is read back has as many symbols and edges as the one that was written, and as
many files exactly if the one that was written lists the files of its symbols. -/
lemma Sound.stats_ofSnapshot (h : x.Sound) (id root : String) :
    (ofSnapshot id root x.snapshot x.graph).stats.symbols = x.stats.symbols ∧
    (ofSnapshot id root x.snapshot x.graph).stats.callEdges = x.stats.callEdges ∧
    ((ofSnapshot id root x.snapshot x.graph).stats.files = x.stats.files ↔ x.ListsFiles) := by
  obtain ⟨S, hx, hread⟩ := (h.agrees_ofSnapshot id root).symbols
  refine ⟨congrArg Std.ExtTreeMap.size (hread.symbols_eq hx), rfl, ?_⟩
  have hfiles : (ofSnapshot id root x.snapshot x.graph).stats.files =
      (ExtTreeSet.ofList (x.files.toList ++ x.snapshot.symbols.map (·.file))).size := rfl
  rw [hfiles]
  refine (size_ofList_append_iff _ _).trans (List.forall_mem_map.trans ?_)
  exact forall₂_congr fun s _ => mem_snapshot_files.symm

end ProjectIndex

namespace Indexer

open IndexDirectory ProjectIndex

variable {x : Indexer} {base : Place} {w w' : Workspace} {s₀ s s' : LiveWorkspace}
  {batch : List Change} {n symbols files callEdges : Nat}

/-! ### Courses of events in which all symbols stand in indexed files -/

/-- The live index and whatever index stands on disk list the files of their symbols. -/
structure Listed (x : Indexer) (base : Place) (s : LiveWorkspace) : Prop where
  live : s.live.index.ListsFiles
  disk : ∀ index, x.OnDisk base s index → index.ListsFiles

/-- Supplementary tools report symbols of the files that they are given, whatever the root is. -/
def SourcesKeep (x : Indexer) : Prop := ∀ source ∈ x.sources, ∀ root, source.KeepsTo root

/-- One snapshot stands on disk. -/
lemma OnDisk.snapshot_eq {index index' : ProjectIndex} (h : x.OnDisk base s index)
    (h' : x.OnDisk base s index') : index.snapshot = index'.snapshot := by
  have hload := h.runOn_load
  rw [h.projectId_eq, ← h'.projectId_eq, h'.runOn_load] at hload
  exact (Prod.mk.inj (Option.some.inj (Except.ok.inj (Prod.mk.inj hload).1))).1.symm

/-- It is enough to look at one index that stands on disk. -/
lemma Listed.of_onDisk {index : ProjectIndex} (hlive : s.live.index.ListsFiles)
    (hdisk : x.OnDisk base s index) (hindex : index.ListsFiles) : x.Listed base s := by
  refine ⟨hlive, fun index' hdisk' => ?_⟩
  unfold ListsFiles
  rw [hdisk'.snapshot_eq hdisk]
  exact hindex

/-- A build lists the files of its symbols. -/
lemma SourcesKeep.listsFiles_ofMerged (hsources : x.SourcesKeep) {t : FileTree} {id root : String}
    {paths : List String} {merged : MergedExtraction}
    (h : t.merge x.measurer x.sources id root paths = .ok merged) :
    (ofMerged id root merged).ListsFiles := by
  have hfiles : merged.files = paths.map (Path.relative root) := by
    unfold FileTree.merge at h
    simp only at h
    split_ifs at h
    rw [← Except.ok.inj h]
    rfl
  have hspeaks := speaksOf_of_merge (fun source hsource => hsources source hsource root) h
  exact ProjectIndex.listsFiles_ofMerged id root (hfiles ▸ hspeaks)

/-- A batch that is applied keeps the files listed. -/
lemma listsFiles_of_applyBatch (h : s.live.index.ListsFiles) (hsound : s.live.index.Sound)
    (hrun : (x.applyBatch batch).runOn s = (.ok (), s')) : s'.live.index.ListsFiles := by
  obtain ⟨updates, hupdates, hindex⟩ := exists_updates_of_applyBatch hrun
  rw [hindex]
  refine h.foldl_onIndex hsound fun g e he => ?_
  obtain ⟨u, hu, hedit⟩ := List.mem_map.mp he
  obtain ⟨c, -, hc⟩ := (exists_of_mapM_ok hupdates).1 u hu
  unfold FileUpdate.edit at hedit
  split at hedit
  · rename_i e' he'
    obtain ⟨rfl, rfl⟩ := FileEdit.replace.inj hedit
    exact speaksOf_of_updateOf hc he'
  · cases hedit

/-- So does a batch that is tried, also where a rebuild takes its place. -/
lemma SourcesKeep.listsFiles_of_applyOrRebuild (hsources : x.SourcesKeep)
    (h : s.live.index.ListsFiles) (hsound : s.live.index.Sound)
    (hrun : (x.applyOrRebuild batch).runOn s = (.ok n, s')) : s'.live.index.ListsFiles := by
  rcases runOn_applyOrRebuild_cases hrun with ⟨between, hbatch, -, rfl⟩ |
    ⟨e, between, w, -, ⟨rebuilt, hrebuild, -, rfl⟩ | ⟨cause, -, hcause, -⟩⟩
  · have hlisted := listsFiles_of_applyBatch h hsound hbatch
    exact hlisted
  · obtain ⟨merged, hmerged, rfl⟩ := exists_merge_of_rebuild hrebuild
    exact hsources.listsFiles_ofMerged hmerged
  · cases hcause

/-- A turn of the live index keeps the files listed. -/
lemma SourcesKeep.listsFiles_of_liveTurn (hsources : x.SourcesKeep) (hsettled : x.Settled base s)
    (h : s.live.index.ListsFiles) (hturn : x.LiveTurn base s s') : s'.live.index.ListsFiles := by
  cases hturn with
  | outside w hstart hsame => exact h
  | queue c now =>
    have hindex : (s.live.queueChange x.settings.indexing c now).2.index = s.live.index := by
      simp only [LiveIndex.queueChange]
      split_ifs <;> rfl
    exact hindex ▸ h
  | @reopen index hload =>
    obtain ⟨-, stored, hstored, -⟩ := hsettled.exists_agrees_of_loadProject hload
    have hfound := hstored.runOn_loadProject s.live.index.root
    rw [hstored.projectId_eq, hload] at hfound
    obtain rfl := Option.some.inj (Except.ok.inj (Prod.mk.inj hfound).1)
    exact listsFiles_ofSnapshot _ _ _ _
  | process hrun =>
    rcases htake : s.live.queue.takeReady s.live.batchSize s.workspace.clock.milliseconds with
      ⟨batch, queue⟩
    rw [runOn_processPending_of_takeReady x htake] at hrun
    split_ifs at hrun
    · obtain ⟨-, rfl⟩ := Prod.mk.inj hrun
      exact h
    · exact hsources.listsFiles_of_applyOrRebuild (s := withQueue s queue) h hsettled.sound hrun
  | @force _ paths n hrun =>
    by_cases hnil : paths = []
    · rw [hnil, Indexer.forceUpdate, if_pos List.isEmpty_nil] at hrun
      obtain ⟨_, between, hrebuild, hlast⟩ := runOn_bind_eq_ok_iff.mp hrun
      obtain ⟨-, rfl⟩ := Prod.mk.inj hlast
      obtain ⟨rebuilt, w, hbuilt, rfl⟩ := exists_rebuild_of_rebuildLive hrebuild
      obtain ⟨merged, hmerged, rfl⟩ := exists_merge_of_rebuild hbuilt
      exact hsources.listsFiles_ofMerged hmerged
    · rw [runOn_forceUpdate_of_ne_nil x hnil] at hrun
      exact hsources.listsFiles_of_applyOrRebuild
        (s := withQueue s ((paths.map s.live.absolute).foldl ChangeQueue.remove s.live.queue))
        h hsettled.sound hrun

/-- Every turn keeps the files listed, in the live index and on disk. -/
lemma Listed.turn (h : x.Listed base s) (hsources : x.SourcesKeep) (hsettled : x.Settled base s)
    (hturn : x.Turn base s s') : x.Listed base s' := by
  cases hturn with
  | live hlive =>
    have hlisted := hsources.listsFiles_of_liveTurn hsettled h.live hlive
    rcases hsettled.wrote_or_kept hlive with hwrote | hkept
    · exact .of_onDisk hlisted hwrote.onDisk hlisted
    · exact ⟨hlisted, fun index hdisk => h.disk index ((hkept.onDisk_iff index).mp hdisk)⟩
  | build hrun =>
    obtain ⟨-, canonical, merged, hmerged, hdisk, -⟩ := hsettled.exists_onDisk_of_build hrun
    exact .of_onDisk h.live hdisk (hsources.listsFiles_ofMerged hmerged)

/-- Every course of events keeps the files listed. -/
lemma Listed.run (h : x.Listed base s₀) (hsources : x.SourcesKeep) (hsettled : x.Settled base s₀)
    (hrun : Relation.ReflTransGen (x.Turn base) s₀ s) : x.Listed base s := by
  induction hrun with
  | refl => exact h
  | tail hrun hturn ih => exact ih.turn hsources (hsettled.run hrun).1 hturn

/-! ### The counts that are told, and those of the index that is loaded next -/

/-- A project is said to have so many symbols, files and edges: its description says so, or a build
that succeeds does, after which the workspace is `w`. -/
inductive CountsTold (x : Indexer) (s : LiveWorkspace) :
    (w : Workspace) → (symbols files callEdges : Nat) → Prop
  | stored {m : IndexMetadata} {t : FileTree}
      (h : (x.directory.get? s.live.index.projectId).runOn s.workspace.files = (.ok (some m), t)) :
      CountsTold x s s.workspace m.symbolCount m.fileCount m.callEdgeCount
  | built {root : String} {force : Bool} {symbols files callEdges ms : Nat} {origins : List Origin}
      {w' : Workspace} (h : (x.build root force : IndexAction BuildOutcome).runOn s.workspace =
        (.ok (.success s.live.index.projectId files symbols callEdges origins ms), w')) :
      CountsTold x s w' symbols files callEdges

/-- The state after counts were told is reached as well. -/
lemma CountsTold.run (h : x.CountsTold s w symbols files callEdges)
    (hrun : Relation.ReflTransGen (x.Turn base) s₀ s) :
    Relation.ReflTransGen (x.Turn base) s₀ { s with workspace := w } := by
  cases h with
  | stored hget => exact hrun
  | built hbuild => exact hrun.tail (.build hbuild)

/-- The counts that are told are those of an index that stands on disk. -/
lemma Settled.exists_onDisk_of_told (h : x.Settled base s)
    (htold : x.CountsTold s w symbols files callEdges) :
    ∃ index, x.OnDisk base { s with workspace := w } index ∧ files = index.stats.files ∧
      symbols = index.stats.symbols ∧ callEdges = index.stats.callEdges := by
  cases htold with
  | @stored m t hget =>
    rcases h.disk with hnone | ⟨index, hdisk⟩
    · obtain ⟨text, htext, -⟩ := (get?_cases hget).2 m rfl
      obtain ⟨content, hread⟩ := exists_read_of_readText htext
      rw [h.hosts.liesAt.fileAt?_of_read h.plain hread] at hnone
      cases hnone
    · rw [← hdisk.projectId_eq] at hget
      obtain ⟨hsymbols, hfiles, hedges⟩ := hdisk.counts_of_get? hget
      exact ⟨index, hdisk, hfiles, hsymbols, hedges⟩
  | built hrun =>
    obtain ⟨-, canonical, merged, -, hdisk, hcounts⟩ := h.exists_onDisk_of_build hrun
    exact ⟨_, hdisk, hcounts⟩

/-- The counts of a project in any course of builds and batches that succeed, with other things
happening in between, and whatever the supplementary tools report: what its description or a
successful build tells is what is loaded next.  That holds of symbols and edges.  It holds of files
exactly if every stored symbol stands in a stored file, which is so if the supplementary tools keep
to the files that they are given and the files of all symbols were listed to begin with. -/
theorem loads_counts_of_told (hsettled : x.Settled base s₀)
    (hrun : Relation.ReflTransGen (x.Turn base) s₀ s)
    (htold : x.CountsTold s w symbols files callEdges) (root : String) :
    ∃ snapshot graph,
      (x.directory.snapshots s.live.index.projectId).load.runOn w.files =
        (.ok (some (snapshot, graph)), w.files) ∧
      ∃ loaded, (x.loadProject s.live.index.projectId root).runOn w = (.ok (some loaded), w) ∧
        loaded.stats.symbols = symbols ∧ loaded.stats.callEdges = callEdges ∧
        (loaded.stats.files = files ↔ ∀ y ∈ snapshot.symbols, y.file ∈ snapshot.files) ∧
        (x.SourcesKeep → x.Listed base s₀ → loaded.stats.files = files) := by
  obtain ⟨hnow, -⟩ := hsettled.run hrun
  obtain ⟨index, hdisk, rfl, rfl, rfl⟩ := hnow.exists_onDisk_of_told htold
  have hload := hdisk.runOn_load
  have hloaded := hdisk.runOn_loadProject root
  have hid : index.projectId = s.live.index.projectId := hdisk.projectId_eq
  rw [hid] at hload hloaded
  obtain ⟨hsymbols, hedges, hfiles⟩ := hdisk.sound.stats_ofSnapshot s.live.index.projectId root
  refine ⟨_, _, hload, _, hloaded, hsymbols, hedges, hfiles, fun hsources hlisted => hfiles.mpr ?_⟩
  exact (hlisted.run hsources hsettled (htold.run hrun)).disk index hdisk

section

open ProjectChange

/-- The files of all symbols are listed where there are no symbols. -/
lemma listed_bareWorkspace : smallIndexer.Listed ["i"] bareWorkspace := by
  have hnone : bareIndex.ListsFiles := by
    intro s hs
    exact absurd ((SymbolTable.Holds.empty.mem_toList s).mp hs) (Set.notMem_empty s)
  exact .of_onDisk hnone (onDisk_bareWorkspace []) hnone

/-- The counts of a project that was built are in its description, and the index has them that is
loaded then. -/
theorem loads_counts_of_one : ∃ s, Relation.ReflTransGen (smallIndexer.Turn ["i"]) bareWorkspace s ∧
    (smallIndexer.directory.get? "p").runOn s.workspace.files =
      (.ok (some (builtMetadata [])), s.workspace.files) ∧
    ∃ loaded, (smallIndexer.loadProject "p" "/p").runOn s.workspace =
        (.ok (some loaded), s.workspace) ∧
      loaded.stats.symbols = 1 ∧ loaded.stats.callEdges = 0 ∧ loaded.stats.files = 1 := by
  obtain ⟨w', hbuild, -, -, hdocuments⟩ := exists_build_bareFiles []
  have hturn : smallIndexer.Turn ["i"] bareWorkspace { bareWorkspace with workspace := w' } :=
    .build hbuild
  have hrun := Relation.ReflTransGen.single hturn
  have hget : (smallIndexer.directory.get? "p").runOn w'.files =
      (.ok (some (builtMetadata [])), w'.files) := by
    have hread : w'.files.read (smallIndexer.directory.metadataPath "p") =
        .ok (Storage.fileOf (builtMetadata []).toJson) := by
      rw [FileTree.read, hdocuments.metadata.find?_eq]
    exact runOn_get?_of_description hread
      ((IndexMetadata.description?_fileOf _).trans parse?_builtMetadata)
  have hcounts : (builtMetadata []).symbolCount = 1 ∧ (builtMetadata []).fileCount = 1 ∧
      (builtMetadata []).callEdgeCount = 0 := by decide +kernel
  have hsources : smallIndexer.SourcesKeep := fun source hsource => by cases hsource
  obtain ⟨snapshot, graph, -, loaded, hload, hsymbols, hedges, -, hfiles⟩ :=
    loads_counts_of_told (settled_bareWorkspace []) hrun (.stored hget) "/p"
  exact ⟨_, hrun, hget, loaded, hload, hsymbols.trans hcounts.1, hedges.trans hcounts.2.2,
    (hfiles hsources listed_bareWorkspace).trans hcounts.2.1⟩

/-- A symbol of a file that is generated later. -/
def generated : Symbol where
  id := ⟨"generated"⟩
  name := "shared"
  file := "gen.c"
  line := 1
  declaration := ""
  origin := .ctags
  detail := .global "int" false false

/-- A tool that reports a symbol of a file that it was not given. -/
def generatedSource : SymbolSource where
  origin := .ctags
  extract _ _ := .ok [generated]

/-- The file of the symbol is not listed in the index that is built. -/
lemma not_listsFiles_builtIndex : ¬(builtIndex [generatedSource]).ListsFiles := by
  intro h
  have hfile : (builtIndex [generatedSource]).files.contains generated.file = false := by
    decide +kernel
  have hget : (builtIndex [generatedSource]).symbols.get? generated.id = some generated := by
    decide +kernel
  have hmem := ((SymbolTable.consistent_ofList _).mem_toList generated).mpr hget
  have hlisted := ExtTreeSet.mem_iff_contains.mp (mem_snapshot_files.mp (h generated hmem))
  rw [hfile] at hlisted
  cases hlisted

/-- The index that is loaded may have more files than a build has told. -/
theorem not_loads_counts :
    ¬∀ (x : Indexer) (base : Place) (s₀ s : LiveWorkspace) (w : Workspace)
      (symbols files callEdges : Nat) (root : String) (loaded : ProjectIndex),
      x.Settled base s₀ → Relation.ReflTransGen (x.Turn base) s₀ s →
      x.CountsTold s w symbols files callEdges →
      (x.loadProject s.live.index.projectId root).runOn w = (.ok (some loaded), w) →
      loaded.stats.symbols = symbols ∧ loaded.stats.files = files ∧
        loaded.stats.callEdges = callEdges := by
  intro hclaim
  obtain ⟨w', hbuild, -, -, hdocuments⟩ := exists_build_bareFiles [generatedSource]
  have hload := hdocuments.runOn_loadProject (x := supplied [generatedSource]) (w := w') "/p"
  obtain ⟨-, hfiles, -⟩ := hclaim _ _ _ _ _ _ _ _ _ _ (settled_bareWorkspace _) .refl
    (.built hbuild) hload
  have hsound : (builtIndex [generatedSource]).Sound := ProjectIndex.sound_ofMerged _ _ _
  exact not_listsFiles_builtIndex ((hsound.stats_ofSnapshot "p" "/p").2.2.mp hfiles)

end

end Indexer

end CodeAtlas
