import CodeAtlas.Proofs.Index.Follow
import CodeAtlas.Proofs.Search.Store
import CodeAtlas.Proofs.Storage.Interruption
import Mathlib.Logic.Relation

/-!
# The live index, the disk and the store of documents

A live index exists three times: in memory, as three documents on disk, and as the documents of its
symbols in a store.  They are *in step* if the snapshot and the graph on disk are those of the
index, the description gives its counts, and the store keeps the documents of its symbols and no
others (`Indexer.InStep`).

A batch changes the three one after the other, and it may fail between any two of the changes.  What
it keeps even then is that the documents on disk and in the store are those of the project
(`Indexer.Owns`), and that is enough for the rebuild that takes its place to bring all three in step
again.  So they are in step after every call that succeeds (`Indexer.inStep_of_run`).
-/

namespace CodeAtlas

open CodeAtlas.Action CodeAtlas.FileTree

/-- A file holds a value: its text is read as the value. -/
def FileContent.Holds (content : FileContent) (read : Json → Option α) (a : α) : Prop :=
  ∃ text : String, content.bytes = text.toUTF8 ∧ (Json.parse? text).bind read = some a

/-- The file of a snapshot holds it. -/
lemma Snapshot.holds_fileOf (s : Snapshot) :
    (Storage.fileOf s.toJson).Holds Snapshot.ofJson? s := ⟨_, rfl, s.parse?_pretty⟩

/-- The file of a graph holds it. -/
lemma CallGraph.holds_fileOf (g : CallGraph) :
    (Storage.fileOf g.toJson).Holds CallGraph.ofJson? g := ⟨_, rfl, g.parse?_pretty⟩

namespace Indexer

variable {x : Indexer} {p : DocumentPlaces} {index : ProjectIndex} {projectId root : String}
  {w w' : Workspace} {s s' : LiveWorkspace} {change : IndexMetadata → IndexMetadata}

/-- The documents of a project stand on disk, and the store keeps documents of this project
alone. -/
structure Owns (x : Indexer) (p : DocumentPlaces) (projectId : String) (w : Workspace) : Prop where
  documents : ∃ symbols graph m, x.directory.HasDocuments projectId p w.files symbols graph m
  store : w.documents.store.BelongsTo projectId

/-- The symbols of an index can be relied on, and the store keeps their documents and no others. -/
structure Mirrors (index : ProjectIndex) (w : Workspace) : Prop where
  consistent : index.symbols.Consistent
  store : w.documents.store.Reflects index.projectId index.symbols

/-- A live index, its documents on disk and the store of documents say the same. -/
structure InStep (x : Indexer) (p : DocumentPlaces) (index : ProjectIndex) (w : Workspace) : Prop
    extends Mirrors index w where
  documents : ∃ symbols graph m,
    x.directory.HasDocuments index.projectId p w.files symbols graph m ∧
    symbols.Holds Snapshot.ofJson? index.snapshot ∧ graph.Holds CallGraph.ofJson? index.graph ∧
    IndexDirectory.Counts m index

/-- What is in step is owned by the project. -/
lemma InStep.owns (h : x.InStep p index w) : x.Owns p index.projectId w := by
  obtain ⟨symbols, graph, m, hdocuments, -⟩ := h.documents
  exact ⟨⟨symbols, graph, m, hdocuments⟩, h.store.belongsTo⟩

/-! ### Writing an index -/

/-- A change of a description that touches neither the project nor the counts. -/
def KeepsCounts (change : IndexMetadata → IndexMetadata) : Prop :=
  ∀ m, (change m).projectId = m.projectId ∧ (change m).symbolCount = m.symbolCount ∧
    (change m).fileCount = m.fileCount ∧ (change m).callEdgeCount = m.callEdgeCount

/-- Writing an index leaves documents of the project on disk, whatever comes of it. -/
lemma Owns.persist {outcome : Except IndexError IndexMetadata} (h : x.Owns p index.projectId w)
    (hchange : KeepsCounts change) (hrun : (x.persist index change).runOn w = (outcome, w')) :
    x.Owns p index.projectId w' := by
  obtain ⟨symbols, graph, m, hdocuments⟩ := h.documents
  obtain ⟨n, t', rfl, hstops, -⟩ := stopsAfter_persist hrun
  refine ⟨?_, h.store⟩
  rcases hdocuments.stopsAfter (fun m => (hchange m).1) hstops with
    ⟨-, h'⟩ | ⟨-, h'⟩ | ⟨-, h'⟩ | ⟨-, old, h'⟩
  · exact ⟨_, _, _, h'⟩
  · exact ⟨_, _, _, h'⟩
  · exact ⟨_, _, _, h'⟩
  · exact ⟨_, _, _, h'⟩

/-- An index that is mirrored by the store is in step once it was written. -/
lemma Mirrors.persist {m : IndexMetadata} (h : Mirrors index w) (howns : x.Owns p index.projectId w)
    (hchange : KeepsCounts change) (hrun : (x.persist index change).runOn w = (.ok m, w')) :
    x.InStep p index w' := by
  obtain ⟨symbols, graph, old, hdocuments⟩ := howns.documents
  obtain ⟨n, t', rfl, hstops, hall⟩ := stopsAfter_persist hrun
  obtain rfl : n = 4 := hall ⟨m, rfl⟩
  refine ⟨⟨h.consistent, h.store⟩, ?_⟩
  rcases hdocuments.stopsAfter (fun m => (hchange m).1) hstops with
    ⟨hn, -⟩ | ⟨hn, -⟩ | ⟨hn, -⟩ | ⟨-, old, h'⟩
  · omega
  · omega
  · omega
  · have hcounts := (hchange (describe index old w.clock.now)).2
    exact ⟨_, _, _, h', index.snapshot.holds_fileOf, index.graph.holds_fileOf, hcounts⟩

/-- A full build brings a project in step. -/
lemma Owns.rebuild (h : x.Owns p projectId w)
    (hrun : (x.rebuild projectId root).runOn w = (.ok index, w')) :
    index.projectId = projectId ∧ x.InStep p index w' := by
  obtain ⟨origins, elapsed, m, between, hassemble, hpersist⟩ := exists_persist_of_rebuild hrun
  obtain ⟨⟨merged, -, rfl⟩, rfl⟩ := exists_merge_of_assemble hassemble
  have hconsistent : (ProjectIndex.ofMerged projectId root merged).symbols.Consistent :=
    SymbolTable.consistent_ofList _
  have hmirrors : Mirrors (ProjectIndex.ofMerged projectId root merged)
      (withStore w ((w.documents.store.clear projectId).upsert
        (ProjectIndex.ofMerged projectId root merged).documents)) :=
    ⟨hconsistent, h.store.reflects_refill hconsistent⟩
  have howns : x.Owns p projectId (withStore w ((w.documents.store.clear projectId).upsert
      (ProjectIndex.ofMerged projectId root merged).documents)) :=
    ⟨h.documents, hmirrors.store.belongsTo⟩
  have hkeeps : KeepsCounts fun m : IndexMetadata =>
      { m with origins := origins.map Origin.name, buildMs := elapsed } :=
    fun m => ⟨rfl, rfl, rfl, rfl⟩
  exact ⟨rfl, hmirrors.persist howns hkeeps hpersist⟩

/-! ### Updates -/

/-- An edit leaves the index to its project. -/
lemma projectId_onIndex (index : ProjectIndex) (e : FileEdit) :
    (FileEdit.onIndex index e).projectId = index.projectId := by
  cases e <;> rfl

/-- An update leaves documents of the project, whatever comes of it. -/
lemma Owns.applyUpdate {u : FileUpdate} {outcome : Except IndexError Unit}
    (h : x.Owns p s.live.index.projectId s.workspace)
    (hrun : (Indexer.applyUpdate u).runOn s = (outcome, s')) :
    x.Owns p s'.live.index.projectId s'.workspace := by
  rcases applyUpdate_cases hrun with ⟨-, -, -, rfl⟩ | ⟨-, hlive, hcases⟩
  · exact h
  · have hid : s'.live.index.projectId = s.live.index.projectId := by
      rw [hlive]
      exact projectId_onIndex _ _
    have hdeleted := h.store.deleteByFile u.file
    rw [hid]
    rcases hcases with ⟨-, -, hw⟩ | ⟨e, he, ⟨-, -, -, hw⟩ | ⟨-, -, hw⟩⟩
    · rw [hw]
      exact ⟨h.documents, hdeleted⟩
    · rw [hw]
      exact ⟨h.documents, hdeleted⟩
    · rw [hw]
      exact ⟨h.documents, hdeleted.upsert _⟩

/-- An update that is made is made in the index and in the store. -/
lemma Mirrors.applyUpdate {u : FileUpdate} (h : Mirrors s.live.index s.workspace)
    (hu : ∀ e, u.extraction = some e → e.SpeaksOf u.file)
    (hrun : (Indexer.applyUpdate u).runOn s = (.ok (), s')) :
    Mirrors s'.live.index s'.workspace := by
  have hconsistent := h.consistent.removeFile u.file
  have hremoved := h.store.deleteByFile h.consistent u.file
  rcases applyUpdate_cases hrun with ⟨e, -, he, -⟩ | ⟨-, hlive, hcases⟩
  · cases he
  rcases hcases with ⟨hnone, -, hw⟩ | ⟨e, he, ⟨cause, -, hcause, -⟩ | ⟨-, -, hw⟩⟩
  · rw [hlive, hw, FileUpdate.edit, hnone]
    exact ⟨hconsistent, hremoved⟩
  · cases hcause
  · rw [hlive, hw, FileUpdate.edit, he]
    exact ⟨hconsistent.insertAll e.symbols,
      hremoved.upsert_insertAll hconsistent (hu e he).file_eq⟩

/-- Updates leave documents of the project, whatever comes of them. -/
lemma Owns.forM_applyUpdate {updates : List FileUpdate} {outcome : Except IndexError Unit}
    (h : x.Owns p s.live.index.projectId s.workspace)
    (hrun : (updates.forM Indexer.applyUpdate).runOn s = (outcome, s')) :
    x.Owns p s'.live.index.projectId s'.workspace := by
  induction updates generalizing s with
  | nil =>
    obtain ⟨-, rfl⟩ := Prod.mk.inj hrun
    exact h
  | cons u updates ih =>
    have hsteps : (Indexer.applyUpdate u >>= fun _ => updates.forM Indexer.applyUpdate).runOn s =
        (outcome, s') := hrun
    rw [runOn_bind] at hsteps
    rcases hfirst : (Indexer.applyUpdate u).runOn s with ⟨first, between⟩
    have hbetween := h.applyUpdate hfirst
    rw [hfirst] at hsteps
    cases first with
    | error e =>
      obtain ⟨-, rfl⟩ := Prod.mk.inj hsteps
      exact hbetween
    | ok u => exact ih hbetween hsteps

/-- Updates that are made are made in the index and in the store. -/
lemma Mirrors.forM_applyUpdate {updates : List FileUpdate} (h : Mirrors s.live.index s.workspace)
    (hupdates : ∀ u ∈ updates, ∀ e, u.extraction = some e → e.SpeaksOf u.file)
    (hrun : (updates.forM Indexer.applyUpdate).runOn s = (.ok (), s')) :
    Mirrors s'.live.index s'.workspace := by
  induction updates generalizing s with
  | nil =>
    obtain ⟨-, rfl⟩ := Prod.mk.inj hrun
    exact h
  | cons u updates ih =>
    obtain ⟨_, between, hfirst, hrest⟩ := runOn_bind_eq_ok_iff.mp hrun
    have hbetween := h.applyUpdate (hupdates u List.mem_cons_self) hfirst
    exact ih hbetween (fun u hu => hupdates u (List.mem_cons_of_mem _ hu)) hrest

/-! ### Batches -/

variable {batch : List Change} {n : Nat}

/-- A batch leaves documents of the project, whatever comes of it. -/
lemma Owns.applyBatch {outcome : Except IndexError Unit}
    (h : x.Owns p s.live.index.projectId s.workspace)
    (hrun : (x.applyBatch batch).runOn s = (outcome, s')) :
    x.Owns p s'.live.index.projectId s'.workspace := by
  rcases applyBatch_cases hrun with ⟨-, -, -, rfl⟩ | ⟨updates, -, ⟨e, hedits, -⟩ |
    ⟨between, written, w', hedits, hpersist, rfl, -⟩⟩
  · exact h
  · exact h.forM_applyUpdate hedits
  · have hbetween := h.forM_applyUpdate hedits
    exact hbetween.persist (fun m => ⟨rfl, rfl, rfl, rfl⟩) hpersist

/-- A batch that is applied keeps all in step. -/
lemma InStep.applyBatch (h : x.InStep p s.live.index s.workspace)
    (hrun : (x.applyBatch batch).runOn s = (.ok (), s')) :
    x.InStep p s'.live.index s'.workspace := by
  rcases applyBatch_cases hrun with ⟨e, -, he, -⟩ | ⟨updates, hupdates, ⟨e, -, he⟩ |
    ⟨between, written, w', hedits, hpersist, rfl, hwritten⟩⟩
  · cases he
  · cases he
  · have hspeaks : ∀ u ∈ updates, ∀ e, u.extraction = some e → e.SpeaksOf u.file := by
      intro u hu e he
      obtain ⟨c, -, hc⟩ := (exists_of_mapM_ok hupdates).1 u hu
      exact speaksOf_of_updateOf hc he
    have howns := h.owns.forM_applyUpdate hedits
    have hmirrors := h.toMirrors.forM_applyUpdate hspeaks hedits
    cases written with
    | error e => cases hwritten
    | ok m => exact hmirrors.persist howns (fun m => ⟨rfl, rfl, rfl, rfl⟩) hpersist

/-- A batch that is tried leaves all in step, also where a rebuild has to take its place. -/
lemma InStep.applyOrRebuild (h : x.InStep p s.live.index s.workspace)
    (hrun : (x.applyOrRebuild batch).runOn s = (.ok n, s')) :
    x.InStep p s'.live.index s'.workspace := by
  rcases runOn_applyOrRebuild_cases hrun with ⟨between, hbatch, -, rfl⟩ |
    ⟨e, between, w, hbatch, ⟨rebuilt, hrebuild, -, rfl⟩ | ⟨cause, -, hcause, -⟩⟩
  · have hbetween := h.applyBatch hbatch
    exact hbetween
  · have howns := h.owns.applyBatch hbatch
    exact (howns.rebuild hrebuild).2
  · cases hcause

/-! ### Runs -/

/-- What happens to a live index: files are edited and time passes, a change is queued, or a call
succeeds.  Editing leaves the documents of the index alone. -/
inductive LiveStep (x : Indexer) (p : DocumentPlaces) : LiveWorkspace → LiveWorkspace → Prop
  | edit {s : LiveWorkspace} (files : FileTree) (clock : Clock)
      (hdocuments : ∀ symbols graph m,
        x.directory.HasDocuments s.live.index.projectId p s.workspace.files symbols graph m →
        x.directory.HasDocuments s.live.index.projectId p files symbols graph m) :
      LiveStep x p s { s with workspace := { s.workspace with files, clock } }
  | queue {s : LiveWorkspace} (c : Change) (now : Nat) :
      LiveStep x p s { s with live := (s.live.queueChange x.settings.indexing c now).2 }
  | process {s s' : LiveWorkspace} {n : Nat} (h : x.processPending.runOn s = (.ok n, s')) :
      LiveStep x p s s'
  | force {s s' : LiveWorkspace} {paths : List String} {n : Nat}
      (h : (x.forceUpdate paths).runOn s = (.ok n, s')) : LiveStep x p s s'

/-- The queue says nothing about what is in step. -/
lemma InStep.withQueue (h : x.InStep p s.live.index s.workspace) (queue : ChangeQueue) :
    x.InStep p (Indexer.withQueue s queue).live.index (Indexer.withQueue s queue).workspace := h

/-- Processing what is pending leaves all in step. -/
lemma InStep.processPending (h : x.InStep p s.live.index s.workspace)
    (hrun : x.processPending.runOn s = (.ok n, s')) : x.InStep p s'.live.index s'.workspace := by
  rcases htake : s.live.queue.takeReady s.live.batchSize s.workspace.clock.milliseconds with
    ⟨batch, queue⟩
  rw [runOn_processPending_of_takeReady x htake] at hrun
  split_ifs at hrun
  · obtain ⟨-, rfl⟩ := Prod.mk.inj hrun
    exact h
  · exact (h.withQueue queue).applyOrRebuild hrun

/-- A forced update leaves all in step. -/
lemma InStep.forceUpdate {paths : List String} (h : x.InStep p s.live.index s.workspace)
    (hrun : (x.forceUpdate paths).runOn s = (.ok n, s')) :
    x.InStep p s'.live.index s'.workspace := by
  by_cases hnil : paths = []
  · rw [hnil, Indexer.forceUpdate, if_pos List.isEmpty_nil] at hrun
    obtain ⟨_, between, hrebuild, hlast⟩ := runOn_bind_eq_ok_iff.mp hrun
    obtain ⟨-, rfl⟩ := Prod.mk.inj hlast
    obtain ⟨rebuilt, w, hbuilt, rfl⟩ := exists_rebuild_of_rebuildLive hrebuild
    exact (h.owns.rebuild hbuilt).2
  · rw [runOn_forceUpdate_of_ne_nil x hnil] at hrun
    exact (h.withQueue _).applyOrRebuild hrun

/-- Every step leaves all in step. -/
lemma InStep.step (h : x.InStep p s.live.index s.workspace) (hstep : x.LiveStep p s s') :
    x.InStep p s'.live.index s'.workspace := by
  cases hstep with
  | edit files clock hdocuments =>
    obtain ⟨symbols, graph, m, hold, hrest⟩ := h.documents
    exact ⟨⟨h.consistent, h.store⟩, symbols, graph, m, hdocuments symbols graph m hold, hrest⟩
  | queue c now =>
    have hindex : (s.live.queueChange x.settings.indexing c now).2.index = s.live.index := by
      unfold LiveIndex.queueChange
      simp only
      split_ifs <;> rfl
    simp only [hindex]
    exact h
  | process hrun => exact h.processPending hrun
  | force hrun => exact h.forceUpdate hrun

/-- A live index, its documents on disk and the store of documents stay in step as long as its calls
succeed, whatever is edited and queued in between. -/
theorem inStep_of_run (h : x.InStep p s.live.index s.workspace)
    (hrun : Relation.ReflTransGen (x.LiveStep p) s s') : x.InStep p s'.live.index s'.workspace := by
  induction hrun with
  | refl => exact h
  | tail hrun hstep ih => exact ih.step hstep

/-! ### A file that is taken up -/

section

/-- The index of a project of which nothing is known yet. -/
def bareIndex : ProjectIndex := .empty "p" "/p"

/-- Its description. -/
def bareMetadata : IndexMetadata := .new "p" "/p" ⟨0, 0⟩

/-- The description can be read back. -/
lemma parse?_bareMetadata : (Json.parse? bareMetadata.toJson.pretty).bind IndexMetadata.ofJson? =
    some bareMetadata := by
  rw [bareMetadata.parse?_pretty]
  decide +kernel

/-- The project with the documents of this index. -/
def bareFiles : FileTree :=
  ProjectChange.oneFile.put ["i", "projects", "p", "symbols.json"]
      (.file (Storage.fileOf bareIndex.snapshot.toJson))
    |>.put ["i", "projects", "p", "call_graph.json"]
      (.file (Storage.fileOf bareIndex.graph.toJson))
    |>.put ["i", "meta", "p.json"] (.file (Storage.fileOf bareMetadata.toJson))

/-- The live index of the project, with an empty store of documents. -/
def bareWorkspace : LiveWorkspace where
  live := .ofIndex ProjectChange.smallIndexer.settings.watch bareIndex
  workspace := { files := bareFiles, documents := { store := .memory ∅ } }

/-- The report of the file that was not taken up. -/
def untakenFile : Change := ⟨"/p/a.c", .created⟩

/-- The tree of the project is well formed. -/
lemma wellFormed_bareFiles : bareFiles.WellFormed := by
  have hbefore := ProjectChange.wellFormed_addition (ProjectChange.mem_addition .empty).1
  have h₁ : WellFormed (FileTree.put _ (["i", "projects", "p"] ++ ["symbols.json"])
      (.file (Storage.fileOf bareIndex.snapshot.toJson))) := hbefore.put _ rfl rfl (by decide)
  have h₂ : WellFormed (FileTree.put _ (["i", "projects", "p"] ++ ["call_graph.json"])
      (.file (Storage.fileOf bareIndex.graph.toJson))) := h₁.put _ rfl rfl (by decide)
  have h₃ : WellFormed (FileTree.put _ (["i", "meta"] ++ ["p.json"])
      (.file (Storage.fileOf bareMetadata.toJson))) := h₂.put _ rfl rfl (by decide)
  exact h₃

/-- A file of the tree stands at its path. -/
lemma stands_bareFiles {place : Place} {content : FileContent}
    (h : bareFiles.entry? place = some (.file content)) :
    bareFiles.Stands (pathOf place) place content := by
  refine ⟨?_, h⟩
  exact locate_pathOf (wellFormed_bareFiles.writable _ _ h) (wellFormed_bareFiles.reaches h)
    (by simp [h])

/-- There was room for the documents. -/
lemma awaitsIndex_oneFile :
    ProjectChange.smallIndexer.directory.AwaitsIndex ProjectChange.oneFile ["i"] "p" :=
  ProjectChange.awaitsIndex_addition (ProjectChange.mem_addition .empty).1

/-- The documents of the index stand. -/
lemma hasDocuments_bareFiles :
    ProjectChange.smallIndexer.directory.HasDocuments "p" (IndexDirectory.placesIn ["i"] "p")
      bareFiles (Storage.fileOf bareIndex.snapshot.toJson) (Storage.fileOf bareIndex.graph.toJson)
      bareMetadata where
  symbols := by
    rw [awaitsIndex_oneFile.paths_eq.2.1]
    exact stands_bareFiles rfl
  graph := by
    rw [awaitsIndex_oneFile.paths_eq.2.2.1]
    exact stands_bareFiles rfl
  metadata := by
    rw [awaitsIndex_oneFile.paths_eq.2.2.2.2]
    exact stands_bareFiles rfl
  projectId_eq := rfl
  distinct := IndexDirectory.distinct_placesIn _ _

/-- All is in step. -/
lemma inStep_bareWorkspace :
    ProjectChange.smallIndexer.InStep (IndexDirectory.placesIn ["i"] "p") bareWorkspace.live.index
      bareWorkspace.workspace := by
  refine ⟨⟨SymbolTable.consistent_empty, ∅, rfl, fun id => rfl⟩, ?_⟩
  exact ⟨_, _, bareMetadata, hasDocuments_bareFiles, bareIndex.snapshot.holds_fileOf,
    bareIndex.graph.holds_fileOf, rfl, rfl, rfl⟩

/-- The documents were added to the project. -/
lemma grows_bareFiles : Grows Set.univ ProjectChange.oneFile bareFiles := by
  have hput : ∀ {t : FileTree} {place : Place} (content : FileContent), t.entry? place = none →
      Grows Set.univ t (t.put place (.file content)) := by
    intro t place content hnone
    have hfile : Grows {place} t (t.put place (.file content)) :=
      Grows.put_file (by simp [hnone]) (by simp [hnone])
    exact hfile.mono (Set.subset_univ _)
  exact ((hput _ rfl).trans (hput _ rfl)).trans (hput _ rfl)

/-- The file can be extracted. -/
lemma exists_updateOf_untakenFile :
    ∃ u, ProjectChange.smallIndexer.updateOf bareFiles "/p" untakenFile = .ok u := by
  have hentry : bareFiles.entry? ["p", "a.c"] = some (.file ProjectChange.oneDefinition) := rfl
  have hstands := stands_bareFiles hentry
  have hpath : untakenFile.path = pathOf ["p", "a.c"] := by decide
  have hread : bareFiles.read (pathOf ["p", "a.c"]) = .ok ProjectChange.oneDefinition := by
    rw [FileTree.read, hstands.find?_eq]
  unfold Indexer.updateOf
  rw [hpath]
  simp only [hstands.isFile, extractFile, hread]
  exact ⟨_, rfl⟩

/-- The live index when the file was reported. -/
def reportedWorkspace : LiveWorkspace :=
  { bareWorkspace with live := bareWorkspace.live.record untakenFile 0 }

/-- The report can be applied. -/
lemma exists_applyBatch_untakenFile (queue : ChangeQueue) :
    ∃ s, (ProjectChange.smallIndexer.applyBatch [untakenFile]).runOn
      (withQueue reportedWorkspace queue) = (.ok (), s) := by
  obtain ⟨u, hu⟩ := exists_updateOf_untakenFile
  have hfiles : (withQueue reportedWorkspace queue).workspace.files = bareFiles := rfl
  have hroot : (withQueue reportedWorkspace queue).live.index.root = "/p" := rfl
  have hupdates : [untakenFile].mapM (ProjectChange.smallIndexer.updateOf
      (withQueue reportedWorkspace queue).workspace.files
      (withQueue reportedWorkspace queue).live.index.root) = .ok [u] := by
    rw [hfiles, hroot, List.mapM_cons, hu]
    rfl
  apply exists_applyBatch_of_persist hupdates fun _ => rfl
  intro index w hid hfiles
  have hid : index.projectId = "p" := hid
  have hfiles : w.files = bareFiles := hfiles
  have hdocuments := hasDocuments_bareFiles
  have hroom := awaitsIndex_oneFile
  rw [← hid, ← hfiles] at hdocuments
  rw [← hid] at hroom
  exact hdocuments.exists_persist hroom (hfiles ▸ grows_bareFiles) parse?_bareMetadata fun _ => rfl

/-- The report is processed without a rebuild, and all is in step before and after. -/
theorem inStep_of_takingUp : ∃ s,
    ProjectChange.smallIndexer.InStep (IndexDirectory.placesIn ["i"] "p") bareWorkspace.live.index
      bareWorkspace.workspace ∧
    Relation.ReflTransGen
      (ProjectChange.smallIndexer.LiveStep (IndexDirectory.placesIn ["i"] "p")) bareWorkspace s ∧
    s.live.queue.entries = [] ∧ s.live.fullRebuilds = 0 ∧
    ProjectChange.smallIndexer.InStep (IndexDirectory.placesIn ["i"] "p") s.live.index
      s.workspace := by
  obtain ⟨between, hbatch⟩ := exists_applyBatch_untakenFile
    (withoutBatch reportedWorkspace).live.queue
  have hentries : reportedWorkspace.live.queue.entries = [⟨untakenFile, 0, 0⟩] :=
    ChangeQueue.entries_record_ofWindow 0 untakenFile.path untakenFile.kind 0
  have hquiet : IsQuiet reportedWorkspace := fun e _ => decide_eq_true (Nat.zero_le _)
  have hprocess : ProjectChange.smallIndexer.processPending.runOn reportedWorkspace =
      (.ok 1, afterBatch between) := by
    rw [runOn_processPending _ hquiet (by decide) (by simp [hentries]), hentries]
    exact runOn_applyOrRebuild_of_ok hbatch
  have hreported : (bareWorkspace.live.queueChange
      ProjectChange.smallIndexer.settings.indexing untakenFile 0).2 =
        bareWorkspace.live.record untakenFile 0 := by
    have habsolute : bareWorkspace.live.absolute untakenFile.path = untakenFile.path := rfl
    have haccepts : bareWorkspace.live.accepts ProjectChange.smallIndexer.settings.indexing
        untakenFile.path = true := by decide
    rw [LiveIndex.queueChange]
    simp only [habsolute, haccepts, if_true]
  have hqueue : ProjectChange.smallIndexer.LiveStep (IndexDirectory.placesIn ["i"] "p")
      bareWorkspace reportedWorkspace := by
    rw [reportedWorkspace, ← hreported]
    exact .queue untakenFile 0
  have hrun := (Relation.ReflTransGen.single hqueue).tail (.process hprocess)
  have hkeeps := ProjectChange.smallIndexer.keeps_applyBatch [untakenFile]
    (withQueue reportedWorkspace (withoutBatch reportedWorkspace).live.queue)
  rw [hbatch] at hkeeps
  refine ⟨afterBatch between, inStep_bareWorkspace, hrun, ?_, hkeeps.fullRebuilds,
    inStep_of_run inStep_bareWorkspace hrun⟩
  rw [entries_of_processPending hquiet (by decide) hprocess, hentries]
  rfl

end

end Indexer

end CodeAtlas
