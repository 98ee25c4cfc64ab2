import CodeAtlas.Proofs.Storage.Saving
import CodeAtlas.Proofs.Storage.Standing

/-!
# Writing an index over another

Where an index could be written once, another one of the project can be written in its place: the
directories are still there, and each document is put where the one before it stands.  So writing
can be stopped after any of its steps, and it can be done to the end
(`IndexDirectory.HasDocuments.runOn_persist`).
-/

namespace CodeAtlas

open CodeAtlas.Action CodeAtlas.FileTree

namespace FileTree

variable {t t' : FileTree} {place directory : Place} {touched : Set Place} {name : String}
  {content : FileContent}

/-- A document stands where there was room for it. -/
lemma HasRoom.place_eq (h : t.HasRoom directory name) (hwf : t.WellFormed)
    (hgrows : Grows touched t t')
    (hstands : t'.Stands (pathOf (directory ++ [name])) place content) :
    place = directory ++ [name] := by
  have hlocate : t.locate (pathOf (directory ++ [name])) false = .ok (directory ++ [name]) :=
    locate_pathOf h.writable (h.reaches hwf) (by simp [h.vacant])
  exact (Except.ok.inj ((hgrows.locate_eq hlocate).symm.trans hstands.locate_eq)).symm

/-- A document is written in place of the one that stands where there was room. -/
lemma HasRoom.exists_writeDocument {path : String} (h : t.HasRoom directory name)
    (hwf : t.WellFormed) (hgrows : Grows touched t t') (hpath : path = pathOf (directory ++ [name]))
    (hstands : t'.Stands path place content) (document : Json) :
    ∃ t'', (Storage.writeDocument path document).runOn t' = (.ok (), t'') ∧ Grows {place} t' t'' ∧
      Grows Set.univ t t'' := by
  rw [hpath] at hstands ⊢
  obtain rfl := h.place_eq hwf hgrows hstands
  have htakes : t'.Takes directory name :=
    ⟨(h.reaches hwf).grows hgrows, Or.inr ⟨content, hstands.entry?_eq⟩, h.writable⟩
  have hput := htakes.grows_put (Storage.fileOf document)
  have hall := (hgrows.mono (Set.subset_univ _)).trans (hput.mono (Set.subset_univ _))
  exact ⟨_, htakes.runOn_writeDocument document, hput, hall⟩

end FileTree

namespace IndexDirectory

variable {d : IndexDirectory} {index : ProjectIndex} {base : Place} {p : DocumentPlaces}
  {t₀ t t' : FileTree} {touched : Set Place} {symbols graph : FileContent} {m : IndexMetadata}
  {change : IndexMetadata → IndexMetadata} {now : Timestamp}

/-- Making the data directory again changes nothing. -/
lemma AwaitsIndex.runOn_makeDirectories (h : d.AwaitsIndex t₀ base index.projectId)
    (hgrows : Grows touched t₀ t) :
    (Storage.makeDirectories (d.dataDirectory index.projectId)).runOn t = (.ok (), t) := by
  rw [h.paths_eq.1]
  exact FileTree.runOn_makeDirectories (h.symbols.isWritable h.wellFormed)
    ((h.wellFormed.reaches h.symbols.stands).grows hgrows) (hgrows.directory _ h.symbols.stands)

/-- Where an index could be written, both snapshots of a later one can be. -/
lemma HasDocuments.exists_stopsAfter_three
    (hdocuments : d.HasDocuments index.projectId p t symbols graph m)
    (h : d.AwaitsIndex t₀ base index.projectId) (hgrows : Grows touched t₀ t) :
    ∃ t', Storage.StopsAfter 3 (d.writeSteps index change now) t t' := by
  obtain ⟨t₁, hsymbols, hgrows₁, hall₁⟩ := h.symbols.exists_writeDocument h.wellFormed hgrows
    h.paths_eq.2.1 hdocuments.symbols index.snapshot.toJson
  obtain ⟨t₂, hgraph, -⟩ := h.graph.exists_writeDocument h.wellFormed hall₁ h.paths_eq.2.2.1
    (hdocuments.graph.grows hgrows₁ hdocuments.distinct.symbols_ne_graph.symm) index.graph.toJson
  exact ⟨t₂, .done (h.runOn_makeDirectories hgrows) (.done hsymbols (.done hgraph (.here _ _)))⟩

/-- A description that stands can be replaced. -/
lemma AwaitsIndex.exists_save (h : d.AwaitsIndex t₀ base index.projectId)
    (hgrows : Grows touched t₀ t) {place : Place} {content : FileContent}
    (hstands : t.Stands (d.metadataPath index.projectId) place content)
    (hm : m.projectId = index.projectId) : ∃ t', (d.save m).runOn t = (.ok (), t') := by
  have hmake : (Storage.makeDirectories d.metadataDirectory).runOn t = (.ok (), t) := by
    rw [h.paths_eq.2.2.2.1]
    exact FileTree.runOn_makeDirectories (h.metadata.isWritable h.wellFormed)
      ((h.wellFormed.reaches h.metadata.stands).grows hgrows) (hgrows.directory _ h.metadata.stands)
  obtain ⟨t', hwrite, -⟩ := h.metadata.exists_writeDocument h.wellFormed hgrows
    h.paths_eq.2.2.2.2 hstands m.toJson
  unfold save
  rw [runOn_bind_of_ok hmake, hm]
  exact ⟨t', hwrite⟩

/-- Where an index could be written, a later one can be written over it, as long as its description
can be read, and then its documents stand. -/
lemma HasDocuments.runOn_persist {x : Indexer} {w : Workspace} {old : IndexMetadata}
    (hdocuments : x.directory.HasDocuments index.projectId p w.files symbols graph m)
    (h : x.directory.AwaitsIndex t₀ base index.projectId) (hgrows : Grows touched t₀ w.files)
    (hold : (Json.parse? m.toJson.pretty).bind IndexMetadata.ofJson? = some old)
    (hchange : ∀ m, (change m).projectId = m.projectId) :
    ∃ t, (x.persist index change).runOn w =
        (.ok (change (Indexer.describe index (some old) w.clock.now)), { w with files := t }) ∧
      Grows p.all w.files t ∧
      x.directory.HasDocuments index.projectId p t (Storage.fileOf index.snapshot.toJson)
        (Storage.fileOf index.graph.toJson)
        (change (Indexer.describe index (some old) w.clock.now)) := by
  have hprojectId : old.projectId = index.projectId := by
    rw [IndexMetadata.projectId_of_parse?_pretty hold, hdocuments.projectId_eq]
  have hdescribed := (hchange (Indexer.describe index (some old) w.clock.now)).trans hprojectId
  obtain ⟨t₁, hwrite₁, hgrows₁, hall₁⟩ := h.symbols.exists_writeDocument h.wellFormed hgrows
    h.paths_eq.2.1 hdocuments.symbols index.snapshot.toJson
  obtain ⟨t₂, hwrite₂, hgrows₂, hall₂⟩ := h.graph.exists_writeDocument h.wellFormed hall₁
    h.paths_eq.2.2.1
    (hdocuments.graph.grows hgrows₁ hdocuments.distinct.symbols_ne_graph.symm) index.graph.toJson
  have hmetadata₂ := (hdocuments.metadata.grows hgrows₁
    hdocuments.distinct.symbols_ne_metadata.symm).grows hgrows₂
    hdocuments.distinct.graph_ne_metadata.symm
  have hsnapshots : ((x.directory.snapshots index.projectId).save index.snapshot index.graph).runOn
      w.files = (.ok (), t₂) := by
    unfold SnapshotDirectory.save
    exact (runOn_bind_of_ok (h.runOn_makeDirectories hgrows)).trans
      ((runOn_bind_of_ok hwrite₁).trans hwrite₂)
  have hget : (x.directory.get? index.projectId).runOn t₂ = (.ok (some old), t₂) := by
    unfold IndexDirectory.get?
    rw [runOn_bind_of_ok (runOn_get t₂), if_pos hmetadata₂.exists?,
      runOn_bind_of_ok (Storage.runOn_readDocument hmetadata₂ hold)]
    rfl
  obtain ⟨t₃, hsave⟩ := h.exists_save hall₂ hmetadata₂ hdescribed
  obtain ⟨hsaved, hsymbols, hgraph⟩ := hdocuments.leadsTo.stands_of_save hsnapshots
  obtain ⟨hwritten, hmetadata⟩ :=
    (hdocuments.leadsTo.grows hsaved).stands_of_save_metadata hdescribed hsave
  refine ⟨t₃, Indexer.runOn_persist hsnapshots hget hsave,
    (hsaved.mono p.snapshots_subset_all).trans (hwritten.mono (by simp [DocumentPlaces.all])), ?_⟩
  exact ⟨hsymbols.grows hwritten hdocuments.distinct.symbols_ne_metadata,
    hgraph.grows hwritten hdocuments.distinct.graph_ne_metadata, hmetadata, hdescribed,
    hdocuments.distinct⟩

/-- So a later one can be written over it. -/
lemma HasDocuments.exists_persist {x : Indexer} {w : Workspace} {old : IndexMetadata}
    (hdocuments : x.directory.HasDocuments index.projectId p w.files symbols graph m)
    (h : x.directory.AwaitsIndex t₀ base index.projectId) (hgrows : Grows touched t₀ w.files)
    (hold : (Json.parse? m.toJson.pretty).bind IndexMetadata.ofJson? = some old)
    (hchange : ∀ m, (change m).projectId = m.projectId) :
    ∃ m t, (x.persist index change).runOn w = (.ok m, { w with files := t }) := by
  obtain ⟨t, hrun, -⟩ := hdocuments.runOn_persist h hgrows hold hchange
  exact ⟨_, t, hrun⟩

end IndexDirectory

end CodeAtlas
