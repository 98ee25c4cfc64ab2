import CodeAtlas.Proofs.Storage.Writing

/-!
# The documents of an index that stands

Once an index was written its three documents stand at three places.  Writing another index of the
project replaces them one after the other, so after some of the steps the first documents are those
of the new index and the others are still the old ones (`IndexDirectory.HasDocuments.stopsAfter`).
That holds also where the index directory is reached through links: what is written is a regular
file in place of a regular file, and no path leads elsewhere because of it.

An index whose documents stand is loaded as they say, whether or not they were written together.
-/

namespace CodeAtlas

open CodeAtlas.Action CodeAtlas.FileTree

/-- The places of the documents of an index. -/
structure DocumentPlaces where
  symbols : Place
  graph : Place
  metadata : Place
  deriving DecidableEq

namespace DocumentPlaces

/-- The places are three. -/
structure Distinct (p : DocumentPlaces) : Prop where
  symbols_ne_graph : p.symbols ≠ p.graph
  symbols_ne_metadata : p.symbols ≠ p.metadata
  graph_ne_metadata : p.graph ≠ p.metadata

/-- The places of both snapshots. -/
def snapshots (p : DocumentPlaces) : Set Place := {p.symbols, p.graph}

/-- The places of all documents. -/
def all (p : DocumentPlaces) : Set Place := {p.symbols, p.graph, p.metadata}

/-- The snapshots are among the documents. -/
lemma snapshots_subset_all (p : DocumentPlaces) : p.snapshots ⊆ p.all := by
  rintro q (rfl | rfl)
  · exact Or.inl rfl
  · exact Or.inr (Or.inl rfl)

end DocumentPlaces

namespace IndexDirectory

variable {d : IndexDirectory} {id : String} {p : DocumentPlaces} {t t' : FileTree}
  {touched : Set Place} {symbols graph : FileContent} {m : IndexMetadata}

/-! ### Where documents are written to -/

/-- However the tree grows, the paths of the documents of a project lead to the given places or
nowhere, and links are not in their way. -/
structure LeadsTo (d : IndexDirectory) (id : String) (p : DocumentPlaces) (t : FileTree) :
    Prop where
  symbols : ∀ {touched : Set Place} {t₁ : FileTree} {q : Place}, Grows touched t t₁ →
    t₁.locate (d.snapshots id).symbolsPath false = .ok q → q = p.symbols
  graph : ∀ {touched : Set Place} {t₁ : FileTree} {q : Place}, Grows touched t t₁ →
    t₁.locate (d.snapshots id).graphPath false = .ok q → q = p.graph
  metadata : ∀ {touched : Set Place} {t₁ : FileTree} {q : Place}, Grows touched t t₁ →
    t₁.locate (d.metadataPath id) false = .ok q → q = p.metadata
  ne_link : ∀ q ∈ p.all, ∀ target, t.entry? q ≠ some (.link target)

/-- The paths lead to the same places in the grown tree. -/
lemma LeadsTo.grows (h : d.LeadsTo id p t) (hgrows : Grows touched t t') : d.LeadsTo id p t' where
  symbols h₁ hq := h.symbols ((hgrows.mono Set.subset_union_left).trans
    (h₁.mono Set.subset_union_right)) hq
  graph h₁ hq := h.graph ((hgrows.mono Set.subset_union_left).trans
    (h₁.mono Set.subset_union_right)) hq
  metadata h₁ hq := h.metadata ((hgrows.mono Set.subset_union_left).trans
    (h₁.mono Set.subset_union_right)) hq
  ne_link q hq target htarget := h.ne_link q hq target ((hgrows.link_iff q target).mp htarget)

/-- A document that is written to the place to which its path leads stands there. -/
lemma LeadsTo.stands_of_writeDocument (h : d.LeadsTo id p t) {path : String} {place : Place}
    {document : Json} (hplace : place ∈ p.all)
    (hpath : ∀ q, t.locate path false = .ok q → q = place)
    (hrun : (Storage.writeDocument path document).runOn t = (.ok (), t')) :
    Grows {place} t t' ∧ t'.Stands path place (Storage.fileOf document) := by
  obtain ⟨q, hq, hgrows, hstands⟩ := Storage.stands_of_writeDocument hrun fun q target hq =>
    h.ne_link q (hpath q hq ▸ hplace) target
  obtain rfl := hpath q hq
  exact ⟨hgrows, hstands⟩

/-- Snapshots that are saved stand at their places. -/
lemma LeadsTo.stands_of_save {s : Snapshot} {g : CallGraph} (h : d.LeadsTo id p t)
    (hrun : ((d.snapshots id).save s g).runOn t = (.ok (), t')) :
    Grows p.snapshots t t' ∧
      t'.Stands (d.snapshots id).symbolsPath p.symbols (Storage.fileOf s.toJson) ∧
      t'.Stands (d.snapshots id).graphPath p.graph (Storage.fileOf g.toJson) := by
  obtain ⟨place, place', -, hgrows, hsymbols, hgraph⟩ := SnapshotDirectory.stands_of_save
    (fun {touched t₁ q} hgrows hq => by
      rcases hq with hq | hq
      · exact (h.grows hgrows).ne_link q (h.symbols hgrows hq ▸ Or.inl rfl)
      · exact (h.grows hgrows).ne_link q (h.graph hgrows hq ▸ Or.inr (Or.inl rfl))) hrun
  obtain rfl := h.symbols hgrows hsymbols.locate_eq
  obtain rfl := h.graph hgrows hgraph.locate_eq
  exact ⟨hgrows, hsymbols, hgraph⟩

/-- A description that is saved stands at its place. -/
lemma LeadsTo.stands_of_save_metadata (h : d.LeadsTo id p t)
    (hm : m.projectId = id) (hrun : (d.save m).runOn t = (.ok (), t')) :
    Grows {p.metadata} t t' ∧
      t'.Stands (d.metadataPath id) p.metadata (Storage.fileOf m.toJson) := by
  unfold save at hrun
  obtain ⟨_, made, hmake, hwrite⟩ := runOn_bind_eq_ok_iff.mp hrun
  have hgrows := Storage.grows_makeDirectories ∅ d.metadataDirectory t
  rw [hmake] at hgrows
  rw [hm] at hwrite
  obtain ⟨hwritten, hstands⟩ := (h.grows hgrows).stands_of_writeDocument (Or.inr (Or.inr rfl))
    (fun q => h.metadata hgrows) hwrite
  exact ⟨(hgrows.mono (Set.empty_subset _)).trans hwritten, hstands⟩

variable {index : ProjectIndex} {change : IndexMetadata → IndexMetadata} {now : Timestamp} {n : Nat}

/-- Where bringing a description up to date stops, no document was written, or the new description
stands. -/
lemma LeadsTo.stopsAfter_describe (h : d.LeadsTo index.projectId p t)
    (hown : d.DescribesOwn t index.projectId) (hchange : ∀ m, (change m).projectId = m.projectId)
    (hstops : Storage.StopsAfter n [d.describe index change now] t t') :
    (n = 0 ∧ Grows ∅ t t') ∨
    (n = 1 ∧ Grows {p.metadata} t t' ∧ ∃ old,
      (change (Indexer.describe index old now)).projectId = index.projectId ∧
      t'.Stands (d.metadataPath index.projectId) p.metadata
        (Storage.fileOf (change (Indexer.describe index old now)).toJson)) := by
  rcases hstops.of_cons with ⟨rfl, rfl⟩ | ⟨rfl, e, hdescribe⟩ | ⟨n, between, rfl, hdescribe, hrest⟩
  · exact Or.inl ⟨rfl, Grows.refl _ _⟩
  · rcases describe_cases hown hchange hdescribe with ⟨e, -, hgrows⟩ | ⟨hok, -⟩
    · exact Or.inl ⟨rfl, hgrows⟩
    · cases hok
  obtain ⟨rfl, rfl⟩ := hrest.of_nil
  rcases describe_cases hown hchange hdescribe with
    ⟨e, he, -⟩ | ⟨-, old, made, hgrows, hid, hwrite⟩
  · cases he
  have hmade := h.grows hgrows
  obtain ⟨hwritten, hstands⟩ := hmade.stands_of_writeDocument (Or.inr (Or.inr rfl))
    (fun q => hmade.metadata (Grows.refl ∅ made)) hwrite
  refine Or.inr ⟨rfl, ?_, old, (hchange _).trans hid, hstands⟩
  exact (hgrows.mono (Set.empty_subset _)).trans hwritten

/-- Where the writing of an index stops, the snapshots of the steps that are done stand, and nothing
else was written before the description was taken up. -/
lemma LeadsTo.stopsAfter_snapshots (h : d.LeadsTo index.projectId p t) (hp : p.Distinct)
    (hstops : Storage.StopsAfter n (d.writeSteps index change now) t t') :
    (n < 2 ∧ Grows ∅ t t') ∨
    (n = 2 ∧ Grows {p.symbols} t t' ∧ t'.Stands (d.snapshots index.projectId).symbolsPath p.symbols
      (Storage.fileOf index.snapshot.toJson)) ∨
    ∃ k saved, n = k + 3 ∧ Grows p.snapshots t saved ∧
      saved.Stands (d.snapshots index.projectId).symbolsPath p.symbols
        (Storage.fileOf index.snapshot.toJson) ∧
      saved.Stands (d.snapshots index.projectId).graphPath p.graph
        (Storage.fileOf index.graph.toJson) ∧
      Storage.StopsAfter k [d.describe index change now] saved t' := by
  have hmakes := Storage.grows_makeDirectories ∅ (d.dataDirectory index.projectId) t
  -- The data directory.
  rcases hstops.of_cons with ⟨rfl, rfl⟩ | ⟨rfl, e, hmake⟩ | ⟨n, t₁, rfl, hmake, hrest⟩
  · exact Or.inl ⟨by omega, Grows.refl _ _⟩
  · rw [hmake] at hmakes
    exact Or.inl ⟨by omega, hmakes⟩
  rw [hmake] at hmakes
  have h₁ := h.grows hmakes
  -- The document of the symbols.
  rcases hrest.of_writeDocument with ⟨rfl, rfl⟩ | ⟨n, t₂, rfl, hsymbols, hrest⟩
  · exact Or.inl ⟨by omega, hmakes⟩
  obtain ⟨hgrows₂, hstands₂⟩ := h₁.stands_of_writeDocument (Or.inl rfl)
    (fun q => h₁.symbols (Grows.refl ∅ t₁)) hsymbols
  have hgrows₂ := (hmakes.mono (Set.empty_subset _)).trans hgrows₂
  have h₂ := h.grows hgrows₂
  -- The document of the graph.
  rcases hrest.of_writeDocument with ⟨rfl, rfl⟩ | ⟨n, t₃, rfl, hgraph, hrest⟩
  · exact Or.inr (Or.inl ⟨rfl, hgrows₂, hstands₂⟩)
  obtain ⟨hgrows₃, hgraph₃⟩ := h₂.stands_of_writeDocument (Or.inr (Or.inl rfl))
    (fun q => h₂.graph (Grows.refl ∅ t₂)) hgraph
  have hsymbols₃ := hstands₂.grows hgrows₃ hp.symbols_ne_graph
  have hgrows₃ : Grows p.snapshots t t₃ := (hgrows₂.mono (by simp [DocumentPlaces.snapshots])).trans
    (hgrows₃.mono (by simp [DocumentPlaces.snapshots]))
  exact Or.inr (Or.inr ⟨n, t₃, rfl, hgrows₃, hsymbols₃, hgraph₃, hrest⟩)

/-- Where the writing of an index stops, the documents of the steps that are done stand, and nothing
else was written. -/
lemma LeadsTo.stopsAfter (h : d.LeadsTo index.projectId p t) (hp : p.Distinct)
    (hown : ∀ t₁, Grows p.snapshots t t₁ → d.DescribesOwn t₁ index.projectId)
    (hchange : ∀ m, (change m).projectId = m.projectId)
    (hstops : Storage.StopsAfter n (d.writeSteps index change now) t t') :
    (n < 2 ∧ Grows ∅ t t') ∨
    (n = 2 ∧ Grows {p.symbols} t t' ∧ t'.Stands (d.snapshots index.projectId).symbolsPath p.symbols
      (Storage.fileOf index.snapshot.toJson)) ∨
    (n = 3 ∧ Grows p.snapshots t t' ∧ t'.Stands (d.snapshots index.projectId).symbolsPath p.symbols
        (Storage.fileOf index.snapshot.toJson) ∧
      t'.Stands (d.snapshots index.projectId).graphPath p.graph
        (Storage.fileOf index.graph.toJson)) ∨
    (n = 4 ∧ Grows p.all t t' ∧ ∃ old,
      (change (Indexer.describe index old now)).projectId = index.projectId ∧
      t'.Stands (d.snapshots index.projectId).symbolsPath p.symbols
        (Storage.fileOf index.snapshot.toJson) ∧
      t'.Stands (d.snapshots index.projectId).graphPath p.graph
        (Storage.fileOf index.graph.toJson) ∧
      t'.Stands (d.metadataPath index.projectId) p.metadata
        (Storage.fileOf (change (Indexer.describe index old now)).toJson)) := by
  rcases h.stopsAfter_snapshots hp hstops with hnone | hfirst |
    ⟨k, t₃, rfl, hgrows₃, hsymbols₃, hgraph₃, hrest⟩
  · exact Or.inl hnone
  · exact Or.inr (Or.inl hfirst)
  rcases (h.grows hgrows₃).stopsAfter_describe (hown t₃ hgrows₃) hchange hrest with
    ⟨rfl, hgrows⟩ | ⟨rfl, hgrows, old, hid, hmetadata⟩
  · exact Or.inr (Or.inr (Or.inl ⟨rfl, hgrows₃.trans (hgrows.mono (Set.empty_subset _)),
      hsymbols₃.grows hgrows (Set.notMem_empty _), hgraph₃.grows hgrows (Set.notMem_empty _)⟩))
  · have hgrows₄ : Grows p.all t t' := (hgrows₃.mono p.snapshots_subset_all).trans
      (hgrows.mono (by simp [DocumentPlaces.all]))
    exact Or.inr (Or.inr (Or.inr ⟨rfl, hgrows₄, old, hid,
      hsymbols₃.grows hgrows hp.symbols_ne_metadata, hgraph₃.grows hgrows hp.graph_ne_metadata,
      hmetadata⟩))

/-! ### Documents that stand together -/

/-- The documents of a project stand at three places, and its description is its own. -/
structure HasDocuments (d : IndexDirectory) (id : String) (p : DocumentPlaces) (t : FileTree)
    (symbols graph : FileContent) (m : IndexMetadata) : Prop where
  symbols : t.Stands (d.snapshots id).symbolsPath p.symbols symbols
  graph : t.Stands (d.snapshots id).graphPath p.graph graph
  metadata : t.Stands (d.metadataPath id) p.metadata (Storage.fileOf m.toJson)
  projectId_eq : m.projectId = id
  distinct : p.Distinct

namespace HasDocuments

/-- Documents that stand are those that will be replaced. -/
lemma leadsTo (h : d.HasDocuments id p t symbols graph m) : d.LeadsTo id p t where
  symbols hgrows hq := (Except.ok.inj ((hgrows.locate_eq h.symbols.locate_eq).symm.trans hq)).symm
  graph hgrows hq := (Except.ok.inj ((hgrows.locate_eq h.graph.locate_eq).symm.trans hq)).symm
  metadata hgrows hq := (Except.ok.inj ((hgrows.locate_eq h.metadata.locate_eq).symm.trans hq)).symm
  ne_link := by
    rintro q (rfl | rfl | rfl)
    · simp [h.symbols.entry?_eq]
    · simp [h.graph.entry?_eq]
    · simp [h.metadata.entry?_eq]

/-- The description that stands is found as long as it is not written to. -/
lemma describesOwn (h : d.HasDocuments id p t symbols graph m) (hgrows : Grows p.snapshots t t') :
    d.DescribesOwn t' id := by
  have hplace : p.metadata ∉ p.snapshots := by
    rintro (heq | heq)
    · exact h.distinct.symbols_ne_metadata heq.symm
    · exact h.distinct.graph_ne_metadata heq.symm
  exact describesOwn_of_stands (h.metadata.grows hgrows hplace) h.projectId_eq

/-- The documents stand as they are where nothing is written to their places. -/
lemma grows (h : d.HasDocuments id p t symbols graph m) (hgrows : Grows touched t t')
    (hp : ∀ q ∈ p.all, q ∉ touched) : d.HasDocuments id p t' symbols graph m :=
  ⟨h.symbols.grows hgrows (hp _ (Or.inl rfl)), h.graph.grows hgrows (hp _ (Or.inr (Or.inl rfl))),
    h.metadata.grows hgrows (hp _ (Or.inr (Or.inr rfl))), h.projectId_eq, h.distinct⟩

/-- Where the writing of another index stops, the documents of the steps that are done are new, and
the others are those that were there. -/
lemma stopsAfter (h : d.HasDocuments index.projectId p t symbols graph m)
    (hchange : ∀ m, (change m).projectId = m.projectId)
    (hstops : Storage.StopsAfter n (d.writeSteps index change now) t t') :
    (n < 2 ∧ d.HasDocuments index.projectId p t' symbols graph m) ∨
    (n = 2 ∧ d.HasDocuments index.projectId p t' (Storage.fileOf index.snapshot.toJson) graph m) ∨
    (n = 3 ∧ d.HasDocuments index.projectId p t' (Storage.fileOf index.snapshot.toJson)
      (Storage.fileOf index.graph.toJson) m) ∨
    (n = 4 ∧ ∃ old, d.HasDocuments index.projectId p t' (Storage.fileOf index.snapshot.toJson)
      (Storage.fileOf index.graph.toJson) (change (Indexer.describe index old now))) := by
  have hmetadata : ∀ {touched : Set Place}, Grows touched t t' → touched ⊆ p.snapshots →
      t'.Stands (d.metadataPath index.projectId) p.metadata (Storage.fileOf m.toJson) := by
    intro touched hgrows hsub
    refine h.metadata.grows hgrows fun hin => ?_
    rcases hsub hin with heq | heq
    · exact h.distinct.symbols_ne_metadata heq.symm
    · exact h.distinct.graph_ne_metadata heq.symm
  rcases h.leadsTo.stopsAfter h.distinct (fun t₁ => h.describesOwn) hchange hstops with
    ⟨hn, hgrows⟩ | ⟨hn, hgrows, hsymbols⟩ | ⟨hn, hgrows, hsymbols, hgraph⟩ |
    ⟨hn, -, old, hid, hsymbols, hgraph, hnew⟩
  · exact Or.inl ⟨hn, h.grows hgrows fun q _ => Set.notMem_empty q⟩
  · have hsub : ({p.symbols} : Set Place) ⊆ p.snapshots := by simp [DocumentPlaces.snapshots]
    exact Or.inr (Or.inl ⟨hn, hsymbols, h.graph.grows hgrows h.distinct.symbols_ne_graph.symm,
      hmetadata hgrows hsub, h.projectId_eq, h.distinct⟩)
  · exact Or.inr (Or.inr (Or.inl ⟨hn, hsymbols, hgraph, hmetadata hgrows subset_rfl,
      h.projectId_eq, h.distinct⟩))
  · exact Or.inr (Or.inr (Or.inr ⟨hn, old, hsymbols, hgraph, hnew, hid, h.distinct⟩))

end HasDocuments

end IndexDirectory

/-! ### Loading -/

/-- Whether snapshots are loaded depends on both documents being there, and then on what is read. -/
lemma SnapshotDirectory.runOn_load_eq (d : SnapshotDirectory) (t : FileTree) :
    d.load.runOn t = (if d.exists? t then
        match ((Storage.readDocument d.symbolsPath Snapshot.ofJson?).runOn t).1 with
        | .error e => .error e
        | .ok s => (d.loadGraph.runOn t).1.map fun g => some (s, g)
      else .ok none, t) := by
  unfold load
  rw [runOn_bind_of_ok (runOn_get t)]
  split_ifs with hboth
  · rw [runOn_bind]
    rcases hsymbols : (Storage.readDocument d.symbolsPath Snapshot.ofJson?).runOn t with ⟨s, u⟩
    obtain ⟨rfl, -⟩ := Storage.readDocument_cases hsymbols
    cases s with
    | error e => rfl
    | ok s =>
      dsimp only
      rw [runOn_bind]
      rcases hgraph : d.loadGraph.runOn u with ⟨g, v⟩
      obtain ⟨rfl, -⟩ := Storage.readDocument_cases hgraph
      cases g <;> rfl
  · rfl

/-- Whether a project is loaded depends on its description being there, and then on its
snapshots. -/
lemma Indexer.runOn_loadProject_eq (x : Indexer) (id root : String) (w : Workspace) :
    (x.loadProject id root).runOn w =
      (if w.files.isFile (x.directory.metadataPath id) then
        ((((x.directory.snapshots id).load.runOn w.files).1).mapError .storage).map
          (Option.map fun p => .ofSnapshot id root p.1 p.2)
      else .ok none, w) := by
  unfold loadProject
  rw [runOn_bind_of_ok (runOn_get w), IndexDirectory.exists?]
  split_ifs
  · have hkept : ((x.directory.snapshots id).load.runOn w.files).2 = w.files := by
      rw [SnapshotDirectory.runOn_load_eq]
    rw [runOn_bind, Workspace.runOn_storage_eq, hkept]
    cases ((x.directory.snapshots id).load.runOn w.files).1 <;> rfl
  · rfl

namespace IndexDirectory

variable {id : String} {p : DocumentPlaces} {m : IndexMetadata}

/-- An index that is described and whose snapshots stand is loaded as the snapshots say. -/
lemma runOn_loadProject_of_stands {x : Indexer} {s : Snapshot} {g : CallGraph} {w : Workspace}
    {place place' : Place} (hthere : w.files.isFile (x.directory.metadataPath id) = true)
    (hsymbols : w.files.Stands (x.directory.snapshots id).symbolsPath place
      (Storage.fileOf s.toJson))
    (hgraph : w.files.Stands (x.directory.snapshots id).graphPath place' (Storage.fileOf g.toJson))
    (root : String) : (x.loadProject id root).runOn w =
      (.ok (some (.ofSnapshot id root s g)), w) := by
  have hexists : x.directory.exists? w.files id = true := hthere
  have hstorage : (Workspace.storage (x.directory.snapshots id).load).runOn w =
      (.ok (some (s, g)), w) := by
    rw [Workspace.runOn_storage_eq, SnapshotDirectory.runOn_load hsymbols hgraph]
  unfold Indexer.loadProject
  rw [runOn_bind_of_ok (runOn_get w), if_pos hexists, runOn_bind_of_ok hstorage]
  rfl

/-- An index whose documents stand is loaded as the documents say. -/
lemma HasDocuments.runOn_loadProject {x : Indexer} {s : Snapshot} {g : CallGraph} {w : Workspace}
    (h : x.directory.HasDocuments id p w.files (Storage.fileOf s.toJson)
      (Storage.fileOf g.toJson) m)
    (root : String) : (x.loadProject id root).runOn w =
      (.ok (some (.ofSnapshot id root s g)), w) :=
  runOn_loadProject_of_stands h.metadata.isFile h.symbols h.graph root

/-- An index that is not described is not there. -/
lemma runOn_loadProject_of_not_isFile {x : Indexer} {w : Workspace}
    (h : w.files.isFile (x.directory.metadataPath id) = false) (root : String) :
    (x.loadProject id root).runOn w = (.ok none, w) := by
  have hnone : ¬x.directory.exists? w.files id = true := by
    rw [IndexDirectory.exists?, h]
    simp
  unfold Indexer.loadProject
  rw [runOn_bind_of_ok (runOn_get w), if_neg hnone]
  rfl

end IndexDirectory

end CodeAtlas
