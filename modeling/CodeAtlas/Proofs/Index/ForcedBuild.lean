import CodeAtlas.Proofs.Index.FullBuild
import CodeAtlas.Proofs.Index.InStep
import CodeAtlas.Proofs.Index.Reload
import CodeAtlas.Proofs.Storage.Description

/-!
# What a forced build repairs

A forced build pays no attention to the index that is there: it lists the files, makes the index and
replaces the snapshots, whatever bytes stood in their places.  Only the description is read before
it is replaced, since some of what it says is kept.

So a forced build repairs everything but a description that cannot be read, and over such a
description it fails, with the new snapshots in place already (`Indexer.build_repairs_iff`).
-/

namespace CodeAtlas

open CodeAtlas.Action CodeAtlas.FileTree

namespace FileTree

variable {t t' : FileTree} {touched : Set Place} {path text : String}

/-- What a path finds is found in the grown tree, if files stand where files were written. -/
lemma Grows.exists_find? (h : Grows touched t t')
    (hfiles : ∀ place ∈ touched, ∃ content, t'.fileAt? place = some content) {place : Place}
    {e : FileEntry} (hfind : t.find? path = .ok (place, e)) :
    ∃ e', t'.find? path = .ok (place, e') ∧
      ∀ content, e = .file content → ∃ content', e' = .file content' := by
  obtain ⟨hlocate, hentry⟩ := find?_eq_ok_iff.mp hfind
  have hfound : ∀ {e'}, t'.entry? place = some e' → t'.find? path = .ok (place, e') :=
    fun he' => find?_eq_ok_iff.mpr ⟨h.locate_eq hlocate, he'⟩
  cases e with
  | directory => exact ⟨_, hfound (h.directory place hentry), fun content hfile => by cases hfile⟩
  | link target =>
    exact ⟨_, hfound ((h.link_iff place target).mpr hentry), fun content hfile => by cases hfile⟩
  | file content =>
    obtain ⟨content', hcontent'⟩ : ∃ content', t'.fileAt? place = some content' := by
      by_cases hplace : place ∈ touched
      · exact hfiles place hplace
      · exact ⟨content, (h.fileAt?_eq place hplace).trans (fileAt?_eq_some_iff.mpr hentry)⟩
    exact ⟨_, hfound (fileAt?_eq_some_iff.mp hcontent'), fun _ _ => ⟨content', rfl⟩⟩

/-- What a path without links is in the grown tree, if files stand where files were written. -/
lemma Grows.canonical_eq (h : Grows touched t t')
    (hfiles : ∀ place ∈ touched, ∃ content, t'.fileAt? place = some content)
    (hp : t.canonical path = .ok text) : t'.canonical path = .ok text := by
  unfold canonical at hp ⊢
  cases hfind : t.find? path with
  | error e => simp [hfind, Except.map] at hp
  | ok found =>
    obtain ⟨e', hfind', -⟩ := h.exists_find? hfiles hfind
    rw [hfind'] at ⊢
    rw [hfind] at hp
    exact hp

/-- A file is one in the grown tree, if files stand where files were written. -/
lemma Grows.isFile_eq (h : Grows touched t t')
    (hfiles : ∀ place ∈ touched, ∃ content, t'.fileAt? place = some content)
    (hp : t.isFile path = true) : t'.isFile path = true := by
  unfold isFile lookup? at hp ⊢
  cases hfind : t.find? path with
  | error e => simp [hfind] at hp
  | ok found =>
    obtain ⟨e', hfind', hfile⟩ := h.exists_find? hfiles hfind
    rw [hfind'] at ⊢
    rw [hfind] at hp
    cases hentry : found.2 with
    | file content =>
      obtain ⟨content', rfl⟩ := hfile content hentry
      rfl
    | directory => simp [hentry] at hp
    | link target => simp [hentry] at hp

end FileTree

namespace IndexDirectory

variable {d : IndexDirectory} {base : Place} {index : ProjectIndex} {t between : FileTree}
  {p : DocumentPlaces} {id : String}

/-- The file system accepts what is read and written when an index is brought to disk.  The
snapshots are written, which leaves the tree `between`; what stands in the place of the description
is a file that can be read; and a description can be written, under the identifier that the old one
gives. -/
structure AcceptsIndex (d : IndexDirectory) (base : Place) (index : ProjectIndex)
    (t between : FileTree) : Prop where
  snapshots : ((d.snapshots index.projectId).save index.snapshot index.graph).runOn t =
    (.ok (), between)
  readable : ∀ e, between.entry? (placesIn base index.projectId).metadata = some e →
    ∃ content, between.read (d.metadataPath index.projectId) = .ok content
  writable : ∀ old, (d.get? index.projectId).runOn between = (.ok old, between) →
    ∀ m : IndexMetadata, m.projectId = (old.map (·.projectId)).getD index.projectId →
      ∃ t', (d.save m).runOn between = (.ok (), t')

/-- What is found of the description when the snapshots have been written. -/
lemma AcceptsIndex.get?_cases (h : d.AcceptsIndex base index t between) (hlies : d.LiesAt base t)
    (hid : Path.IsPlainName index.projectId) :
    (t.fileAt? (placesIn base index.projectId).metadata = none ∧
      (d.get? index.projectId).runOn between = (.ok none, between)) ∨
    ∃ content, t.fileAt? (placesIn base index.projectId).metadata = some content ∧
      between.isFile (d.metadataPath index.projectId) = true ∧
      ((∃ m, content.description? = some m ∧
          (d.get? index.projectId).runOn between = (.ok (some m), between)) ∨
        content.description? = none ∧
          ∃ e, (d.get? index.projectId).runOn between = (.error e, between)) := by
  obtain ⟨hgrows, -, -⟩ := (hlies.leadsTo hid).stands_of_save h.snapshots
  have hsame : t.fileAt? (placesIn base index.projectId).metadata =
      between.fileAt? (placesIn base index.projectId).metadata := by
    refine (hgrows.fileAt?_eq _ ?_).symm
    rintro (heq | heq) <;> simp [placesIn] at heq
  have hlies' := hlies.grows hgrows
  cases hentry : between.entry? (placesIn base index.projectId).metadata with
  | none =>
    refine Or.inl ⟨?_, runOn_get?_of_not_exists (hlies'.exists?_eq_false hid hentry)⟩
    rw [hsame, fileAt?, hentry]
  | some e =>
    obtain ⟨content, hread⟩ := h.readable e hentry
    refine Or.inr ⟨content, hsame.trans (hlies'.fileAt?_of_read hid hread), isFile_of_read hread,
      ?_⟩
    cases hm : content.description? with
    | none => exact Or.inr ⟨rfl, exists_runOn_get?_error hread hm⟩
    | some m => exact Or.inl ⟨m, rfl, runOn_get?_of_description hread hm⟩

variable {x : Indexer} {w : Workspace} {change : IndexMetadata → IndexMetadata}

/-- An index is written over whatever was there if the description that was there can be read, and
then it is there to be loaded. -/
lemma AcceptsIndex.exists_persist (h : x.directory.AcceptsIndex base index w.files between)
    (hlies : x.directory.LiesAt base w.files) (hid : Path.IsPlainName index.projectId)
    (hchange : ∀ m, (change m).projectId = m.projectId)
    (hreadable : ∀ content,
      w.files.fileAt? (placesIn base index.projectId).metadata = some content →
      ∃ m, content.description? = some m ∧ Path.IsPlainName m.projectId) :
    ∃ old t', (x.persist index change).runOn w =
        (.ok (change (Indexer.describe index old w.clock.now)), { w with files := t' }) ∧
      t'.isFile (x.directory.metadataPath index.projectId) = true ∧
      t'.Stands (x.directory.snapshots index.projectId).symbolsPath
        (placesIn base index.projectId).symbols (Storage.fileOf index.snapshot.toJson) ∧
      t'.Stands (x.directory.snapshots index.projectId).graphPath
        (placesIn base index.projectId).graph (Storage.fileOf index.graph.toJson) ∧
      ∀ path text, w.files.canonical path = .ok text → t'.canonical path = .ok text := by
  obtain ⟨hgrows, hsymbols, hgraph⟩ := (hlies.leadsTo hid).stands_of_save h.snapshots
  -- Whatever was found of an old description, the new one is put at a place of its own.
  obtain ⟨old, hget, hother, hfile⟩ : ∃ old : Option IndexMetadata,
      (x.directory.get? index.projectId).runOn between = (.ok old, between) ∧
      Path.IsPlainName ((old.map (·.projectId)).getD index.projectId) ∧
      (old = none ∨ between.isFile (x.directory.metadataPath index.projectId) = true) := by
    rcases h.get?_cases hlies hid with ⟨-, hget⟩ | ⟨content, hcontent, hfile, hcases⟩
    · exact ⟨none, hget, hid, Or.inl rfl⟩
    · obtain ⟨m, hm, hplain⟩ := hreadable content hcontent
      rcases hcases with ⟨m', hm', hget⟩ | ⟨hnone, -⟩
      · obtain rfl : m = m' := Option.some.inj (hm.symm.trans hm')
        exact ⟨some m, hget, hplain, Or.inr hfile⟩
      · rw [hm] at hnone
        cases hnone
  have hdescribed : (change (Indexer.describe index old w.clock.now)).projectId =
      (old.map (·.projectId)).getD index.projectId := by
    rw [hchange]
    cases old <;> rfl
  obtain ⟨t', hsave⟩ := h.writable old hget _ hdescribed
  obtain ⟨hwritten, hstands⟩ := ((hlies.grows hgrows).leadsTo hother).stands_of_save_metadata
    hdescribed hsave
  have hne : (placesIn base ((old.map (·.projectId)).getD index.projectId)).metadata ∉
      (placesIn base index.projectId).snapshots := by
    rintro (heq | heq) <;> simp [placesIn] at heq
  have hsymbols' := hsymbols.grows hwritten fun heq => hne (Or.inl heq.symm)
  have hgraph' := hgraph.grows hwritten fun heq => hne (Or.inr heq.symm)
  have hstood : ∀ place ∈ ({(placesIn base
      ((old.map (·.projectId)).getD index.projectId)).metadata} : Set Place),
      ∃ content, t'.fileAt? place = some content := by
    rintro place rfl
    exact ⟨_, fileAt?_eq_some_iff.mpr hstands.entry?_eq⟩
  refine ⟨old, t', Indexer.runOn_persist h.snapshots hget hsave, ?_, hsymbols', hgraph',
    fun path text hcanonical => ?_⟩
  · rcases hfile with rfl | hfile
    · exact hstands.isFile
    · exact hwritten.isFile_eq hstood hfile
  · refine hwritten.canonical_eq hstood (hgrows.canonical_eq ?_ hcanonical)
    rintro place (rfl | rfl)
    · exact ⟨_, fileAt?_eq_some_iff.mpr hsymbols.entry?_eq⟩
    · exact ⟨_, fileAt?_eq_some_iff.mpr hgraph.entry?_eq⟩

/-- Over a description that cannot be read an index is not written. -/
lemma AcceptsIndex.exists_persist_error (h : x.directory.AcceptsIndex base index w.files between)
    (hlies : x.directory.LiesAt base w.files) (hid : Path.IsPlainName index.projectId)
    {content : FileContent}
    (hcontent : w.files.fileAt? (placesIn base index.projectId).metadata = some content)
    (hnone : content.description? = none) :
    ∃ e, (x.persist index change).runOn w = (.error e, { w with files := between }) := by
  rcases h.get?_cases hlies hid with ⟨hmissing, -⟩ | ⟨content', hcontent', -, hcases⟩
  · rw [hcontent] at hmissing
    cases hmissing
  · obtain rfl : content = content' := Option.some.inj (hcontent.symm.trans hcontent')
    rcases hcases with ⟨m, hm, -⟩ | ⟨-, e, hget⟩
    · rw [hnone] at hm
      cases hm
    · refine ⟨.storage e, ?_⟩
      unfold Indexer.persist
      refine (runOn_bind_of_ok (runOn_get w)).trans ?_
      refine (runOn_bind_of_ok (Workspace.runOn_storage h.snapshots)).trans ?_
      rw [runOn_bind, Workspace.runOn_storage_eq, hget]

end IndexDirectory

namespace IndexDirectory

variable {d : IndexDirectory} {base : Place} {index : ProjectIndex} {t : FileTree}

/-! ### When the file system accepts an index -/

/-- The file system accepts an index if its documents can be written, and the description that is
there already, if there is one, is that of the project. -/
lemma exists_acceptsIndex (hpath : d.path = pathOf base) (hlies : d.LiesAt base t)
    (hsymbols : t.Takes (base ++ ["projects", index.projectId]) "symbols.json")
    (hgraph : t.Takes (base ++ ["projects", index.projectId]) "call_graph.json")
    (hmetadata : t.Takes (base ++ ["meta"]) (index.projectId ++ ".json"))
    (hown : OwnsPlace base t index.projectId) : ∃ between, d.AcceptsIndex base index t between := by
  obtain ⟨between, hsave, htakes, hsame⟩ :=
    exists_save_of_takes hpath hsymbols hgraph hmetadata index.snapshot index.graph
  have hplain := hsymbols.writable.of_append.plain
  have hid := hplain index.projectId (by simp)
  obtain ⟨-, -, -, -, hmetadataPath⟩ :=
    paths_eq hpath (fun name hname => hplain name (List.mem_append_left _ hname)) hid
  have hplace : (placesIn base index.projectId).metadata =
      base ++ ["meta"] ++ [index.projectId ++ ".json"] := by simp [placesIn]
  have hlies' := hlies.grows ((hlies.leadsTo hid).stands_of_save hsave).1
  have hown' : OwnsPlace base between index.projectId := by
    intro content m hcontent
    rw [fileAt?, hplace, hsame, ← hplace, ← fileAt?] at hcontent
    exact hown content m hcontent
  -- The description that stands is read as the bytes in its place.
  have hread : ∀ content, between.entry? (placesIn base index.projectId).metadata =
      some (.file content) → between.read (d.metadataPath index.projectId) = .ok content := by
    intro content hfile
    rw [hmetadataPath]
    exact read_pathOf htakes.writable htakes.reaches (hplace ▸ hfile)
  refine ⟨between, hsave, fun e he => ?_, fun old hget m hm => ?_⟩
  · rcases htakes.entry with hnone | ⟨content, hfile⟩
    · rw [hplace, hnone] at he
      cases he
    · exact ⟨content, hread content (hplace ▸ hfile)⟩
  · have hm : m.projectId = index.projectId := by
      cases old with
      | none => exact hm
      | some m' =>
        obtain ⟨text, htext, hparse⟩ := (get?_cases hget).2 m' rfl
        exact hm.trans (hown'.describesOwn hlies' hid text m' htext hparse)
    rw [← hm] at hid htakes
    exact exists_save_metadata_of_takes hpath hid htakes

end IndexDirectory

namespace Indexer

open IndexDirectory

variable {x : Indexer} {w w' between : Workspace} {base : Place} {root id canonical : String}
  {merged : MergedExtraction}

/-! ### Building and loading -/

/-- A root is identified by what its path is without links. -/
lemma identify_cases {found : String × String} (h : (identify root).runOn w = (.ok found, w')) :
    w' = w ∧ w.files.canonical root = .ok found.2 ∧ Path.IsPlainName found.1 ∧
      ∀ v : Workspace, v.files.canonical root = .ok found.2 →
        (identify root).runOn v = (.ok found, v) := by
  unfold identify at h
  obtain ⟨text, between, hread, hfound⟩ := runOn_bind_eq_ok_iff.mp h
  obtain ⟨hcanonical, rfl⟩ := runOn_read_eq_ok_iff.mp hread
  obtain ⟨hvalue, rfl⟩ := Prod.mk.inj hfound
  obtain rfl := Except.ok.inj hvalue
  refine ⟨rfl, hcanonical, ?_, fun v hv => ?_⟩
  · cases hname : Path.fileName? text with
    | none => exact (by decide : Path.IsPlainName "root")
    | some name => exact Path.isPlainName_of_fileName? hname
  · unfold identify
    exact runOn_bind_of_ok (runOn_read_eq_ok_iff.mpr ⟨hv, rfl⟩)

/-- A root that is found is identified by the name of its place. -/
lemma runOn_identify {place : Place} {e : FileEntry} (hfind : w.files.find? root = .ok (place, e)) :
    (identify root).runOn w =
      (.ok ((Path.fileName? (pathOf place)).getD "root", pathOf place), w) := by
  have hcanonical : w.files.canonical root = .ok (pathOf place) := by
    rw [FileTree.canonical, hfind]
    rfl
  unfold identify
  exact runOn_bind_of_ok (runOn_read_eq_ok_iff.mpr ⟨hcanonical, rfl⟩)

/-- What is left of a build once it is known whether a description makes it superfluous. -/
def buildUnlessKnown (x : Indexer) (projectId root : String) :
    Option IndexMetadata → IndexAction BuildOutcome
  | some metadata => return .cached metadata
  | none => do
    let (_, origins, m) ← x.rebuildWithMetadata projectId root
    return .success projectId m.fileCount m.symbolCount m.callEdgeCount origins m.buildMs

/-- A build identifies the root, looks for a description unless it is forced, and then builds unless
there is one. -/
lemma tryBuild_eq (x : Indexer) (root : String) (force : Bool) :
    x.tryBuild root force = (identify root >>= fun found =>
      (if force then pure none else x.cached? found.1) >>= x.buildUnlessKnown found.1 found.2) := by
  unfold tryBuild
  refine congrArg (identify root >>= ·) (funext fun found => ?_)
  have hrest : x.buildUnlessKnown found.1 found.2 = fun known =>
      match known with
      | some metadata => return .cached metadata
      | none => do
        let (_, origins, m) ← x.rebuildWithMetadata found.1 found.2
        return .success found.1 m.fileCount m.symbolCount m.callEdgeCount origins m.buildMs := by
    funext known
    cases known <;> rfl
  rw [hrest]
  cases force <;> rfl

/-- A build comes to an outcome in any case. -/
lemma runOn_build_eq (x : Indexer) (root : String) (force : Bool) (w : Workspace) :
    (x.build root force : IndexAction BuildOutcome).runOn w =
      (.ok (match ((x.tryBuild root force).runOn w).1 with
        | .ok outcome => outcome
        | .error cause => .failed cause), ((x.tryBuild root force).runOn w).2) := by
  unfold build
  rw [runOn_bind, attempt, runOn_ofRun]
  rcases (x.tryBuild root force).runOn w with ⟨outcome, w'⟩
  cases outcome <;> rfl

/-- A forced build makes the index anew. -/
lemma runOn_build_forced {outcome : Except IndexError (ProjectIndex × List Origin × IndexMetadata)}
    (hroot : (identify root).runOn w = (.ok (id, canonical), w))
    (hrun : (x.rebuildWithMetadata id canonical).runOn w = (outcome, w')) :
    (x.build root true : IndexAction BuildOutcome).runOn w =
      (.ok (match outcome with
        | .ok (_, origins, m) =>
          .success id m.fileCount m.symbolCount m.callEdgeCount origins m.buildMs
        | .error cause => .failed cause), w') := by
  have htry : (x.tryBuild root true).runOn w =
      (outcome.map fun (_, origins, m) =>
        BuildOutcome.success id m.fileCount m.symbolCount m.callEdgeCount origins m.buildMs,
        w') := by
    rw [tryBuild_eq, runOn_bind_of_ok hroot]
    refine (runOn_bind_of_ok (runOn_pure none w)).trans ?_
    rw [buildUnlessKnown, runOn_bind, hrun]
    cases outcome <;> rfl
  rw [runOn_build_eq, htry]
  cases outcome <;> rfl

/-- An index that was built and can be loaded is loaded as it was built. -/
lemma exists_load {index : ProjectIndex} {p : DocumentPlaces} (hindex : index.Sound)
    (hroot : (identify root).runOn w = (.ok (id, canonical), w))
    (hthere : w.files.isFile (x.directory.metadataPath id) = true)
    (hsymbols : w.files.Stands (x.directory.snapshots id).symbolsPath p.symbols
      (Storage.fileOf index.snapshot.toJson))
    (hgraph : w.files.Stands (x.directory.snapshots id).graphPath p.graph
      (Storage.fileOf index.graph.toJson)) :
    ∃ loaded, (x.load root).runOn w = (.ok (some loaded), w) ∧
      loaded.snapshot.symbols = index.snapshot.symbols ∧
      loaded.snapshot.calls = index.snapshot.calls ∧ loaded.graph = index.graph := by
  have hagrees := hindex.agrees_ofSnapshot id canonical
  refine ⟨_, ?_, hagrees.symbols_eq.symm, hagrees.calls_eq.symm, hagrees.graph_eq.symm⟩
  unfold load
  refine (runOn_bind_of_ok hroot).trans ?_
  exact runOn_loadProject_of_stands hthere hsymbols hgraph canonical

/-- A forced build succeeds and brings the index to disk if a symbol is found, the file system
accepts what is read and written, the document service does not refuse to be refilled, and a
description that was there can be read. -/
lemma exists_build {between : FileTree} (hroot : (identify root).runOn w = (.ok (id, canonical), w))
    (hlies : x.directory.LiesAt base w.files)
    (hmerged : w.files.merge x.measurer x.sources id canonical
      (w.files.walk x.settings.indexing canonical) = .ok merged)
    (haccepts : x.directory.AcceptsIndex base (.ofMerged id canonical merged) w.files between)
    (hreadable : ∀ content, w.files.fileAt? (placesIn base id).metadata = some content →
      ∃ m, content.description? = some m ∧ Path.IsPlainName m.projectId)
    (hclear : w.documents.refuses .clear = none) (hupsert : w.documents.refuses .upsert = none) :
    let index := ProjectIndex.ofMerged id canonical merged
    ∃ w', (x.build root true : IndexAction BuildOutcome).runOn w =
        (.ok (.success id index.stats.files index.stats.symbols index.stats.callEdges
          merged.origins w.clock.elapsedMs), w') ∧
      w'.files.isFile (x.directory.metadataPath id) = true ∧
      w'.files.Stands (x.directory.snapshots id).symbolsPath (placesIn base id).symbols
        (Storage.fileOf index.snapshot.toJson) ∧
      w'.files.Stands (x.directory.snapshots id).graphPath (placesIn base id).graph
        (Storage.fileOf index.graph.toJson) ∧
      ∀ path text, w.files.canonical path = .ok text → w'.files.canonical path = .ok text := by
  intro index
  obtain ⟨-, -, hid, -⟩ := identify_cases hroot
  have hassemble := x.runOn_assemble id canonical w
  rw [hmerged, hclear, hupsert] at hassemble
  let change (m : IndexMetadata) : IndexMetadata :=
    { m with origins := merged.origins.map Origin.name, buildMs := w.clock.elapsedMs }
  have hchange : ∀ m, (change m).projectId = m.projectId := fun _ => rfl
  obtain ⟨old, t', hpersist, hthere, hsymbols, hgraph, hsame⟩ := haccepts.exists_persist
    (x := x) (w := withStore w ((w.documents.store.clear id).upsert index.documents))
    hlies hid hchange hreadable
  have hbuild := runOn_build_forced hroot (runOn_rebuildWithMetadata hassemble hpersist)
  obtain ⟨hs, hf, hc⟩ : Counts (change (describe index old w.clock.now)) index := ⟨rfl, rfl, rfl⟩
  rw [← hs, ← hf, ← hc]
  exact ⟨_, hbuild, hthere, hsymbols, hgraph, hsame⟩

/-- A forced build fails over a description that cannot be read. -/
lemma exists_build_failed {between : FileTree} {content : FileContent}
    (hroot : (identify root).runOn w = (.ok (id, canonical), w))
    (hlies : x.directory.LiesAt base w.files)
    (hmerged : w.files.merge x.measurer x.sources id canonical
      (w.files.walk x.settings.indexing canonical) = .ok merged)
    (haccepts : x.directory.AcceptsIndex base (.ofMerged id canonical merged) w.files between)
    (hclear : w.documents.refuses .clear = none) (hupsert : w.documents.refuses .upsert = none)
    (hcontent : w.files.fileAt? (placesIn base id).metadata = some content)
    (hnone : content.description? = none) : ∃ cause w',
      (x.build root true : IndexAction BuildOutcome).runOn w = (.ok (.failed cause), w') := by
  obtain ⟨-, -, hid, -⟩ := identify_cases hroot
  have hassemble := x.runOn_assemble id canonical w
  rw [hmerged, hclear, hupsert] at hassemble
  obtain ⟨e, hpersist⟩ := haccepts.exists_persist_error (x := x) hlies hid hcontent hnone
    (w := withStore w ((w.documents.store.clear id).upsert
      (ProjectIndex.ofMerged id canonical merged).documents))
  exact ⟨e, _, runOn_build_forced hroot (runOn_rebuildWithMetadata hassemble hpersist)⟩

/-- A forced build over whatever documents of the project.  If a symbol is found and the file system
accepts all that is read and written, it succeeds and the index is there to be loaded, exactly if
the document service does not refuse to be refilled and the description that was there, if there was
one, can be read.  A description gives an identifier; it is taken to be a plain name, as identifiers
are. -/
theorem build_repairs_iff {between : FileTree}
    (hroot : (identify root).runOn w = (.ok (id, canonical), w))
    (hlies : x.directory.LiesAt base w.files)
    (hmerged : w.files.merge x.measurer x.sources id canonical
      (w.files.walk x.settings.indexing canonical) = .ok merged)
    (haccepts : x.directory.AcceptsIndex base (.ofMerged id canonical merged) w.files between)
    (hplain : ∀ content m, w.files.fileAt? (placesIn base id).metadata = some content →
      content.description? = some m → Path.IsPlainName m.projectId) :
    let index := ProjectIndex.ofMerged id canonical merged
    (∃ w', (x.build root true : IndexAction BuildOutcome).runOn w =
        (.ok (.success id index.stats.files index.stats.symbols index.stats.callEdges
          merged.origins w.clock.elapsedMs), w') ∧
      ∃ loaded, (x.load root).runOn w' = (.ok (some loaded), w') ∧
        loaded.snapshot.symbols = index.snapshot.symbols ∧
        loaded.snapshot.calls = index.snapshot.calls ∧ loaded.graph = index.graph) ↔
    w.documents.refuses .clear = none ∧ w.documents.refuses .upsert = none ∧
      ∀ content, w.files.fileAt? (placesIn base id).metadata = some content →
        content.description? ≠ none := by
  intro index
  obtain ⟨-, hcanonical, hid, hidentify⟩ := identify_cases hroot
  have hassemble := x.runOn_assemble id canonical w
  rw [hmerged] at hassemble
  dsimp only at hassemble
  constructor
  · rintro ⟨w', hbuild, -⟩
    -- What stands in the way shows as the outcome of the build.
    have hfails : ∀ {e v},
        (x.rebuildWithMetadata id canonical).runOn w = (.error e, v) → False := by
      intro e v hrun
      rw [runOn_build_forced hroot hrun] at hbuild
      cases Except.ok.inj (Prod.mk.inj hbuild).1
    have hstops : ∀ {e v}, (x.assemble id canonical).runOn w = (.error e, v) → False := by
      intro e v hrun
      refine hfails (e := e) (v := v) ?_
      unfold rebuildWithMetadata
      rw [runOn_bind, hrun]
    cases hclear : w.documents.refuses .clear with
    | some e => exact (hstops (hassemble.trans (by rw [hclear]))).elim
    | none =>
      cases hupsert : w.documents.refuses .upsert with
      | some e => exact (hstops (hassemble.trans (by rw [hclear, hupsert]))).elim
      | none =>
        refine ⟨rfl, rfl, fun content hcontent hnone => ?_⟩
        obtain ⟨cause, v, hfailed⟩ :=
          exists_build_failed hroot hlies hmerged haccepts hclear hupsert
          hcontent hnone
        rw [hfailed] at hbuild
        cases Except.ok.inj (Prod.mk.inj hbuild).1
  · rintro ⟨hclear, hupsert, hreadable⟩
    obtain ⟨w', hbuild, hthere, hsymbols, hgraph, hsame⟩ :=
      exists_build hroot hlies hmerged haccepts
      (fun content hcontent => by
        obtain ⟨m, hm⟩ := Option.ne_none_iff_exists'.mp (hreadable content hcontent)
        exact ⟨m, hm, hplain content m hcontent hm⟩) hclear hupsert
    refine ⟨w', hbuild, ?_⟩
    exact exists_load (p := placesIn base id) (ProjectIndex.sound_ofMerged id canonical merged)
      (hidentify _ (hsame root canonical hcanonical)) hthere hsymbols hgraph

/-! ### An index that was damaged -/

section

open ProjectChange

/-- The root of a project is identified by its name. -/
lemma identify_project (hwf : w.files.WellFormed) (hroot : w.files.entry? ["p"] = some .directory) :
    (identify "/p").runOn w = (.ok ("p", pathOf ["p"]), w) := by
  have hpath : pathOf ["p"] = "/p" := by decide
  have hfind : w.files.find? (pathOf ["p"]) = .ok (["p"], .directory) :=
    hwf.find?_pathOf hroot (by simp)
  exact runOn_identify (hpath ▸ hfind)

/-- A search finds the source file of the project, whatever documents are added. -/
lemma walk_oneFile {t : FileTree} (hadds : oneFile.AddsDocuments t) :
    t.walk smallIndexer.settings.indexing (pathOf ["p"]) = ["/p/a.c"] := by
  have hbefore := (mem_addition .empty).1
  have hwf : oneFile.WellFormed := wellFormed_addition hbefore
  have hroot : oneFile.entry? ["p"] = some .directory := rfl
  have hfile : oneFile.entry? ["p", "a.c"] = some (.file oneDefinition) := rfl
  have hlisted : ∀ p, p ∈ oneFile.listedFiles smallIndexer.settings.indexing ["p"] ↔
      p ∈ [(["a.c"], oneDefinition)] := by
    rintro ⟨names, content⟩
    rw [mem_listedFiles hroot, List.mem_singleton, Prod.mk.injEq]
    constructor
    · rintro ⟨hentry, -⟩
      rcases entry?_addition hbefore hentry with h | ⟨hplace, h⟩ | ⟨hplace, -⟩
      · cases h
      · exact ⟨List.append_cancel_left hplace, FileEntry.file.inj h⟩
      · rw [hplace] at hentry
        cases hentry
    · rintro ⟨rfl, rfl⟩
      exact listed_addition hbefore (by decide) hfile (by decide)
  have hnodup := (nodup_listedFiles oneFile smallIndexer.settings.indexing ["p"]).of_map
  have hone := List.perm_singleton.mp
    ((List.perm_ext_iff_of_nodup hnodup (List.nodup_singleton _)).mpr hlisted)
  rw [hadds.walk_eq hwf (plain_ignoreFiles_addition hbefore) (hadds.sameSources (by decide) _)
    hroot]
  refine List.perm_singleton.mp ((perm_walk (hwf.find?_pathOf hroot (by simp))).trans ?_)
  rw [hone]
  exact .of_eq (by decide)

/-- What is found in the source file of the project. -/
def oneExtraction : Extraction :=
  (oneDefinition.extract smallIndexer.measurer "a.c").toOption.getD {}

/-- The source file of the project is extracted. -/
lemma extractFile_oneFile {t : FileTree} (hadds : oneFile.AddsDocuments t) :
    t.extractFile smallIndexer.measurer (pathOf ["p"]) "/p/a.c" = .ok oneExtraction := by
  have hwf : oneFile.WellFormed := wellFormed_addition (mem_addition .empty).1
  have hfile : oneFile.entry? ["p", "a.c"] = some (.file oneDefinition) := rfl
  have hdocument : ¬IsDocument ["p", "a.c"] := by
    rintro ⟨name, hname, hdocument, -⟩
    obtain rfl := Option.some.inj hname
    exact not_isDocumentName (by decide) hdocument
  have hpath : "/p/a.c" = pathOf ["p", "a.c"] := by decide
  have hread : t.read "/p/a.c" = .ok oneDefinition := by
    rw [hpath]
    exact read_pathOf (hwf.writable _ _ hfile) (hadds.reaches (hwf.reaches hfile))
      (hadds.kept _ _ hdocument hfile)
  have hextract : oneDefinition.extract smallIndexer.measurer "a.c" = .ok oneExtraction := by
    obtain ⟨e, he⟩ : ∃ e, oneDefinition.extract smallIndexer.measurer "a.c" = .ok e := ⟨_, rfl⟩
    rw [oneExtraction, he]
    rfl
  have hrelative : Path.relative (pathOf ["p"]) "/p/a.c" = "a.c" := by decide
  rw [extractFile, hread, hrelative]
  exact hextract

/-- What is put together of the project, whatever documents are added. -/
lemma merge_oneFile {t : FileTree} (hadds : oneFile.AddsDocuments t) (sources : List SymbolSource) :
    t.merge smallIndexer.measurer sources "p" (pathOf ["p"])
        (t.walk smallIndexer.settings.indexing (pathOf ["p"])) =
      .ok (.ofParts ["a.c"] [oneExtraction] (sources.filterMap fun source =>
        (source.symbols? (pathOf ["p"]) ["/p/a.c"]).map fun symbols =>
          (source.origin, symbols))) := by
  have hrelative : Path.relative (pathOf ["p"]) "/p/a.c" = "a.c" := by decide
  have hsymbols : oneExtraction.symbols ≠ [] := by decide +kernel
  rw [walk_oneFile hadds, merge]
  simp only [List.filterMap_cons, List.filterMap_nil, extractFile_oneFile hadds, List.map_cons,
    List.map_nil, hrelative, Except.toOption]
  refine if_neg ?_
  simp [MergedExtraction.ofParts, Extraction.append, hsymbols]

/-- So it can be put together. -/
lemma exists_merge_oneFile {t : FileTree} (hadds : oneFile.AddsDocuments t) : ∃ merged,
    t.merge smallIndexer.measurer smallIndexer.sources "p" (pathOf ["p"])
      (t.walk smallIndexer.settings.indexing (pathOf ["p"])) = .ok merged :=
  ⟨_, merge_oneFile hadds []⟩

/-- A project with one source file, whose snapshot was damaged, and some bytes in the place of its
description. -/
def damaged (bytes : ByteArray) : FileTree :=
  oneFile.put ["i", "projects", "p", "symbols.json"] (.file ⟨"x".toUTF8, none⟩)
    |>.put ["i", "meta", "p.json"] (.file ⟨bytes, none⟩)

variable {bytes : ByteArray}

/-- The damage is done to documents alone. -/
lemma addsDocuments_damaged (bytes : ByteArray) : oneFile.AddsDocuments (damaged bytes) :=
  (AddsDocuments.put_document ⟨"symbols.json", rfl, ⟨"symbols", by decide⟩, by decide⟩
    (by rintro ⟨⟩)).trans
    (AddsDocuments.put_document ⟨"p.json", rfl, ⟨"p", by decide⟩, by decide⟩ (by rintro ⟨⟩))

/-- The damaged tree is well formed. -/
lemma wellFormed_damaged (bytes : ByteArray) : (damaged bytes).WellFormed := by
  have h₁ : WellFormed (FileTree.put _ (["i", "projects", "p"] ++ ["symbols.json"])
      (.file ⟨"x".toUTF8, none⟩)) :=
    (wellFormed_addition (mem_addition .empty).1).put _ rfl rfl (by decide)
  have h₂ : WellFormed (FileTree.put _ (["i", "meta"] ++ ["p.json"]) (.file ⟨bytes, none⟩)) :=
    h₁.put _ rfl rfl (by decide)
  exact h₂

/-- The index directory is where it was. -/
lemma liesAt_damaged (bytes : ByteArray) : smallIndexer.directory.LiesAt ["i"] (damaged bytes) := by
  have hlies : smallIndexer.directory.LiesAt ["i"] oneFile :=
    awaitsIndex_oneFile.liesAt fun names target htarget => by
      rcases entry?_addition (mem_addition .empty).1 htarget with h | ⟨-, h⟩ | ⟨-, h⟩ <;> cases h
  have hgrows : Grows {["i", "projects", "p", "symbols.json"]} oneFile
      (oneFile.put ["i", "projects", "p", "symbols.json"] (.file ⟨"x".toUTF8, none⟩)) :=
    Grows.put_file (fun h => nomatch h) fun _ h => nomatch h
  have hgrows' : Grows {["i", "meta", "p.json"]} _ (damaged bytes) :=
    Grows.put_file (fun h => nomatch h) fun _ h => nomatch h
  exact (hlies.grows hgrows).grows hgrows'

/-- The project is found. -/
lemma identify_damaged (bytes : ByteArray) :
    (identify "/p").runOn { files := damaged bytes } =
      (.ok ("p", pathOf ["p"]), { files := damaged bytes }) :=
  identify_project (wellFormed_damaged bytes) rfl

/-- The file system accepts the index. -/
lemma exists_acceptsIndex_damaged (bytes : ByteArray) (merged : MergedExtraction)
    (hown : ∀ m, (FileContent.mk bytes none).description? = some m → m.projectId = "p") :
    ∃ between, smallIndexer.directory.AcceptsIndex ["i"] (.ofMerged "p" (pathOf ["p"]) merged)
      (damaged bytes) between := by
  have hid : (ProjectIndex.ofMerged "p" (pathOf ["p"]) merged).projectId = "p" := rfl
  have hwf := wellFormed_damaged bytes
  have hdata : FileTree.entry? (damaged bytes) ["i", "projects", "p"] = some .directory := rfl
  have hmeta : FileTree.entry? (damaged bytes) ["i", "meta"] = some .directory := rfl
  refine exists_acceptsIndex rfl (liesAt_damaged bytes) ?_ ?_ ?_ ?_ <;> rw [hid]
  · exact ⟨(hwf.reaches hdata).append_name hdata, Or.inr ⟨_, rfl⟩, by decide⟩
  · exact ⟨(hwf.reaches hdata).append_name hdata, Or.inl rfl, by decide⟩
  · exact ⟨(hwf.reaches hmeta).append_name hmeta, Or.inr ⟨_, rfl⟩, by decide⟩
  · intro content m hcontent hm
    have hstands : (damaged bytes).fileAt? (placesIn ["i"] "p").metadata = some ⟨bytes, none⟩ := rfl
    rw [← Option.some.inj (hstands.symm.trans hcontent)] at hm
    exact hown m hm

/-- A damaged snapshot is repaired. -/
theorem build_repairs_damaged : ∃ (merged : MergedExtraction) (w' : Workspace),
    let index := ProjectIndex.ofMerged "p" (pathOf ["p"]) merged
    (smallIndexer.build "/p" true : IndexAction BuildOutcome).runOn
        { files := damaged bareMetadata.toJson.pretty.toUTF8 } =
      (.ok (.success "p" index.stats.files index.stats.symbols index.stats.callEdges
        merged.origins 0), w') ∧
    ∃ loaded, (smallIndexer.load "/p").runOn w' = (.ok (some loaded), w') ∧
      loaded.snapshot.symbols = index.snapshot.symbols ∧
      loaded.snapshot.calls = index.snapshot.calls ∧ loaded.graph = index.graph := by
  have hdescribed : (Storage.fileOf bareMetadata.toJson).description? = some bareMetadata :=
    (IndexMetadata.description?_fileOf _).trans parse?_bareMetadata
  have hstands : (damaged bareMetadata.toJson.pretty.toUTF8).fileAt? (placesIn ["i"] "p").metadata =
      some (Storage.fileOf bareMetadata.toJson) := rfl
  obtain ⟨merged, hmerged⟩ := exists_merge_oneFile
    (addsDocuments_damaged bareMetadata.toJson.pretty.toUTF8)
  obtain ⟨between, haccepts⟩ := exists_acceptsIndex_damaged _ merged fun m hm => by
    obtain rfl := Option.some.inj (hdescribed.symm.trans hm)
    rfl
  refine ⟨merged, (build_repairs_iff (identify_damaged _) (liesAt_damaged _) hmerged haccepts
    fun content m hcontent hm => ?_).mpr ⟨rfl, rfl, fun content hcontent => ?_⟩⟩
  · rw [← Option.some.inj (hstands.symm.trans hcontent), hdescribed] at hm
    obtain rfl := Option.some.inj hm
    exact (by decide : Path.IsPlainName "p")
  · rw [← Option.some.inj (hstands.symm.trans hcontent), hdescribed]
    simp

/-- A damaged description is not repaired. -/
theorem not_build_repairs :
    ¬∀ (x : Indexer) (w : Workspace) (base : Place) (root id canonical : String)
      (merged : MergedExtraction) (between : FileTree),
      (identify root).runOn w = (.ok (id, canonical), w) → x.directory.LiesAt base w.files →
      w.files.merge x.measurer x.sources id canonical
        (w.files.walk x.settings.indexing canonical) = .ok merged →
      x.directory.AcceptsIndex base (.ofMerged id canonical merged) w.files between →
      RefusesNothing w →
      ∃ files symbols callEdges origins buildMs w',
        (x.build root true : IndexAction BuildOutcome).runOn w =
          (.ok (.success id files symbols callEdges origins buildMs), w') ∧
        ∃ loaded, (x.load root).runOn w' = (.ok (some loaded), w') ∧
          loaded.snapshot.symbols = (ProjectIndex.ofMerged id canonical merged).snapshot.symbols ∧
          loaded.snapshot.calls = (ProjectIndex.ofMerged id canonical merged).snapshot.calls ∧
          loaded.graph = (ProjectIndex.ofMerged id canonical merged).graph := by
  intro hclaim
  have hnone : (FileContent.mk "x".toUTF8 none).description? = none := by
    rw [FileContent.description?, fromUTF8?_toUTF8]
    decide +kernel
  have hstands : (damaged "x".toUTF8).fileAt? (placesIn ["i"] "p").metadata =
      some ⟨"x".toUTF8, none⟩ := rfl
  obtain ⟨merged, hmerged⟩ := exists_merge_oneFile (addsDocuments_damaged "x".toUTF8)
  obtain ⟨between, haccepts⟩ := exists_acceptsIndex_damaged _ merged fun m hm => by
    rw [hnone] at hm
    cases hm
  obtain ⟨files, symbols, callEdges, origins, buildMs, w', hbuild, -⟩ := hclaim smallIndexer
    { files := damaged "x".toUTF8 } ["i"] "/p" "p" (pathOf ["p"]) merged between
    (identify_damaged _) (liesAt_damaged _) hmerged haccepts fun _ => rfl
  obtain ⟨cause, v, hfailed⟩ := exists_build_failed (identify_damaged _) (liesAt_damaged _) hmerged
    haccepts rfl rfl hstands hnone
  rw [hfailed] at hbuild
  cases Except.ok.inj (Prod.mk.inj hbuild).1

end

end Indexer

end CodeAtlas
