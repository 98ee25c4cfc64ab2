import CodeAtlas.Proofs.Extraction.WellFormed
import CodeAtlas.Proofs.Index.Incremental
import CodeAtlas.Proofs.Storage.Saving

/-!
# What a full build finds

A full build lists the source files of a project, reads and extracts each of them and puts the
extractions together.  A file that cannot be extracted still counts as indexed, with nothing found
in it.  So a build without supplementary tools makes the index of the map `Indexer.sourceFiles`,
which gives for each listed file what is extracted from its content (`Indexer.indexes_of_rebuild`).

That needs no more of the tree of files than `FileTree.ReadableSources`: the root is a directory,
and each listed file has plain names and can be read by its path.
-/

namespace CodeAtlas

open CodeAtlas.Action Std

/-- The listed files of a directory can be read. -/
structure FileTree.ReadableSources (t : FileTree) (settings : IndexingSettings) (root : Place) :
    Prop where
  plain_root : ∀ name ∈ root, Path.IsPlainName name
  find_root : t.find? (pathOf root) = .ok (root, .directory)
  plain : ∀ names content, t.Listed settings root names content →
    ∀ name ∈ names, Path.IsPlainName name
  read : ∀ names content, t.Listed settings root names content →
    t.read (pathOf (root ++ names)) = .ok content

namespace FileTree

variable {t t' : FileTree} {settings : IndexingSettings} {root : Place} {names : List String}
  {content : FileContent}

/-- The listed files of a well-formed tree can be read. -/
lemma WellFormed.readableSources (hwf : t.WellFormed) (hroot : t.entry? root = some .directory) :
    t.ReadableSources settings root where
  plain_root := (hwf.writable root _ hroot).plain
  find_root := hwf.find?_pathOf hroot (by simp)
  plain names content hlisted name hname :=
    (hwf.writable _ _ hlisted.entry).plain name (List.mem_append_right root hname)
  read names content hlisted := hwf.read_pathOf hlisted.entry

/-- The listed files of a well-formed tree can still be read when documents were added that are no
source files. -/
lemma AddsDocuments.readableSources_of_sameSources (h : t.AddsDocuments t') (hwf : t.WellFormed)
    (hignore : t.PlainIgnoreFiles) (hsame : SameSources settings root t t')
    (hroot : t.entry? root = some .directory) : t'.ReadableSources settings root where
  plain_root := (hwf.writable root _ hroot).plain
  find_root := find?_pathOf (hwf.writable root _ hroot) (h.reaches (hwf.reaches hroot))
    (h.directory root hroot) (by simp)
  plain names content hlisted := (hwf.readableSources hroot).plain names content
    ((h.listed_iff_of_sameSources hwf hignore hsame hroot).mp hlisted)
  read names content hlisted := by
    have hfile := ((h.listed_iff_of_sameSources hwf hignore hsame hroot).mp hlisted).entry
    exact read_pathOf (hwf.writable _ _ hfile) (h.reaches (hwf.reaches hfile)) hlisted.entry

/-- The listed files of a well-formed tree can still be read when documents were added. -/
lemma AddsDocuments.readableSources (h : t.AddsDocuments t') (hwf : t.WellFormed)
    (hignore : t.PlainIgnoreFiles)
    (hjson : ∀ ext ∈ settings.extensions, Text.lowerAscii ext ≠ "json")
    (hroot : t.entry? root = some .directory) : t'.ReadableSources settings root :=
  h.readableSources_of_sameSources hwf hignore (h.sameSources hjson root) hroot

namespace ReadableSources

/-- The root is a directory. -/
lemma entry?_root (h : t.ReadableSources settings root) : t.entry? root = some .directory :=
  (find?_eq_ok_iff.mp h.find_root).2

/-- A listed file lies below the root. -/
lemma names_ne_nil (h : t.ReadableSources settings root)
    (hlisted : t.Listed settings root names content) : names ≠ [] := by
  rintro rfl
  have hfile := hlisted.entry
  rw [List.append_nil, h.entry?_root] at hfile
  cases hfile

/-- The path by which a listed file is found is that of its place. -/
lemma join_eq (h : t.ReadableSources settings root)
    (hlisted : t.Listed settings root names content) :
    Path.join (pathOf root) ("/".intercalate names) = pathOf (root ++ names) :=
  Path.join_ofNames root (h.names_ne_nil hlisted) h.plain_root (h.plain _ _ hlisted)

/-- A listed file is filed under its names. -/
lemma relative_eq (h : t.ReadableSources settings root)
    (hlisted : t.Listed settings root names content) :
    Path.relative (pathOf root) (pathOf (root ++ names)) = "/".intercalate names :=
  Path.relative_ofNames h.plain_root (h.plain _ _ hlisted) rfl

/-- The listed files are filed under different names. -/
lemma nodup_intercalate (h : t.ReadableSources settings root) :
    ((t.listedFiles settings root).map fun p => "/".intercalate p.1).Nodup := by
  have hlisted : ∀ {names}, names ∈ (t.listedFiles settings root).map Prod.fst →
      ∃ content, t.Listed settings root names content := by
    intro names hnames
    obtain ⟨p, hp, rfl⟩ := List.mem_map.mp hnames
    exact ⟨p.2, (mem_listedFiles h.entry?_root).mp hp⟩
  have hnodup : (((t.listedFiles settings root).map Prod.fst).map
      fun names => "/".intercalate names).Nodup := by
    refine (nodup_listedFiles t settings root).map_on fun names hnames names' hnames' heq => ?_
    obtain ⟨content, hn⟩ := hlisted hnames
    obtain ⟨content', hn'⟩ := hlisted hnames'
    exact Path.intercalate_inj (h.names_ne_nil hn) (h.names_ne_nil hn')
      (fun name hname => (h.plain _ _ hn name hname).2.2.2)
      (fun name hname => (h.plain _ _ hn' name hname).2.2.2) heq
  rwa [List.map_map] at hnodup

end ReadableSources

/-- What is merged of the files that a search finds is the same before and after documents were
added that are no source files. -/
lemma AddsDocuments.merge_eq (h : t.AddsDocuments t') (hwf : t.WellFormed)
    (hignore : t.PlainIgnoreFiles) (hsame : SameSources settings root t t')
    (hroot : t.entry? root = some .directory) (measurer : Measurer) (sources : List SymbolSource)
    (projectId : String) :
    t'.merge measurer sources projectId (pathOf root) (t'.walk settings (pathOf root)) =
      t.merge measurer sources projectId (pathOf root) (t.walk settings (pathOf root)) := by
  have hread : t.ReadableSources settings root := hwf.readableSources hroot
  have hread' := h.readableSources_of_sameSources hwf hignore hsame hroot
  have hextract : ∀ path ∈ t.walk settings (pathOf root),
      t'.extractFile measurer (pathOf root) path = t.extractFile measurer (pathOf root) path := by
    intro path hpath
    rw [(perm_walk hread.find_root).mem_iff, List.mem_map] at hpath
    obtain ⟨⟨names, content⟩, hmem, rfl⟩ := hpath
    have hlisted := (mem_listedFiles hroot).mp hmem
    have hlisted' := (h.listed_iff_of_sameSources hwf hignore hsame hroot).mpr hlisted
    rw [hread.join_eq hlisted, extractFile, extractFile, hread.read _ _ hlisted,
      hread'.read _ _ hlisted']
  have hextractions : (t.walk settings (pathOf root)).filterMap (fun path =>
      (t'.extractFile measurer (pathOf root) path).toOption) =
      (t.walk settings (pathOf root)).filterMap fun path =>
        (t.extractFile measurer (pathOf root) path).toOption :=
    List.filterMap_congr fun path hpath => congrArg Except.toOption (hextract path hpath)
  simp only [merge, h.walk_eq hwf hignore hsame hroot, hextractions]

end FileTree

/-! ### Building from the listed files -/

/-- Extractions that failed give nothing. -/
lemma flatMap_toOption (files : List (String × Except IndexError Extraction))
    (part : Extraction → List α) (hpart : part {} = []) :
    (files.filterMap fun p => p.2.toOption).flatMap part =
      (files.map fun p => p.2.toOption.getD {}).flatMap part := by
  induction files with
  | nil => rfl
  | cons p files ih =>
    obtain ⟨file, outcome⟩ := p
    rw [List.map_cons, List.flatMap_cons, ← ih]
    cases outcome with
    | error cause => simp [Except.toOption, hpart]
    | ok e => simp [Except.toOption]

/-- Files that could not be extracted are indexed as if nothing had been found in them. -/
lemma ProjectIndex.ofMerged_ofParts_toOption (projectId root : String)
    (files : List (String × Except IndexError Extraction)) :
    ofMerged projectId root (.ofParts (files.map Prod.fst)
        (files.filterMap fun p => p.2.toOption) []) =
      ofFiles projectId root (files.map fun p => (p.1, p.2.toOption.getD {})) := by
  have hsymbols := flatMap_toOption files Extraction.symbols rfl
  have hcalls := flatMap_toOption files Extraction.calls rfl
  have hincludes := flatMap_toOption files Extraction.includes rfl
  simp only [ofFiles, ofMerged, MergedExtraction.ofParts, foldl_append, List.map_map,
    List.foldl_nil, List.nil_append, List.append_nil, Function.comp_def, hsymbols, hcalls,
    hincludes]

namespace Indexer

variable {x : Indexer} {t : FileTree} {root : Place} {projectId : String}

/-- What is extracted from a content that is filed under some text; nothing if that fails. -/
def extractionOf (x : Indexer) (file : String) (content : FileContent) : Extraction :=
  (content.extract x.measurer file).toOption.getD {}

/-- The source files below a root with what is extracted from them. -/
def sourceFiles (x : Indexer) (t : FileTree) (root : Place) : SourceFiles :=
  .ofList ((t.listedFiles x.settings.indexing root).map fun p =>
    ("/".intercalate p.1, x.extractionOf ("/".intercalate p.1) p.2))

/-- A source file is one that is listed. -/
lemma getElem?_sourceFiles_iff (h : t.ReadableSources x.settings.indexing root) {file : String}
    {e : Extraction} :
    (x.sourceFiles t root)[file]? = some e ↔ ∃ names content,
      t.Listed x.settings.indexing root names content ∧ "/".intercalate names = file ∧
      x.extractionOf file content = e := by
  rw [sourceFiles, getElem?_ofList_eq_some_iff, List.mem_map]
  · simp only [Prod.exists, Prod.mk.injEq, FileTree.mem_listedFiles h.entry?_root]
    constructor
    · rintro ⟨names, content, hlisted, rfl, rfl⟩
      exact ⟨names, content, hlisted, rfl, rfl⟩
    · rintro ⟨names, content, hlisted, rfl, rfl⟩
      exact ⟨names, content, hlisted, rfl, rfl⟩
  · rw [List.map_map]
    exact h.nodup_intercalate

/-- A source file is looked up by the pieces of the text under which it is filed. -/
lemma getElem?_sourceFiles_eq_some_iff (h : t.ReadableSources x.settings.indexing root)
    {file : String} {e : Extraction} :
    (x.sourceFiles t root)[file]? = some e ↔ ∃ content,
      t.Listed x.settings.indexing root (Path.pieces file) content ∧
      x.extractionOf file content = e := by
  rw [getElem?_sourceFiles_iff h]
  constructor
  · rintro ⟨names, content, hlisted, rfl, rfl⟩
    refine ⟨content, ?_, rfl⟩
    rwa [Path.pieces_intercalate (h.names_ne_nil hlisted) fun name hname =>
      (h.plain _ _ hlisted name hname).2.2.2]
  · rintro ⟨content, hlisted, rfl⟩
    exact ⟨Path.pieces file, content, hlisted, Path.intercalate_pieces file, rfl⟩

/-- What is merged of the files that a search finds makes the index of the listed files. -/
lemma indexes_of_merge (h : t.ReadableSources x.settings.indexing root) (hsources : x.sources = [])
    (hwf : (x.sourceFiles t root).WellFormed) {merged : MergedExtraction}
    (hmerged : t.merge x.measurer x.sources projectId (FileTree.pathOf root)
      (t.walk x.settings.indexing (FileTree.pathOf root)) = .ok merged) :
    (ProjectIndex.ofMerged projectId (FileTree.pathOf root) merged).Indexes
      (x.sourceFiles t root) := by
  have hperm : ((t.walk x.settings.indexing (FileTree.pathOf root)).map fun path =>
      (Path.relative (FileTree.pathOf root) path,
        ((t.extractFile x.measurer (FileTree.pathOf root) path).toOption.getD {}))).Perm
      (x.sourceFiles t root).toList := by
    refine ((FileTree.perm_walk h.find_root).map _).trans ?_
    rw [List.map_map, sourceFiles]
    refine (List.Perm.of_eq (List.map_congr_left fun p hp => ?_)).trans (perm_toList_ofList ?_)
    · have hlisted := (FileTree.mem_listedFiles h.entry?_root).mp hp
      simp only [Function.comp, h.join_eq hlisted, h.relative_eq hlisted, FileTree.extractFile,
        h.read _ _ hlisted, extractionOf]
    · rw [List.map_map]
      exact h.nodup_intercalate
  have hindexes := ProjectIndex.indexes_ofFiles projectId (FileTree.pathOf root) hwf hperm
  unfold FileTree.merge at hmerged
  simp only [hsources, List.filterMap_nil] at hmerged
  split_ifs at hmerged
  have hsame := ProjectIndex.ofMerged_ofParts_toOption projectId (FileTree.pathOf root)
    ((t.walk x.settings.indexing (FileTree.pathOf root)).map fun path =>
      (Path.relative (FileTree.pathOf root) path,
        t.extractFile x.measurer (FileTree.pathOf root) path))
  simp only [List.map_map, List.filterMap_map, Function.comp_def] at hsame
  rw [← Except.ok.inj hmerged, hsame]
  exact ProjectIndex.indexes_ofFiles projectId (FileTree.pathOf root) hwf hperm

/-! ### Running a build -/

/-- Asking the document service leaves the files alone. -/
lemma keeps_ask (f : DocumentService → Except IndexError DocumentService) :
    Keeps Workspace.AddsDocuments (Workspace.ask f) :=
  Keeps.within (q := fun _ _ => True) (fun _ => trivial) fun w _ _ =>
    FileTree.AddsDocuments.refl w.files

/-- A workspace with another store behind its document service. -/
def withStore (w : Workspace) (store : DocumentStore) : Workspace :=
  { w with documents := { w.documents with store } }

/-- A call that is refused changes nothing, and others do to the store what they are to do. -/
lemma runOn_ask {c : DocumentCall} {change : DocumentStore → DocumentStore}
    {f : DocumentService → Except IndexError DocumentService}
    (hf : ∀ service, f service = service.call c change) (w : Workspace) :
    (Workspace.ask f).runOn w =
      match w.documents.refuses c with
      | some e => (.error e, w)
      | none => (.ok (), withStore w (change w.documents.store)) := by
  simp only [Workspace.ask, Action.within, runOn_ofRun, Action.change, hf, DocumentService.call]
  cases w.documents.refuses c <;> rfl

/-- A call is refused and nothing is changed, or it does to the store what it is to do. -/
lemma ask_cases {c : DocumentCall} {change : DocumentStore → DocumentStore}
    {f : DocumentService → Except IndexError DocumentService}
    (hf : ∀ service, f service = service.call c change) {w w' : Workspace}
    {outcome : Except IndexError Unit} (h : (Workspace.ask f).runOn w = (outcome, w')) :
    (∃ e, w.documents.refuses c = some e ∧ outcome = .error e ∧ w' = w) ∨
      (w.documents.refuses c = none ∧ outcome = .ok () ∧
        w' = withStore w (change w.documents.store)) := by
  rw [runOn_ask hf] at h
  cases hrefuses : w.documents.refuses c with
  | some e =>
    simp only [hrefuses] at h
    obtain ⟨rfl, rfl⟩ := Prod.mk.inj h
    exact Or.inl ⟨e, rfl, rfl, rfl⟩
  | none =>
    simp only [hrefuses] at h
    obtain ⟨rfl, rfl⟩ := Prod.mk.inj h
    exact Or.inr ⟨rfl, rfl, rfl⟩

/-- Making an index in memory leaves the files alone. -/
lemma keeps_assemble (x : Indexer) (projectId root : String) :
    Keeps Workspace.AddsDocuments (x.assemble projectId root) := by
  refine Keeps.bind Keeps.get fun w => Keeps.bind (Keeps.read _ _) fun merged => ?_
  exact Keeps.bind (keeps_ask _) fun _ => Keeps.bind (keeps_ask _) fun _ => Keeps.pure _

/-- A full build adds the documents of the index, whatever comes of it. -/
lemma keeps_rebuild (x : Indexer) (projectId root : String) :
    Keeps Workspace.AddsDocuments (x.rebuild projectId root) := by
  refine Keeps.bind ?_ fun _ => Keeps.pure _
  refine Keeps.bind (x.keeps_assemble projectId root) fun p => ?_
  refine Keeps.bind Keeps.get fun w => ?_
  exact Keeps.bind (x.keeps_persist _ _) fun m => Keeps.pure _

/-- An index is made in memory from what the files and the tools give, if the document service does
not refuse to be refilled. -/
lemma runOn_assemble (x : Indexer) (projectId root : String) (w : Workspace) :
    (x.assemble projectId root).runOn w =
      match w.files.merge x.measurer x.sources projectId root
        (w.files.walk x.settings.indexing root) with
      | .error e => (.error e, w)
      | .ok merged =>
        match w.documents.refuses .clear with
        | some e => (.error e, w)
        | none =>
          match w.documents.refuses .upsert with
          | some e => (.error e, withStore w (w.documents.store.clear projectId))
          | none => (.ok (.ofMerged projectId root merged, merged.origins),
              withStore w ((w.documents.store.clear projectId).upsert
                (ProjectIndex.ofMerged projectId root merged).documents)) := by
  have hclear := runOn_ask (f := (·.clear projectId)) (c := .clear) (fun _ => rfl) w
  unfold assemble
  rw [runOn_bind_of_ok (runOn_get w), runOn_bind, Action.read, runOn_ofRun]
  cases w.files.merge x.measurer x.sources projectId root
      (w.files.walk x.settings.indexing root) with
  | error e => rfl
  | ok merged =>
    dsimp only
    rw [runOn_bind, hclear]
    cases w.documents.refuses .clear with
    | some e => rfl
    | none =>
      have hupsert := runOn_ask (c := .upsert)
        (f := (·.upsert (ProjectIndex.ofMerged projectId root merged).documents)) (fun _ => rfl)
        (withStore w (w.documents.store.clear projectId))
      have hrefuses : (withStore w (w.documents.store.clear projectId)).documents.refuses =
        w.documents.refuses := rfl
      dsimp only
      rw [runOn_bind, hupsert, hrefuses]
      cases w.documents.refuses .upsert <;> rfl

/-- An index that is made in memory is that of the files that a search finds, and the document
service was filled with its documents. -/
lemma exists_merge_of_assemble {projectId root : String} {w w' : Workspace} {index : ProjectIndex}
    {origins : List Origin} (h : (x.assemble projectId root).runOn w = (.ok (index, origins), w')) :
    (∃ merged, w.files.merge x.measurer x.sources projectId root
        (w.files.walk x.settings.indexing root) = .ok merged ∧
      index = ProjectIndex.ofMerged projectId root merged) ∧
      w' = withStore w ((w.documents.store.clear projectId).upsert index.documents) := by
  rw [runOn_assemble] at h
  cases hmerged : w.files.merge x.measurer x.sources projectId root
      (w.files.walk x.settings.indexing root) with
  | error e => simp [hmerged] at h
  | ok merged =>
    simp only [hmerged] at h
    split at h
    · cases (Prod.mk.inj h).1
    · split at h
      · cases (Prod.mk.inj h).1
      · obtain ⟨hvalue, rfl⟩ := Prod.mk.inj h
        obtain ⟨rfl, -⟩ := Prod.mk.inj (Except.ok.inj hvalue)
        exact ⟨⟨merged, rfl, rfl⟩, rfl⟩

/-- After an index was made in memory it is written to disk. -/
lemma runOn_rebuildWithMetadata {projectId root : String} {w between w' : Workspace}
    {index : ProjectIndex} {origins : List Origin} {outcome : Except IndexError IndexMetadata}
    (hassemble : (x.assemble projectId root).runOn w = (.ok (index, origins), between))
    (hpersist : (x.persist index fun m => { m with
      origins := origins.map Origin.name, buildMs := between.clock.elapsedMs }).runOn between =
        (outcome, w')) :
    (x.rebuildWithMetadata projectId root).runOn w =
      (outcome.map fun m => (index, origins, m), w') := by
  unfold rebuildWithMetadata
  refine (runOn_bind_of_ok hassemble).trans ?_
  refine (runOn_bind_of_ok (runOn_get between)).trans ?_
  rw [runOn_bind, hpersist]
  cases outcome <;> rfl

/-- A full build that succeeds makes an index in memory and writes it to disk. -/
lemma exists_persist_of_rebuild {projectId root : String} {w w' : Workspace} {index : ProjectIndex}
    (h : (x.rebuild projectId root).runOn w = (.ok index, w')) :
    ∃ origins elapsed m between,
      (x.assemble projectId root).runOn w = (.ok (index, origins), between) ∧
      (x.persist index fun m =>
        { m with origins := origins.map Origin.name, buildMs := elapsed }).runOn between =
          (.ok m, w') := by
  unfold rebuild rebuildWithMetadata at h
  simp only [runOn_bind_eq_ok_iff, runOn_pure, runOn_get, Prod.mk.injEq, Except.ok.injEq] at h
  obtain ⟨_, _, ⟨⟨index, origins⟩, _, hassemble, _, between, ⟨rfl, rfl⟩, m, _, hpersist, rfl, rfl⟩,
    rfl, rfl⟩ := h
  exact ⟨origins, _, m, _, hassemble, hpersist⟩

/-- A full build that succeeds gives the index of the files that a search finds. -/
lemma exists_merge_of_rebuild {projectId root : String} {w w' : Workspace} {index : ProjectIndex}
    (h : (x.rebuild projectId root).runOn w = (.ok index, w')) :
    ∃ merged, w.files.merge x.measurer x.sources projectId root
        (w.files.walk x.settings.indexing root) = .ok merged ∧
      index = ProjectIndex.ofMerged projectId root merged := by
  obtain ⟨origins, elapsed, m, between, hassemble, -⟩ := exists_persist_of_rebuild h
  exact (exists_merge_of_assemble hassemble).1

/-- A full build that succeeds gives an index of the source files. -/
lemma indexes_of_rebuild {w w' : Workspace} {index : ProjectIndex}
    (h : (x.rebuild projectId (FileTree.pathOf root)).runOn w = (.ok index, w'))
    (hread : w.files.ReadableSources x.settings.indexing root) (hsources : x.sources = [])
    (hwf : (x.sourceFiles w.files root).WellFormed) :
    index.Indexes (x.sourceFiles w.files root) ∧ index.projectId = projectId ∧
      index.root = FileTree.pathOf root := by
  obtain ⟨merged, hmerged, rfl⟩ := exists_merge_of_rebuild h
  exact ⟨indexes_of_merge hread hsources hwf hmerged, rfl, rfl⟩

/-! ### When a build succeeds -/

/-- Merging succeeds if there is a symbol in one of the listed files. -/
lemma exists_merge (h : t.ReadableSources x.settings.indexing root) {names : List String}
    {content : FileContent} {e : Extraction}
    (hlisted : t.Listed x.settings.indexing root names content)
    (he : content.extract x.measurer ("/".intercalate names) = .ok e) (hsymbols : e.symbols ≠ []) :
    ∃ merged, t.merge x.measurer x.sources projectId (FileTree.pathOf root)
      (t.walk x.settings.indexing (FileTree.pathOf root)) = .ok merged := by
  have hpath : Path.join (FileTree.pathOf root) ("/".intercalate names) ∈
      t.walk x.settings.indexing (FileTree.pathOf root) := by
    rw [(FileTree.perm_walk h.find_root).mem_iff, List.mem_map]
    exact ⟨(names, content), (FileTree.mem_listedFiles h.entry?_root).mpr hlisted, rfl⟩
  have hextract : t.extractFile x.measurer (FileTree.pathOf root)
      (Path.join (FileTree.pathOf root) ("/".intercalate names)) = .ok e := by
    rw [h.join_eq hlisted, FileTree.extractFile, h.read _ _ hlisted]
    simp only [h.relative_eq hlisted, he]
  have hmem : e ∈ (t.walk x.settings.indexing (FileTree.pathOf root)).filterMap fun path =>
      (t.extractFile x.measurer (FileTree.pathOf root) path).toOption :=
    List.mem_filterMap.mpr ⟨_, hpath, congrArg Except.toOption hextract⟩
  unfold FileTree.merge
  refine ⟨_, if_neg ?_⟩
  -- Were the merged symbols empty, those of the listed file would be.
  simp only [List.isEmpty_iff, MergedExtraction.ofParts, ProjectIndex.foldl_append,
    List.append_eq_nil_iff, List.flatMap_eq_nil_iff]
  exact fun hempty => hsymbols (hempty.1.2 e hmem)

/-- The document service of a workspace refuses nothing. -/
def RefusesNothing (w : Workspace) : Prop := ∀ c, w.documents.refuses c = none

/-- A service that refuses nothing does what it is asked to do, and goes on so. -/
lemma exists_ask {w : Workspace} (h : RefusesNothing w) {c : DocumentCall}
    {change : DocumentStore → DocumentStore}
    {f : DocumentService → Except IndexError DocumentService}
    (hf : ∀ service, f service = service.call c change) :
    ∃ documents, (Workspace.ask f).runOn w = (.ok (), { w with documents }) ∧
      RefusesNothing { w with documents } := by
  have hcall : f w.documents =
      .ok { w.documents with store := change w.documents.store } := by
    rw [hf, DocumentService.call, h c]
  exact ⟨_, runOn_within_eq_ok_iff.mpr ⟨_, runOn_change_eq_ok_iff.mpr hcall, rfl⟩, h⟩

/-- A full build succeeds if merging does, the document service refuses nothing and there is room
for the index. -/
lemma exists_rebuild {w : Workspace} {base : Place} {merged : MergedExtraction} {root : String}
    (hmerged : w.files.merge x.measurer x.sources projectId root
      (w.files.walk x.settings.indexing root) = .ok merged) (hdocuments : RefusesNothing w)
    (hawaits : x.directory.AwaitsIndex w.files base projectId) :
    ∃ w', (x.rebuild projectId root).runOn w =
      (.ok (ProjectIndex.ofMerged projectId root merged), w') := by
  have hassemble := x.runOn_assemble projectId root w
  simp only [hmerged, hdocuments .clear, hdocuments .upsert] at hassemble
  let index := ProjectIndex.ofMerged projectId root merged
  let between := withStore w ((w.documents.store.clear projectId).upsert index.documents)
  obtain ⟨m, t, hpersist⟩ : ∃ m t, (x.persist index fun m =>
      { m with origins := merged.origins.map Origin.name, buildMs := w.clock.elapsedMs }).runOn
        between = (.ok m, { between with files := t }) :=
    x.exists_persist hawaits fun _ => rfl
  have hbuild : (x.rebuildWithMetadata projectId root).runOn w =
      (.ok (index, merged.origins, m), _) :=
    runOn_rebuildWithMetadata hassemble hpersist
  exact ⟨_, runOn_bind_of_ok hbuild⟩

end Indexer

end CodeAtlas
