import CodeAtlas.Proofs.Storage.Persist

/-!
# Where an index can be written

Writing an index makes two directories and puts three documents into them.  Any of these steps may
be refused; `IndexDirectory.AwaitsIndex` says of a tree of files that none of them will be: the
directories stand already, and nothing stands in the places of the documents.

What one step writes is in the way of none of the later ones (`FileTree.HasRoom.put`), so the index
is written as a whole (`Indexer.exists_persist`).
-/

namespace CodeAtlas

open CodeAtlas.Action

/-! ### The directories on the way to a place -/

namespace Path

variable {names : List String} {name : String}

/-- Plain names stand for components, the last one too. -/
lemma dropEmptyEnd_plain (h : ∀ name ∈ names, IsPlainName name) :
    dropEmptyEnd (names.map String.toList) = names.map String.toList := by
  unfold dropEmptyEnd
  rcases List.eq_nil_or_concat names with rfl | ⟨front, last, rfl⟩
  · rfl
  · have hlast := componentOfPiece?_plain (h last (by simp))
    simp [hlast]

/-- A place lies in the directory of the names before its last. -/
lemma parent?_ofNames (h : ∀ n ∈ names ++ [name], IsPlainName n) :
    parent? (ofNames (names ++ [name])) = some (ofNames names) := by
  have hpieces : splitAtClass (· == '/') (ofNames (names ++ [name])).toList =
      [] :: (names ++ [name]).map String.toList := by
    have hnames :=
      pieces_ofNames (List.append_ne_nil_of_right_ne_nil names (List.cons_ne_nil name []))
      fun n hn => (h n hn).2.2.2
    rw [pieces, Text.splitAt] at hnames
    have hchars := congrArg (List.map String.toList) hnames
    rw [List.map_map] at hchars
    simpa [Function.comp_def] using hchars
  have hplain : ∀ n ∈ names, IsPlainName n := fun n hn => h n (List.mem_append_left _ hn)
  have hfront : ((names ++ [name]).map String.toList).dropLast = names.map String.toList := by simp
  obtain ⟨piece, pieces, hcons⟩ : ∃ piece pieces,
      (names ++ [name]).map String.toList = piece :: pieces :=
    List.exists_cons_of_ne_nil (by simp)
  unfold parent?
  rw [hpieces]
  simp only [dropEmptyEnd_plain h]
  rw [hcons]
  simp only [← hcons, hfront, dropEmptyEnd_plain hplain]
  cases names with
  | nil => rfl
  | cons first rest => simp [joinPieces, ofNames]

/-- The way up from a place begins with the place itself. -/
lemma pathsUpward_ofNames (h : ∀ n ∈ names, IsPlainName n) :
    ∃ above, FileTree.pathsUpward (ofNames names) = ofNames names :: above := by
  have htexts : (names.map Component.name).map Component.text = names := by
    rw [List.map_map]
    exact List.map_id names
  rw [FileTree.pathsUpward, components_ofNames h, List.length_cons, List.range_succ_eq_map,
    List.map_cons, Nat.sub_zero, ← List.length_cons, List.take_length, ofComponents, joinComponents,
    htexts]
  exact ⟨_, rfl⟩

end Path

namespace FileTree

variable {t : FileTree} {place directory directory' : Place} {name name' : String}

/-- The path of a place is joined from that of the directory around it. -/
lemma join_pathOf (h : ∀ n ∈ place ++ [name], Path.IsPlainName n) :
    Path.join (pathOf place) name = pathOf (place ++ [name]) := by
  have hjoin := Path.join_ofNames place (List.cons_ne_nil name [])
    (fun n hn => h n (List.mem_append_left _ hn)) fun n hn => h n (List.mem_append_right _ hn)
  simpa [pathOf] using hjoin

/-- The directory that stands already is not made again. -/
lemma makeDirectory_pathOf (hplace : IsWritable place) (hdirs : t.Reaches place)
    (hdir : t.entry? place = some .directory) :
    t.makeDirectory (pathOf place) = .error .exists := by
  rw [makeDirectory, locate_pathOf hplace hdirs (by simp [hdir])]
  simp only [hdir]

/-- The path of a directory leads to one. -/
lemma isDirectory_pathOf (hplace : IsWritable place) (hdirs : t.Reaches place)
    (hdir : t.entry? place = some .directory) : t.isDirectory (pathOf place) = true := by
  rw [isDirectory, lookup?, find?_pathOf hplace hdirs hdir (by simp)]

/-- A directory with all that are above it is there already if it stands. -/
lemma runOn_makeDirectories (hplace : IsWritable place) (hdirs : t.Reaches place)
    (hdir : t.entry? place = some .directory) :
    (Storage.makeDirectories (pathOf place)).runOn t = (.ok (), t) := by
  rw [Storage.makeDirectories, runOn_adapt_eq_ok_iff, makeDirectories]
  obtain ⟨above, hupward⟩ := Path.pathsUpward_ofNames hplace.plain
  rw [pathOf, hupward, makeFirst]
  have hexists := makeDirectory_pathOf hplace hdirs hdir
  have hthere := isDirectory_pathOf hplace hdirs hdir
  rw [pathOf] at hexists hthere
  simp only [runOn_bind, runOn_get, hexists, hthere, if_true, runOn_pure]

/-! ### Room for a document -/

/-- A document of a given name can be written into a directory, where it may replace another one. -/
structure Takes (t : FileTree) (directory : Place) (name : String) : Prop where
  reaches : t.Reaches (directory ++ [name])
  entry : t.entry? (directory ++ [name]) = none ∨
    ∃ content, t.entry? (directory ++ [name]) = some (.file content)
  writable : IsWritable (directory ++ [name])

namespace Takes

/-- The directory stands. -/
lemma stands (h : t.Takes directory name) : t.entry? directory = some .directory := h.reaches.parent

/-- Neither a directory nor a link is in the way. -/
lemma ne (h : t.Takes directory name) : t.entry? (directory ++ [name]) ≠ some .directory ∧
    ∀ target, t.entry? (directory ++ [name]) ≠ some (.link target) := by
  rcases h.entry with hnone | ⟨content, hfile⟩
  · simp [hnone]
  · simp [hfile]

/-- The way to the directory leads through directories. -/
lemma reaches_directory (h : t.Takes directory name) : t.Reaches directory :=
  fun above below hplace _ => h.reaches above (below ++ [name]) (by rw [hplace, List.append_assoc])
    (by simp)

/-- A document adds itself to the tree. -/
lemma grows_put (h : t.Takes directory name) (content : FileContent) :
    Grows {directory ++ [name]} t (t.put (directory ++ [name]) (.file content)) :=
  Grows.put_file h.ne.1 h.ne.2

/-- Writing a document takes no room away from any other. -/
lemma put (h : t.Takes directory name) (h' : t.Takes directory' name') (content : FileContent) :
    (t.put (directory' ++ [name']) (.file content)).Takes directory name where
  reaches above below hplace hne :=
    (h'.grows_put content).directory above (h.reaches above below hplace hne)
  entry := by
    by_cases heq : directory ++ [name] = directory' ++ [name']
    · rw [heq, entry?_put_self (by simp)]
      exact Or.inr ⟨content, rfl⟩
    · rw [entry?_put_of_ne _ heq]
      exact h.entry
  writable := h.writable

/-- The directory need not be made. -/
lemma runOn_makeDirectories (h : t.Takes directory name) :
    (Storage.makeDirectories (pathOf directory)).runOn t = (.ok (), t) :=
  FileTree.runOn_makeDirectories h.writable.of_append h.reaches_directory h.stands

/-- The document is written. -/
lemma runOn_writeDocument (h : t.Takes directory name) (document : Json) :
    (Storage.writeDocument (pathOf (directory ++ [name])) document).runOn t =
      (.ok (), t.put (directory ++ [name]) (.file ⟨document.pretty.toUTF8, none⟩)) := by
  have hbeside : Storage.besideOf t (pathOf directory) = .ok () := by
    rw [Storage.besideOf,
      find?_pathOf h.writable.of_append h.reaches_directory h.stands (by simp)]
  have hparent : (Path.parent? (pathOf (directory ++ [name]))).getD "." = pathOf directory := by
    rw [pathOf, Path.parent?_ofNames h.writable.plain, Option.getD_some, pathOf]
  have hread : (Action.read (StorageError.io (pathOf directory))
      (Storage.besideOf · (pathOf directory))).runOn t = (.ok (), t) :=
    runOn_read_eq_ok_iff.mpr ⟨hbeside, rfl⟩
  have hreplace : ∀ content, t.replace (pathOf (directory ++ [name])) content =
      .ok (t.put (directory ++ [name]) (.file content)) := by
    intro content
    rw [replace, locate_pathOf h.writable h.reaches h.ne.2]
    rcases h.entry with hnone | ⟨content', hfile⟩
    · simp only [hnone]
    · simp only [hfile]
  unfold Storage.writeDocument
  rw [hparent]
  exact (runOn_bind_of_ok hread).trans (runOn_change_eq_ok_iff.mpr (hreplace _))

end Takes

/-- A document of a given name can be written into a directory. -/
structure HasRoom (t : FileTree) (directory : Place) (name : String) : Prop where
  stands : t.entry? directory = some .directory
  vacant : t.entry? (directory ++ [name]) = none
  writable : IsWritable (directory ++ [name])

namespace HasRoom

/-- Another document takes no room away. -/
lemma put (h : t.HasRoom directory name) (h' : t.HasRoom directory' name') (e : FileEntry)
    (hne : directory ++ [name] ≠ directory' ++ [name']) :
    (t.put (directory' ++ [name']) e).HasRoom directory name where
  stands := by
    rw [entry?_put_of_ne, h.stands]
    intro heq
    have hdir := h.stands
    rw [heq, h'.vacant] at hdir
    cases hdir
  vacant := by rw [entry?_put_of_ne e hne, h.vacant]
  writable := h.writable

/-- The names on the way to the directory are as good as that of the document. -/
lemma isWritable (h : t.HasRoom directory name) (hwf : t.WellFormed) : IsWritable directory :=
  hwf.writable directory _ h.stands

/-- The way to the document leads through directories. -/
lemma reaches (h : t.HasRoom directory name) (hwf : t.WellFormed) :
    t.Reaches (directory ++ [name]) :=
  (hwf.reaches h.stands).append_name h.stands

/-- Where there is room for a document it can be written. -/
lemma takes (h : t.HasRoom directory name) (hwf : t.WellFormed) : t.Takes directory name :=
  ⟨h.reaches hwf, Or.inl h.vacant, h.writable⟩

/-- A document is written where there is room for it. -/
lemma runOn_writeDocument (h : t.HasRoom directory name) (hwf : t.WellFormed) (document : Json) :
    (Storage.writeDocument (pathOf (directory ++ [name])) document).runOn t =
      (.ok (), t.put (directory ++ [name]) (.file ⟨document.pretty.toUTF8, none⟩)) :=
  (h.takes hwf).runOn_writeDocument document

/-- Nothing is found where there is room. -/
lemma exists?_eq_false (h : t.HasRoom directory name) (hwf : t.WellFormed) :
    t.exists? (pathOf (directory ++ [name])) = false := by
  have hfind : t.find? (pathOf (directory ++ [name])) = .error .notFound := by
    rw [find?, locate_pathOf h.writable (h.reaches hwf) (by simp [h.vacant])]
    simp only [h.vacant]
  rw [FileTree.exists?, lookup?, hfind]
  rfl

end HasRoom

end FileTree

/-! ### Room for an index -/

open FileTree

/-- The directories of an index stand, and there is room in them for its documents. -/
structure IndexDirectory.AwaitsIndex (d : IndexDirectory) (t : FileTree) (base : Place)
    (id : String) : Prop where
  path : d.path = pathOf base
  wellFormed : t.WellFormed
  symbols : t.HasRoom (base ++ ["projects", id]) "symbols.json"
  graph : t.HasRoom (base ++ ["projects", id]) "call_graph.json"
  metadata : t.HasRoom (base ++ ["meta"]) (id ++ ".json")

namespace IndexDirectory

/-- The name of the document of a description is plain if the name of its project is. -/
lemma isPlainName_metadata {id : String} (hid : Path.IsPlainName id) :
    Path.IsPlainName (id ++ ".json") := by
  refine IsDocumentName.isPlainName ⟨id, rfl⟩ ?_
  rw [String.toList_append, List.mem_append]
  rintro (h | h)
  · exact hid.2.2.2 h
  · revert h
    decide

/-- Where the documents of an index go if the path of the index directory is that of a place. -/
lemma paths_eq {d : IndexDirectory} {base : Place} {id : String} (hpath : d.path = pathOf base)
    (hbase : ∀ name ∈ base, Path.IsPlainName name) (hid : Path.IsPlainName id) :
    d.dataDirectory id = pathOf (base ++ ["projects", id]) ∧
    (d.snapshots id).symbolsPath = pathOf (base ++ ["projects", id] ++ ["symbols.json"]) ∧
    (d.snapshots id).graphPath = pathOf (base ++ ["projects", id] ++ ["call_graph.json"]) ∧
    d.metadataDirectory = pathOf (base ++ ["meta"]) ∧
    d.metadataPath id = pathOf (base ++ ["meta"] ++ [id ++ ".json"]) := by
  have hplain : ∀ names : List String, (∀ name ∈ names, Path.IsPlainName name) →
      ∀ name ∈ base ++ names, Path.IsPlainName name := fun names hnames name hname =>
    (List.mem_append.mp hname).elim (hbase name) (hnames name)
  have hprojects : ∀ name ∈ base ++ ["projects"] ++ [id], Path.IsPlainName name := by
    rw [List.append_assoc]
    refine hplain _ ?_
    simp only [List.cons_append, List.nil_append, List.forall_mem_cons]
    exact ⟨by decide, hid, by simp⟩
  have hdata : d.dataDirectory id = pathOf (base ++ ["projects", id]) := by
    rw [dataDirectory, projectsDirectory, hpath, join_pathOf (hplain _ (by decide)),
      join_pathOf hprojects, List.append_assoc]
    rfl
  have hbelow : ∀ name, Path.IsPlainName name →
      ∀ n ∈ base ++ ["projects", id] ++ [name], Path.IsPlainName n := by
    intro name hname
    rw [List.append_assoc]
    refine hplain _ ?_
    simp only [List.cons_append, List.nil_append, List.forall_mem_cons]
    exact ⟨by decide, hid, hname, by simp⟩
  have hmeta : d.metadataDirectory = pathOf (base ++ ["meta"]) := by
    rw [metadataDirectory, hpath, join_pathOf (hplain _ (by decide))]
  refine ⟨hdata, ?_, ?_, hmeta, ?_⟩
  · rw [snapshots, SnapshotDirectory.symbolsPath, hdata, join_pathOf (hbelow _ (by decide))]
  · rw [snapshots, SnapshotDirectory.graphPath, hdata, join_pathOf (hbelow _ (by decide))]
  · rw [metadataPath, hmeta, extension, join_pathOf]
    rw [List.append_assoc]
    refine hplain _ ?_
    simp only [List.cons_append, List.nil_append, List.forall_mem_cons]
    exact ⟨by decide, isPlainName_metadata hid, by simp⟩

/-- Snapshots are saved where their documents can be written, which leaves the description alone. -/
lemma exists_save_of_takes {d : IndexDirectory} {base : Place} {id : String} {t : FileTree}
    (hpath : d.path = pathOf base) (hsymbols : t.Takes (base ++ ["projects", id]) "symbols.json")
    (hgraph : t.Takes (base ++ ["projects", id]) "call_graph.json")
    (hmetadata : t.Takes (base ++ ["meta"]) (id ++ ".json")) (snapshot : Snapshot)
    (graph : CallGraph) : ∃ t', ((d.snapshots id).save snapshot graph).runOn t = (.ok (), t') ∧
      t'.Takes (base ++ ["meta"]) (id ++ ".json") ∧
      t'.entry? (base ++ ["meta"] ++ [id ++ ".json"]) =
        t.entry? (base ++ ["meta"] ++ [id ++ ".json"]) := by
  have hplain := hsymbols.writable.of_append.plain
  obtain ⟨hdataPath, hsymbolsPath, hgraphPath, -, -⟩ :=
    paths_eq hpath (fun name hname => hplain name (List.mem_append_left _ hname))
      (hplain id (by simp))
  have hgraph₁ := hgraph.put hsymbols ⟨snapshot.toJson.pretty.toUTF8, none⟩
  refine ⟨_, ?_, (hmetadata.put hsymbols _).put hgraph₁ ⟨graph.toJson.pretty.toUTF8, none⟩, ?_⟩
  · unfold SnapshotDirectory.save
    rw [hsymbolsPath, hgraphPath, snapshots, hdataPath]
    refine (runOn_bind_of_ok hsymbols.runOn_makeDirectories).trans ?_
    refine (runOn_bind_of_ok (hsymbols.runOn_writeDocument _)).trans ?_
    exact hgraph₁.runOn_writeDocument _
  · rw [entry?_put_of_ne _ (by simp), entry?_put_of_ne _ (by simp)]

/-- A description is saved where its document can be written. -/
lemma exists_save_metadata_of_takes {d : IndexDirectory} {base : Place} {t : FileTree}
    {m : IndexMetadata} (hpath : d.path = pathOf base) (hid : Path.IsPlainName m.projectId)
    (h : t.Takes (base ++ ["meta"]) (m.projectId ++ ".json")) :
    ∃ t', (d.save m).runOn t = (.ok (), t') := by
  have hplain := h.writable.of_append.plain
  obtain ⟨-, -, -, hmetaPath, hmetadataPath⟩ :=
    paths_eq hpath (fun name hname => hplain name (List.mem_append_left _ hname)) hid
  unfold save
  rw [hmetaPath, hmetadataPath]
  exact ⟨_, (runOn_bind_of_ok h.runOn_makeDirectories).trans (h.runOn_writeDocument _)⟩

end IndexDirectory

namespace IndexDirectory.AwaitsIndex

variable {d : IndexDirectory} {t : FileTree} {base : Place} {id : String}

/-- Where the documents of an index go. -/
lemma paths_eq (h : d.AwaitsIndex t base id) :
    d.dataDirectory id = pathOf (base ++ ["projects", id]) ∧
    (d.snapshots id).symbolsPath = pathOf (base ++ ["projects", id] ++ ["symbols.json"]) ∧
    (d.snapshots id).graphPath = pathOf (base ++ ["projects", id] ++ ["call_graph.json"]) ∧
    d.metadataDirectory = pathOf (base ++ ["meta"]) ∧
    d.metadataPath id = pathOf (base ++ ["meta"] ++ [id ++ ".json"]) := by
  have hplain := (h.symbols.isWritable h.wellFormed).plain
  exact IndexDirectory.paths_eq h.path
    (fun name hname => hplain name (List.mem_append_left _ hname))
    (hplain id (by simp))

/-- Both snapshots are written, and there is still room for the description. -/
lemma exists_save_snapshots (h : d.AwaitsIndex t base id) (snapshot : Snapshot)
    (graph : CallGraph) : ∃ t', ((d.snapshots id).save snapshot graph).runOn t = (.ok (), t') ∧
      t'.WellFormed ∧ t'.HasRoom (base ++ ["meta"]) (id ++ ".json") := by
  obtain ⟨hdata, hsymbols, hgraph, -, -⟩ := h.paths_eq
  have hmeta :
      ∀ name, base ++ ["meta"] ++ [id ++ ".json"] ≠ base ++ ["projects", id] ++ [name] := by
    intro name heq
    simpa using congrArg List.length heq
  have hwf := h.wellFormed.put (.file ⟨snapshot.toJson.pretty.toUTF8, none⟩) h.symbols.stands
    h.symbols.vacant h.symbols.writable
  have hroom := h.graph.put h.symbols (.file ⟨snapshot.toJson.pretty.toUTF8, none⟩)
    (by simp)
  refine ⟨_, ?_, hwf.put (.file ⟨graph.toJson.pretty.toUTF8, none⟩) hroom.stands hroom.vacant
    hroom.writable, (h.metadata.put h.symbols _ (hmeta _)).put hroom _ (hmeta _)⟩
  have hdirectory := runOn_makeDirectories (h.symbols.isWritable h.wellFormed)
    (h.wellFormed.reaches h.symbols.stands) h.symbols.stands
  unfold SnapshotDirectory.save
  rw [hsymbols, hgraph, snapshots, hdata]
  refine (runOn_bind_of_ok hdirectory).trans ?_
  refine (runOn_bind_of_ok (h.symbols.runOn_writeDocument h.wellFormed _)).trans ?_
  exact hroom.runOn_writeDocument hwf _

/-- The description is written. -/
lemma exists_save_metadata {m : IndexMetadata} (h : d.metadataDirectory = pathOf (base ++ ["meta"]))
    (hpath : d.metadataPath id = pathOf (base ++ ["meta"] ++ [id ++ ".json"]))
    (hwf : t.WellFormed) (hroom : t.HasRoom (base ++ ["meta"]) (id ++ ".json"))
    (hm : m.projectId = id) : ∃ t', (d.save m).runOn t = (.ok (), t') := by
  have hdirectory := runOn_makeDirectories (hroom.isWritable hwf) (hwf.reaches hroom.stands)
    hroom.stands
  unfold IndexDirectory.save
  rw [h, hm, hpath]
  exact ⟨_, (runOn_bind_of_ok hdirectory).trans (hroom.runOn_writeDocument hwf _)⟩

end IndexDirectory.AwaitsIndex

/-- What the store does without being refused is done to the files of the workspace. -/
lemma Workspace.runOn_storage {a : StorageAction α} {w : Workspace} {t : FileTree} {y : α}
    (h : a.runOn w.files = (.ok y, t)) :
    (Workspace.storage a).runOn w = (.ok y, { w with files := t }) :=
  runOn_within_eq_ok_iff.mpr ⟨t, runOn_adapt_eq_ok_iff.mpr h, rfl⟩

/-- An index is written if its snapshots are, the description that is there can be read, and the new
one is written. -/
lemma Indexer.runOn_persist {x : Indexer} {index : ProjectIndex} {w : Workspace} {t t' : FileTree}
    {change : IndexMetadata → IndexMetadata} {old : Option IndexMetadata}
    (hsnapshots : ((x.directory.snapshots index.projectId).save index.snapshot index.graph).runOn
      w.files = (.ok (), t))
    (hget : (x.directory.get? index.projectId).runOn t = (.ok old, t))
    (hsave : (x.directory.save (change (describe index old w.clock.now))).runOn t = (.ok (), t')) :
    (x.persist index change).runOn w =
      (.ok (change (describe index old w.clock.now)), { w with files := t' }) := by
  unfold persist
  refine (runOn_bind_of_ok (runOn_get w)).trans ?_
  refine (runOn_bind_of_ok (Workspace.runOn_storage hsnapshots)).trans ?_
  refine (runOn_bind_of_ok (Workspace.runOn_storage hget)).trans ?_
  exact runOn_bind_of_ok (Workspace.runOn_storage hsave)

/-- An index is written where there is room for it. -/
lemma Indexer.exists_persist {x : Indexer} {index : ProjectIndex} {w : Workspace} {base : Place}
    {change : IndexMetadata → IndexMetadata}
    (h : x.directory.AwaitsIndex w.files base index.projectId)
    (hchange : ∀ m, (change m).projectId = m.projectId) :
    ∃ m t, (x.persist index change).runOn w = (.ok m, { w with files := t }) := by
  obtain ⟨-, -, -, hmeta, hpath⟩ := h.paths_eq
  obtain ⟨t, hsnapshots, hwf, hroom⟩ := h.exists_save_snapshots index.snapshot index.graph
  have hnone : (x.directory.get? index.projectId).runOn t = (.ok none, t) := by
    unfold IndexDirectory.get?
    rw [runOn_bind_of_ok (runOn_get t), hpath, hroom.exists?_eq_false hwf]
    rfl
  obtain ⟨t', hsave⟩ := IndexDirectory.AwaitsIndex.exists_save_metadata (d := x.directory)
    (m := change (describe index none w.clock.now)) hmeta hpath hwf hroom (hchange _)
  exact ⟨_, t', runOn_persist hsnapshots hnone hsave⟩

end CodeAtlas
