import CodeAtlas.Index.Build
import CodeAtlas.Proofs.Action
import CodeAtlas.Proofs.Files.Documents
import CodeAtlas.Proofs.Files.Growth

/-!
# Writing an index adds documents

An index is written to disk in several steps, any of which may fail, and what was done before stays
done.  Each step makes directories or puts a document, so whatever comes of it, the tree of files is
the one before with documents added (`Indexer.keeps_persist`).

A document is put where the last piece of its path leads, a link there not being followed, and the
last piece of a path that ends in `.json` ends so too (`isDocument_of_locate`).
-/

namespace CodeAtlas

open CodeAtlas.Action

/-! ### The last piece of a path -/

/-- The last piece of the path of a document is the name of a document. -/
lemma exists_pieces_of_isDocumentName {path : String} (h : IsDocumentName path) :
    ∃ front name, Path.pieces path = front ++ [name] ∧ IsDocumentName name ∧
      '/' ∉ name.toList := by
  obtain ⟨stem, rfl⟩ := h
  have hnone : ∀ d ∈ ".json".toList, (d == '/') = false := by simp
  obtain ⟨front, last, hcut, hcut'⟩ :=
    splitAtClass_append_of_none (p := (· == '/')) stem.toList hnone
  refine ⟨front.map String.ofList, String.ofList (last ++ ".json".toList), ?_, ?_, ?_⟩
  · rw [Path.pieces, Text.splitAt, String.toList_append, hcut', List.map_append, List.map_singleton]
  · exact ⟨String.ofList last, by rw [String.ofList_append, String.ofList_toList]⟩
  · rw [String.toList_ofList]
    intro hslash
    have hnone := not_of_mem_splitAtClass (hcut' ▸ List.mem_append_right front
      (List.mem_singleton_self (last ++ ".json".toList))) '/' hslash
    cases hnone

/-- The file name of a path is a plain name. -/
lemma Path.isPlainName_of_fileName? {path name : String} (h : fileName? path = some name) :
    IsPlainName name := by
  have hmem := List.mem_of_getLast? (getLast?_pieces_of_fileName? h)
  obtain ⟨piece, hpiece, hname⟩ := List.mem_filterMap.mp hmem
  rcases componentOfPiece?_cases piece with ⟨-, hnone⟩ | ⟨-, hup⟩ | ⟨hdot, hup, hsome⟩
  · rw [hnone] at hname
    cases hname
  · rw [hup] at hname
    cases hname
  · rw [hsome] at hname
    obtain rfl := Component.name.inj (Option.some.inj hname)
    refine ⟨fun h => hdot (Or.inl h), fun h => hdot (Or.inr h), hup, fun hslash => ?_⟩
    obtain ⟨chars, hchars, rfl⟩ := List.mem_map.mp hpiece
    rw [String.toList_ofList] at hslash
    exact absurd (not_of_mem_splitAtClass hchars '/' hslash) (by decide)

/-- The path of a document below a directory is that of a document. -/
lemma isDocumentName_join (p : String) {q : String} (h : IsDocumentName q) :
    IsDocumentName (Path.join p q) := by
  obtain ⟨stem, rfl⟩ := h
  unfold Path.join
  split_ifs
  · exact ⟨stem, rfl⟩
  · exact ⟨p ++ stem, by rw [String.append_assoc]⟩
  · exact ⟨p ++ "/" ++ stem, by simp only [String.append_assoc]⟩

namespace FileTree

variable {t t' : FileTree}

/-- The path of a document leads to the place of one. -/
lemma isDocument_of_locate {path : String} {place : Place} (hpath : IsDocumentName path)
    (h : t.locate path false = .ok place) : IsDocument place := by
  obtain ⟨front, name, hpieces, hname, hslash⟩ := exists_pieces_of_isDocumentName hpath
  have hwalk := locatePieces_of_locate h
  rw [hpieces] at hwalk
  obtain ⟨base, left, hbase⟩ : ∃ base left, t.locatePieces false left base [name] = .ok place := by
    have happend := locatePieces_append t maxLinks
      (if Path.isAbsolute path then [] else t.workingDirectory) front
    cases hfront : t.locatePieces true maxLinks
        (if Path.isAbsolute path then [] else t.workingDirectory) front with
    | error e =>
      rw [happend.2 e hfront false [name] (by simp)] at hwalk
      cases hwalk
    | ok base =>
      obtain ⟨left, hleft⟩ := happend.1 base hfront
      exact ⟨base, left, hleft false [name] (by simp) ▸ hwalk⟩
  rw [locatePieces_plainName (hname.isPlainName hslash) hbase fun h => absurd h (by simp)]
  exact ⟨name, List.getLast?_concat, hname, hslash⟩

/-- A directory is made where nothing stands. -/
lemma addsDocuments_makeDirectory {path : String} (h : t.makeDirectory path = .ok t') :
    t.AddsDocuments t' := by
  unfold makeDirectory at h
  cases hlocate : t.locate path false with
  | error e => simp [hlocate] at h
  | ok place =>
    cases hentry : t.entry? place with
    | some e => simp [hlocate, hentry] at h
    | none =>
      simp only [hlocate, hentry, Except.ok.injEq] at h
      exact h ▸ AddsDocuments.put_directory hentry

/-- A document takes the place of nothing but a file or a link. -/
lemma addsDocuments_replace {path : String} {content : FileContent} (hpath : IsDocumentName path)
    (h : t.replace path content = .ok t') : t.AddsDocuments t' := by
  unfold replace at h
  cases hlocate : t.locate path false with
  | error e => simp [hlocate] at h
  | ok place =>
    have hplace := isDocument_of_locate hpath hlocate
    by_cases hdir : t.entry? place = some .directory
    · simp [hlocate, hdir] at h
    · simp only [hlocate, Except.ok.injEq] at h
      exact h ▸ AddsDocuments.put_document hplace hdir

end FileTree

namespace Storage

open FileTree

/-- Making a directory adds directories. -/
lemma keeps_makeDirectories (path : String) : Keeps AddsDocuments (makeDirectories path) :=
  (keeps_makeFirst fun _ _ _ _ => addsDocuments_makeDirectory).adapt _

/-- Writing a document adds it. -/
lemma keeps_writeDocument {path : String} (hpath : IsDocumentName path) (document : Json) :
    Keeps AddsDocuments (writeDocument path document) :=
  Keeps.bind (Keeps.read _ _) fun _ =>
    Keeps.change _ fun _ _ h => addsDocuments_replace hpath h

/-- Reading a document adds nothing. -/
lemma keeps_readDocument (path : String) (read : Json → Option α) :
    Keeps AddsDocuments (readDocument path read) := by
  refine Keeps.bind (Keeps.read _ _) fun text => ?_
  split
  · exact Keeps.pure _
  · exact Keeps.throw _

end Storage

open FileTree in
/-- Writing an index adds its documents. -/
lemma SnapshotDirectory.keeps_save (d : SnapshotDirectory) (snapshot : Snapshot)
    (graph : CallGraph) : Keeps AddsDocuments (d.save snapshot graph) :=
  Keeps.bind (Storage.keeps_makeDirectories _) fun _ =>
    Keeps.bind (Storage.keeps_writeDocument (isDocumentName_join _ ⟨"symbols", by decide⟩) _)
      fun _ => Storage.keeps_writeDocument (isDocumentName_join _ ⟨"call_graph", by decide⟩) _

namespace IndexDirectory

open FileTree

/-- Writing a description adds it. -/
lemma keeps_save (d : IndexDirectory) (m : IndexMetadata) : Keeps AddsDocuments (d.save m) :=
  Keeps.bind (Storage.keeps_makeDirectories _) fun _ =>
    Storage.keeps_writeDocument (isDocumentName_join _ ⟨m.projectId, rfl⟩) _

/-- Reading a description adds nothing. -/
lemma keeps_get? (d : IndexDirectory) (id : String) : Keeps AddsDocuments (d.get? id) := by
  refine Keeps.bind Keeps.get fun t => ?_
  split_ifs
  · exact Keeps.bind (Storage.keeps_readDocument _ _) fun m => Keeps.pure _
  · exact Keeps.pure _

end IndexDirectory

/-- A workspace in whose files documents were added. -/
def Workspace.AddsDocuments (w w' : Workspace) : Prop := w.files.AddsDocuments w'.files

instance : Std.Refl Workspace.AddsDocuments := ⟨fun w => FileTree.AddsDocuments.refl w.files⟩

instance : IsTrans Workspace Workspace.AddsDocuments :=
  ⟨fun _ _ _ => FileTree.AddsDocuments.trans⟩

/-- What the store adds is added to the workspace. -/
lemma Workspace.keeps_storage {a : StorageAction α} (h : Keeps FileTree.AddsDocuments a) :
    Keeps Workspace.AddsDocuments (Workspace.storage a) :=
  (h.adapt IndexError.storage).within fun _ _ hfiles => hfiles

/-- Writing an index adds documents, whatever comes of it. -/
lemma Indexer.keeps_persist (x : Indexer) (index : ProjectIndex)
    (change : IndexMetadata → IndexMetadata) :
    Keeps Workspace.AddsDocuments (x.persist index change) := by
  refine Keeps.bind Keeps.get fun w => ?_
  refine Keeps.bind (Workspace.keeps_storage (SnapshotDirectory.keeps_save _ _ _)) fun _ => ?_
  refine Keeps.bind (Workspace.keeps_storage (IndexDirectory.keeps_get? _ _)) fun old => ?_
  refine Keeps.bind (Workspace.keeps_storage (IndexDirectory.keeps_save _ _)) fun _ => ?_
  exact Keeps.pure _

end CodeAtlas
