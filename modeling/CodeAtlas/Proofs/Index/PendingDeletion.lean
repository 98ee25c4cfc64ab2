import CodeAtlas.Proofs.Index.Forgetting
import CodeAtlas.Proofs.Index.Reachable

/-!
# What becomes of a pending deletion

A deletion that is pending is taken out of the queue with its batch, before anything is done about
it.  If the batch succeeds, or a full rebuild takes its place, the file is forgotten.  But a batch
is given up as soon as one of its files fails, and the rebuild may fail as well, for one thing
because no symbols are left.  Then the deletion is neither pending nor made, unless the batch had
got as far as the file (`Indexer.pending_or_forgets_iff`).
-/

namespace CodeAtlas

open CodeAtlas.Action CodeAtlas.FileTree

namespace Indexer

variable {x : Indexer} {root : Place} {s s' : LiveWorkspace} {batch : List Change} {file : String}
  {updates : List FileUpdate} {index : ProjectIndex}

/-! ### A file that is gone -/

/-- What is taken for granted of an indexer and of the tree of its project: the tree is such as
stands on a disk, the path of the root leads through no links, index documents are no source files,
and supplementary tools keep to the files that they are given.  The root itself may be gone. -/
structure Regular (x : Indexer) (root : Place) (t : FileTree) : Prop where
  wellFormed : t.WellFormed
  writable : IsWritable root
  no_link : ∀ above below, root = above ++ below → ∀ target, t.entry? above ≠ some (.link target)
  ne_json : ∀ ext ∈ x.settings.indexing.extensions, Text.lowerAscii ext ≠ "json"
  keepsTo : ∀ source ∈ x.sources, source.KeepsTo (pathOf root)

/-- No file that is there is filed under a name. -/
def Lacks (root : Place) (t : FileTree) (file : String) : Prop :=
  ∀ path, Path.relative (pathOf root) path = file → t.isFile path = false

/-- In a tree without links, no file is filed under a name that no file has. -/
lemma lacks_of_isPlainName {t : FileTree} {name : String}
    (hlink : ∀ place target, t.entry? place ≠ some (.link target)) (hname : Path.IsPlainName name)
    (hnone : ∀ place content, t.entry? (place ++ [name]) ≠ some (.file content)) :
    Lacks root t name := by
  intro path hfiled
  cases hfind : t.find? path with
  | error cause => rw [isFile, lookup?, hfind]
  | ok found =>
    obtain ⟨place, entry⟩ := found
    obtain ⟨hlocate, hentry⟩ := find?_eq_ok_iff.mp hfind
    have hlast := getLast?_of_locate hlink (Path.fileName?_of_relative hname hfiled) hlocate
    obtain ⟨above, rfl⟩ := List.getLast?_eq_some_iff.mp hlast
    cases entry with
    | file content => exact absurd hentry (hnone above content)
    | directory => rw [isFile, lookup?, hfind]
    | link target => rw [isFile, lookup?, hfind]

/-- A change of a file that is gone removes it. -/
lemma extraction_eq_none_of_lacks {t : FileTree} {c : Change} {u : FileUpdate}
    (hlacks : Lacks root t file) (h : x.updateOf t (pathOf root) c = .ok u)
    (hfile : u.file = file) :
    u.extraction = none := by
  have hname : u.file = Path.relative (pathOf root) c.path := by
    unfold updateOf at h
    simp only at h
    split_ifs at h
    · rw [← Except.ok.inj h]
    · cases hextract : t.extractFile x.measurer (pathOf root) c.path with
      | error cause =>
        rw [hextract] at h
        cases h
      | ok e =>
        rw [hextract] at h
        rw [← Except.ok.inj h]
  have hnot := hlacks c.path (hname.symm.trans hfile)
  unfold updateOf at h
  rw [if_pos (Or.inr (by simp [hnot]))] at h
  rw [← Except.ok.inj h]

/-- A full rebuild has nothing of a file that is gone, also after documents were added. -/
lemma Regular.hasNothing_of_rebuild {t : FileTree} {projectId : String} {w w' : Workspace}
    (h : x.Regular root t) (hlacks : Lacks root t file) (hfiles : t.AddsDocuments w.files)
    (hrun : (x.rebuild projectId (pathOf root)).runOn w = (.ok index, w')) :
    index.HasNothing file ∧ ∀ ids, index.Accounts ids := by
  obtain ⟨merged, hmerged, rfl⟩ := exists_merge_of_rebuild hrun
  have hspeaks := speaksOf_of_merge h.keepsTo hmerged
  have hfound : file ∉ (w.files.walk x.settings.indexing (pathOf root)).map
      (Path.relative (pathOf root)) := by
    intro hmem
    obtain ⟨path, hpath, hname⟩ := List.mem_map.mp hmem
    have hthere := hfiles.isFile_of_mem_walk h.wellFormed h.ne_json h.writable h.no_link hpath
    rw [hlacks path hname] at hthere
    cases hthere
  refine ⟨ProjectIndex.hasNothing_ofMerged (fun s hs hfile => ?_) fun i hi hfile => ?_,
    ProjectIndex.accounts_ofMerged hspeaks.caller_mem⟩
  · exact hfound (hfile ▸ hspeaks.file_mem s hs)
  · exact hfound (hfile ▸ hspeaks.include_mem i hi)

/-- A batch takes a file out of the live index before anything stops it. -/
def TakesOut (x : Indexer) (s : LiveWorkspace) (batch : List Change) (file : String) : Prop :=
  ∃ updates, batch.mapM (x.updateOf s.workspace.files s.live.index.root) = .ok updates ∧
    ⟨file, none⟩ ∈ madeUpdates s.workspace.documents.refuses updates

/-- Updates that remove a file if they name it, and otherwise speak of other files. -/
structure Spares (updates : List FileUpdate) (file : String) : Prop where
  speaksOf : ∀ u ∈ updates, ∀ e, u.extraction = some e → e.SpeaksOf u.file
  gone : ∀ u ∈ updates, u.file = file → u.extraction = none

namespace Spares

/-- The updates of a batch spare a file that is gone. -/
lemma of_mapM {t : FileTree} (hlacks : Lacks root t file)
    (h : batch.mapM (x.updateOf t (pathOf root)) = .ok updates) : Spares updates file := by
  refine ⟨fun u hu e he => ?_, fun u hu hfile => ?_⟩
  · obtain ⟨c, -, hc⟩ := (exists_of_mapM_ok h).1 u hu
    exact speaksOf_of_updateOf hc he
  · obtain ⟨c, -, hc⟩ := (exists_of_mapM_ok h).1 u hu
    exact extraction_eq_none_of_lacks hlacks hc hfile

/-- An update that is not the removal of the file is one of another file. -/
lemma file_ne (h : Spares updates file) {u : FileUpdate} (hu : u ∈ updates)
    (hnot : ⟨file, none⟩ ∉ updates) : u.file ≠ file := by
  intro hfile
  have hremoval : u = ⟨file, none⟩ := by rw [← hfile, ← h.gone u hu hfile]
  exact hnot (hremoval ▸ hu)

/-- Files are replaced by what speaks of them, and the spared file is not. -/
lemma speaksOf_of_replace (h : Spares updates file) :
    ∀ g e, .replace g e ∈ updates.map FileUpdate.edit → e.SpeaksOf g ∧ g ≠ file := by
  intro g e hmem
  obtain ⟨⟨ufile, extraction⟩, hu, hedit⟩ := List.mem_map.mp hmem
  cases extraction with
  | none => cases hedit
  | some e' =>
    obtain ⟨rfl, rfl⟩ := FileEdit.replace.inj hedit
    refine ⟨h.speaksOf _ hu e' rfl, fun hfile => ?_⟩
    have hnone := h.gone _ hu hfile
    cases hnone

/-- Updates that remove the file leave nothing of it. -/
lemma hasNothing_foldl (h : Spares updates file) (hindex : index.Sound)
    (hor : index.HasNothing file ∨ ⟨file, none⟩ ∈ updates) :
    ((updates.map FileUpdate.edit).foldl FileEdit.onIndex index).HasNothing file :=
  ProjectIndex.hasNothing_foldl_onIndex hindex h.speaksOf_of_replace
    (hor.imp id fun hmem => List.mem_map.mpr ⟨_, hmem, rfl⟩)

/-- Removals of other files and one update behind them leave what there is of the file, unless a
symbol takes the identifier of one of its symbols. -/
lemma hasNothing_of_foldl {removals last : List FileUpdate} (h : Spares (removals ++ last) file)
    (hnot : ⟨file, none⟩ ∉ removals ++ last) (hnone : ∀ u ∈ removals, u.extraction = none)
    (hlast : last.length ≤ 1) (hindex : index.Sound)
    (hids : index.KeepsIds (((removals ++ last).map FileUpdate.edit).foldl FileEdit.onIndex index)
      file)
    (hnothing :
      (((removals ++ last).map FileUpdate.edit).foldl FileEdit.onIndex index).HasNothing file) :
    index.HasNothing file := by
  have hedits : removals.map FileUpdate.edit = (removals.map (·.file)).map FileEdit.remove := by
    rw [List.map_map]
    exact List.map_congr_left fun u hu => by rw [FileUpdate.edit, hnone u hu, Function.comp]
  have hothers : file ∉ removals.map (·.file) := by
    intro hmem
    obtain ⟨u, hu, hfile⟩ := List.mem_map.mp hmem
    exact h.file_ne (List.mem_append_left last hu) hnot hfile
  obtain ⟨hsound, hsymbols, hiff⟩ := ProjectIndex.foldl_remove_iff hindex hothers
  rw [List.map_append, List.foldl_append, hedits] at hids hnothing
  match last with
  | [] => exact hiff.mp hnothing
  | [⟨other, none⟩] =>
    have hne : other ≠ file := h.file_ne (List.mem_append_right removals List.mem_cons_self) hnot
    exact hiff.mp ((ProjectIndex.hasNothing_removeFile_iff hsound hne).mp hnothing)
  | [⟨other, some e⟩] =>
    have hmem : ⟨other, some e⟩ ∈ removals ++ [⟨other, some e⟩] :=
      List.mem_append_right removals List.mem_cons_self
    have hne : other ≠ file := h.file_ne hmem hnot
    have hremoved := ProjectIndex.Agrees.removeFile hsound other
    have hbefore := ProjectIndex.HasNothing.of_insertFile hnothing hremoved
      (h.speaksOf _ hmem e rfl) hne fun s hs hfile s' hs' hid => by
        have hold := ((ProjectIndex.mem_symbols_removeFile hsound s).mp hs).1
        exact hids s ((hsymbols s hfile).mp hold) hfile s' hs' hid
    exact hiff.mp ((ProjectIndex.hasNothing_removeFile_iff hsound hne).mp hbefore)

end Spares

/-! ### What becomes of the deletion -/

/-- A batch with a deletion, if it can be extracted, has the removal of the file. -/
lemma mem_of_mapM {t : FileTree} {c : Change} (hc : c ∈ batch) (hkind : c.kind = .deleted)
    (h : batch.mapM (x.updateOf t (pathOf root)) = .ok updates) :
    ⟨Path.relative (pathOf root) c.path, none⟩ ∈ updates := by
  obtain ⟨u, hu, hupdate⟩ := (exists_of_mapM_ok h).2 c hc
  unfold updateOf at hupdate
  rw [if_pos (Or.inl hkind)] at hupdate
  exact Except.ok.inj hupdate ▸ hu

/-- A batch that is tried leaves the queue alone, whatever comes of it. -/
lemma queue_of_runOn_applyOrRebuild {outcome : Except IndexError Nat}
    (hrun : (x.applyOrRebuild batch).runOn s = (outcome, s')) : s'.live.queue = s.live.queue := by
  have hkeeps : ∀ {tried between}, (x.applyBatch batch).runOn s = (tried, between) →
      between.live.queue = s.live.queue := by
    intro tried between hbatch
    have hkeeps := x.keeps_applyBatch batch s
    rw [hbatch] at hkeeps
    exact hkeeps.queue
  rcases runOn_applyOrRebuild_cases hrun with ⟨between, hbatch, -, rfl⟩ |
    ⟨e, between, w, hbatch, ⟨rebuilt, -, -, rfl⟩ | ⟨cause, -, -, rfl⟩⟩
  -- Neither counting the batch nor taking a rebuilt index touches the queue.
  all_goals
    have hbetween := hkeeps hbatch
    exact hbetween

/-- The identifiers of the symbols of a file are accounted for after updates that spare it. -/
lemma Spares.accounts_foldl (h : Spares updates file) (hindex : index.Sound) :
    ((updates.map FileUpdate.edit).foldl FileEdit.onIndex index).Accounts (index.idsOf file) := by
  have hstart : index.Accounts (index.idsOf file) :=
    ProjectIndex.accounts_of_knows fun id ⟨a, ha, _, hid⟩ => ⟨a, ha, hid⟩
  exact hstart.foldl_onIndex hindex fun g e he => (h.speaksOf_of_replace g e he).1

/-- An index that has nothing of a file has forgotten it after updates that spare it. -/
lemma Spares.forgets_foldl_iff (h : Spares updates file) (hindex : index.Sound)
    (hids : index.KeepsIds ((updates.map FileUpdate.edit).foldl FileEdit.onIndex index) file) :
    index.Forgets ((updates.map FileUpdate.edit).foldl FileEdit.onIndex index) file ↔
      ((updates.map FileUpdate.edit).foldl FileEdit.onIndex index).HasNothing file :=
  ⟨fun hforgets => hforgets.toHasNothing,
    fun hnothing => hnothing.forgets (h.accounts_foldl hindex) hids⟩

section

variable {c : Change} (hindex : SoundAt root s.live.index) (hc : c ∈ batch)
  (hkind : c.kind = .deleted) (hfile : Path.relative (pathOf root) c.path = file)
  (hlacks : Lacks root s.workspace.files file)
  (hids : s.live.index.KeepsIds s'.live.index file)

include hindex hc hkind hfile hlacks hids

/-- A batch that is applied makes its deletions. -/
lemma forgets_of_applyBatch (hrun : (x.applyBatch batch).runOn s = (.ok (), s')) :
    s.live.index.Forgets s'.live.index file := by
  obtain ⟨updates, hupdates, hafter⟩ := exists_updates_of_applyBatch hrun
  rw [hindex.root_eq] at hupdates
  have hspares := Spares.of_mapM hlacks hupdates
  have hremoval := hfile ▸ mem_of_mapM hc hkind hupdates
  rw [hafter] at hids ⊢
  rw [hspares.forgets_foldl_iff hindex.sound hids]
  exact hspares.hasNothing_foldl hindex.sound (Or.inr hremoval)

/-- What a batch leaves of a deleted file, whatever comes of it: nothing if it took the file out,
and else what there was. -/
lemma forgets_of_runOn_applyBatch_iff {outcome : Except IndexError Unit}
    (hrun : (x.applyBatch batch).runOn s = (outcome, s')) :
    s.live.index.Forgets s'.live.index file ↔
      x.TakesOut s batch file ∨ s.live.index.HasNothing file := by
  rcases index_of_runOn_applyBatch hrun with ⟨e, hfailed, hafter⟩ | ⟨updates, hextracted, hafter⟩
  · have hnot : ¬x.TakesOut s batch file := by
      rintro ⟨updates, hupdates, -⟩
      rw [hupdates] at hfailed
      cases hfailed
    have hnone : Spares [] file := ⟨by simp, by simp⟩
    rw [hafter] at hids ⊢
    rw [or_iff_right hnot]
    exact hnone.forgets_foldl_iff hindex.sound hids
  · have hupdates := hextracted
    rw [hindex.root_eq] at hupdates
    have hall := Spares.of_mapM hlacks hupdates
    have hspares : Spares (madeUpdates s.workspace.documents.refuses updates) file :=
      ⟨fun u hu => hall.speaksOf u (mem_of_mem_madeUpdates hu),
        fun u hu => hall.gone u (mem_of_mem_madeUpdates hu)⟩
    have hremoval := hfile ▸ mem_of_mapM hc hkind hupdates
    rw [hafter] at hids ⊢
    rw [hspares.forgets_foldl_iff hindex.sound hids]
    constructor
    · intro hnothing
      by_cases htaken : ⟨file, none⟩ ∈ madeUpdates s.workspace.documents.refuses updates
      · exact Or.inl ⟨updates, hextracted, htaken⟩
      · rcases madeUpdates_eq_or s.workspace.documents.refuses updates with
          hall | ⟨removals, last, hparts, hnone, hlast⟩
        · rw [hall] at htaken
          exact absurd hremoval htaken
        · rw [hparts] at hspares htaken hids hnothing
          exact Or.inr (hspares.hasNothing_of_foldl htaken hnone hlast hindex.sound hids hnothing)
    · rintro (⟨updates', hupdates', htaken⟩ | hnothing)
      · rw [hextracted] at hupdates'
        obtain rfl := Except.ok.inj hupdates'
        exact hspares.hasNothing_foldl hindex.sound (Or.inr htaken)
      · exact hspares.hasNothing_foldl hindex.sound (Or.inl hnothing)

/-- When a batch with a deletion was tried, the file is forgotten exactly if this succeeded, or the
batch took the file out before it failed, or there was nothing of the file anyway. -/
lemma forgets_of_applyOrRebuild_iff {outcome : Except IndexError Nat}
    (hreg : x.Regular root s.workspace.files)
    (hrun : (x.applyOrRebuild batch).runOn s = (outcome, s')) :
    s.live.index.Forgets s'.live.index file ↔
      (∃ n, outcome = .ok n) ∨ x.TakesOut s batch file ∨ s.live.index.HasNothing file := by
  rcases runOn_applyOrRebuild_cases hrun with ⟨between, hbatch, rfl, rfl⟩ |
    ⟨e, between, w, hbatch, ⟨rebuilt, hrebuild, rfl, rfl⟩ | ⟨cause, -, rfl, rfl⟩⟩
  · have hids : s.live.index.KeepsIds between.live.index file := hids
    have hforgets := forgets_of_applyBatch hindex hc hkind hfile hlacks hids hbatch
    exact iff_of_true hforgets (Or.inl ⟨_, rfl⟩)
  · have hkeeps := x.keeps_applyBatch batch s
    rw [hbatch] at hkeeps
    rw [(hindex.applyBatch hbatch).root_eq] at hrebuild
    obtain ⟨hnothing, haccounts⟩ := hreg.hasNothing_of_rebuild hlacks hkeeps.files hrebuild
    exact iff_of_true (hnothing.forgets (haccounts _) hids) (Or.inl ⟨_, rfl⟩)
  · have hids : s.live.index.KeepsIds between.live.index file := hids
    have hleft := forgets_of_runOn_applyBatch_iff hindex hc hkind hfile hlacks hids hbatch
    have hnot : ¬∃ n, (Except.error cause : Except IndexError Nat) = .ok n := by
      rintro ⟨n, hn⟩
      cases hn
    rw [or_iff_right hnot]
    exact hleft

end

/-- What becomes of a pending deletion of a file that is gone, whatever is pending beside it and
however the call ends.  It is still pending, or nothing is left of the file in the live index:
exactly if it is still pending, or the call succeeded, or its batch took the file out before it
failed, or there was nothing of the file to begin with. -/
theorem pending_or_forgets_iff {e : PendingChange} {outcome : Except IndexError Nat}
    (hreach : x.Reachable root s) (hreg : x.Regular root s.workspace.files)
    (he : e ∈ s.live.queue.entries) (hkind : e.change.kind = .deleted)
    (hlacks : Lacks root s.workspace.files (Path.relative (pathOf root) e.change.path))
    (hids : s.live.index.KeepsIds s'.live.index (Path.relative (pathOf root) e.change.path))
    (hrun : x.processPending.runOn s = (outcome, s')) :
    e ∈ s'.live.queue.entries ∨
        s.live.index.Forgets s'.live.index (Path.relative (pathOf root) e.change.path) ↔
      e ∈ s'.live.queue.entries ∨ (∃ n, outcome = .ok n) ∨
        x.TakesOut s
          (s.live.queue.takeReady s.live.batchSize s.workspace.clock.milliseconds).1
          (Path.relative (pathOf root) e.change.path) ∨
        s.live.index.HasNothing (Path.relative (pathOf root) e.change.path) := by
  rcases htake : s.live.queue.takeReady s.live.batchSize s.workspace.clock.milliseconds with
    ⟨batch, queue⟩
  have hplace := ChangeQueue.mem_takeReady s.live.batchSize s.workspace.clock.milliseconds he
  rw [htake] at hplace
  rw [runOn_processPending_of_takeReady x htake] at hrun
  rcases hplace with hbatch | hpending
  · have hne : ¬batch.isEmpty = true := by
      rw [List.isEmpty_iff]
      exact List.ne_nil_of_mem hbatch
    rw [if_neg hne] at hrun
    have hindex : SoundAt root (withQueue s queue).live.index := hreach.soundAt
    have hregular : x.Regular root (withQueue s queue).workspace.files := hreg
    have hforgets :=
      forgets_of_applyOrRebuild_iff hindex hbatch hkind rfl hlacks hids hregular hrun
    exact or_congr Iff.rfl hforgets
  · have hqueue : s'.live.queue = queue := by
      split_ifs at hrun
      · obtain ⟨-, rfl⟩ := Prod.mk.inj hrun
        rfl
      · exact queue_of_runOn_applyOrRebuild hrun
    have hstill : e ∈ s'.live.queue.entries := hqueue.symm ▸ hpending
    exact iff_of_true (Or.inl hstill) (Or.inl hstill)

/-! ### A deletion beside a file that cannot be extracted -/

section

/-- An indexer of C sources, and by mistake of notes. -/
def notesIndexer : Indexer where
  settings :=
    { indexPath := "/i"
      indexing :=
        { parallelThreads := 1, extensions := ["c", "txt"], ignorePatterns := [], maxFileSize := 9 }
      watch := { debounceMs := 0 } }

/-- Notes, which no parser reads. -/
def notes : FileContent where
  bytes := ⟨#[110]⟩

/-- A project whose only file is no source file, beside the directory of its index. -/
def notesOnly : FileTree :=
  FileTree.empty.put ["i"] .directory
    |>.put ["i", "meta"] .directory
    |>.put ["i", "projects"] .directory
    |>.put ["i", "projects", "p"] .directory
    |>.put ["p"] .directory
    |>.put ["p", "notes.txt"] (.file notes)

/-- An index that was written when there was a source file. -/
def olderIndex : ProjectIndex :=
  .ofSnapshot "p" (pathOf ["p"]) ⟨(FileEdit.oneFunction "a.c" "run" []).symbols, [], ["a.c"]⟩ .empty

/-- The report that the source file is gone. -/
def goneReport : Change := ⟨"/p/a.c", .deleted⟩

/-- The report that the notes are new. -/
def notesReport : Change := ⟨"/p/notes.txt", .created⟩

/-- The name of the source file. -/
lemma relative_goneReport : Path.relative (pathOf ["p"]) goneReport.path = "a.c" := by decide

/-- The live index of the project when some changes were reported. -/
def reported (changes : List Change) : LiveWorkspace where
  live := changes.foldl (fun l c => l.record c 0) (.ofIndex notesIndexer.settings.watch olderIndex)
  workspace := { files := notesOnly }

/-- What stands in the project. -/
lemma entry?_notesOnly {place : Place} {e : FileEntry} (h : notesOnly.entry? place = some e) :
    e = .directory ∨ place = ["p", "notes.txt"] ∧ e = .file notes := by
  unfold entry? at h
  split_ifs at h with hroot
  · exact Or.inl (Option.some.inj h).symm
  · simp only [notesOnly, put, Std.ExtTreeMap.getElem?_insert,
      Std.LawfulEqCmp.compare_eq_iff_eq] at h
    split_ifs at h with hnotes
    · exact Or.inr ⟨hnotes.symm, (Option.some.inj h).symm⟩
    all_goals first
      | exact Or.inl (Option.some.inj h).symm
      | simp [FileTree.empty] at h

/-- The tree of the project is well formed. -/
lemma wellFormed_notesOnly : notesOnly.WellFormed := by
  have h₁ : WellFormed (FileTree.empty.put ([] ++ ["i"]) .directory) :=
    wellFormed_empty.put .directory rfl rfl (by decide)
  have h₂ : WellFormed (FileTree.put _ (["i"] ++ ["meta"]) .directory) :=
    h₁.put .directory rfl rfl (by decide)
  have h₃ : WellFormed (FileTree.put _ (["i"] ++ ["projects"]) .directory) :=
    h₂.put .directory rfl rfl (by decide)
  have h₄ : WellFormed (FileTree.put _ (["i", "projects"] ++ ["p"]) .directory) :=
    h₃.put .directory rfl rfl (by decide)
  have h₅ : WellFormed (FileTree.put _ ([] ++ ["p"]) .directory) :=
    h₄.put .directory rfl rfl (by decide)
  have h₆ : WellFormed (FileTree.put _ (["p"] ++ ["notes.txt"]) (.file notes)) :=
    h₅.put _ rfl rfl (by decide)
  exact h₆

/-- There are no links. -/
lemma no_link_notesOnly (place : Place) (target : String) :
    notesOnly.entry? place ≠ some (.link target) := by
  intro hlink
  rcases entry?_notesOnly hlink with h | ⟨-, h⟩
  · cases h
  · cases h

/-- The project is as regular as an indexer needs it. -/
lemma regular_notesOnly : notesIndexer.Regular ["p"] notesOnly where
  wellFormed := wellFormed_notesOnly
  writable := by decide
  no_link above _ _ := no_link_notesOnly above
  ne_json := by decide
  keepsTo source hsource := by cases hsource

/-- The source file is gone. -/
lemma lacks_notesOnly :
    Lacks ["p"] notesOnly (Path.relative (pathOf ["p"]) goneReport.path) := by
  rw [relative_goneReport]
  refine lacks_of_isPlainName no_link_notesOnly (by decide) fun place content hfile => ?_
  rcases entry?_notesOnly hfile with h | ⟨h, -⟩
  · cases h
  · have hlast := congrArg List.getLast? h
    rw [List.getLast?_concat] at hlast
    exact absurd hlast (by decide)

/-- A report of a path that is taken up leads to a state that can be reached. -/
lemma Reachable.record (h : x.Reachable root s) (c : Change)
    (habsolute : Path.isAbsolute c.path = true)
    (haccepts : s.live.accepts x.settings.indexing c.path = true) :
    x.Reachable root { s with live := s.live.record c 0 } := by
  have hqueue := h.queue c 0
  have hpath : s.live.absolute c.path = c.path := if_pos habsolute
  simp only [LiveIndex.queueChange, hpath, haccepts, if_true] at hqueue
  exact hqueue

/-- Both reports can be taken up, one after the other. -/
lemma reachable_reported :
    notesIndexer.Reachable ["p"] (reported [goneReport]) ∧
      notesIndexer.Reachable ["p"] (reported [goneReport, notesReport]) := by
  have hstart : notesIndexer.Reachable ["p"] (reported []) :=
    .loaded "p" _ CallGraph.holds_empty _
  have haccepts : ∀ c ∈ [goneReport, notesReport], (notesIndexer.settings.indexing.accepts c.path &&
      !Path.isHiddenBelow (pathOf ["p"]) c.path) = true := by decide
  have hgone := hstart.record goneReport (by decide) (haccepts _ (by decide))
  exact ⟨hgone, hgone.record notesReport (by decide) (haccepts _ (by decide))⟩

/-- The symbols of the index are those of the source file. -/
lemma file_eq_of_mem_olderIndex {a : Symbol} (ha : a ∈ olderIndex.symbols.toList) :
    a.file = "a.c" := by
  rcases SymbolTable.consistent_empty.mem_or_mem_of_insertAll ha with ha | ha
  · rw [List.mem_singleton.mp ha]
  · rw [SymbolTable.Holds.empty.mem_toList] at ha
    exact absurd ha (Set.notMem_empty a)

/-- There is a symbol of the source file. -/
lemma exists_mem_olderIndex : ∃ a, a ∈ olderIndex.symbols.toList := by
  have hknown : ∃ a ∈ olderIndex.symbols.toList, a.id = ⟨"run"⟩ := by
    apply SymbolTable.consistent_empty.exists_mem_toList_insertAll_iff.mpr
    exact Or.inl ⟨_, List.mem_cons_self, rfl⟩
  obtain ⟨a, ha, -⟩ := hknown
  exact ⟨a, ha⟩

/-- Symbols that are left of the index have identifiers of the source file. -/
lemma keepsIds_olderIndex (h : ∀ b ∈ index.symbols.toList, b ∈ olderIndex.symbols.toList) :
    olderIndex.KeepsIds index (Path.relative (pathOf ["p"]) goneReport.path) := by
  intro a _ _ b hb _
  rw [relative_goneReport]
  exact file_eq_of_mem_olderIndex (h b hb)

/-- The notes are a file from which nothing can be extracted. -/
lemma extractFile_notes : notesOnly.isFile (pathOf ["p", "notes.txt"]) = true ∧
    ∃ cause, notesOnly.extractFile notesIndexer.measurer (pathOf ["p"])
      (pathOf ["p", "notes.txt"]) = .error cause := by
  have hentry : notesOnly.entry? ["p", "notes.txt"] = some (.file notes) := rfl
  have hread : notesOnly.read (pathOf ["p", "notes.txt"]) = .ok notes :=
    wellFormed_notesOnly.read_pathOf hentry
  have hlanguage : Language.ofPath? (Path.relative (pathOf ["p"]) (pathOf ["p", "notes.txt"])) =
      none := by decide
  refine ⟨wellFormed_notesOnly.isFile_pathOf hentry, ?_⟩
  simp only [extractFile, hread, FileContent.extract, hlanguage]
  exact ⟨_, rfl⟩

/-- The deletion can be made, and the notes cannot be extracted. -/
lemma updateOf_notesOnly :
    notesIndexer.updateOf notesOnly (pathOf ["p"]) goneReport = .ok ⟨"a.c", none⟩ ∧
      ∃ cause, notesIndexer.updateOf notesOnly (pathOf ["p"]) notesReport = .error cause := by
  have hpath : notesReport.path = pathOf ["p", "notes.txt"] := by decide
  obtain ⟨hfile, cause, hextract⟩ := extractFile_notes
  constructor
  · simp only [updateOf, relative_goneReport]
    exact if_pos (Or.inl rfl)
  · unfold updateOf
    rw [hpath]
    simp only [hfile, hextract]
    exact ⟨cause, rfl⟩

/-- Nothing can be built of the project. -/
lemma not_rebuild_notesOnly {projectId : String} {w w' : Workspace} (hfiles : w.files = notesOnly) :
    (notesIndexer.rebuild projectId (pathOf ["p"])).runOn w ≠ (.ok index, w') := by
  intro hrun
  obtain ⟨merged, hmerged, -⟩ := exists_merge_of_rebuild hrun
  rw [hfiles] at hmerged
  have hdir : notesOnly.entry? ["p"] = some .directory := rfl
  have hfind : notesOnly.find? (pathOf ["p"]) = .ok (["p"], .directory) :=
    wellFormed_notesOnly.find?_pathOf hdir (by simp)
  obtain ⟨path, hpath, e, hextract⟩ := exists_extractFile_of_merge hmerged
  obtain ⟨⟨names, content⟩, hlisted, rfl⟩ := List.mem_map.mp ((perm_walk hfind).mem_iff.mp hpath)
  rcases entry?_notesOnly ((mem_listedFiles hdir).mp hlisted).entry with h | ⟨hplace, -⟩
  · cases h
  · obtain rfl : names = ["notes.txt"] := (List.cons.inj hplace).2
    obtain ⟨-, cause, hfailed⟩ := extractFile_notes
    have hjoin : Path.join (pathOf ["p"]) ("/".intercalate ["notes.txt"]) =
        pathOf ["p", "notes.txt"] := by decide
    rw [hjoin, hfailed] at hextract
    cases hextract

/-- There is room for the index of the project. -/
lemma awaitsIndex_notesOnly : notesIndexer.directory.AwaitsIndex notesOnly ["i"] "p" :=
  ⟨rfl, wellFormed_notesOnly, ⟨rfl, rfl, by decide⟩, ⟨rfl, rfl, by decide⟩, ⟨rfl, rfl, by decide⟩⟩

/-- What is pending when the reports were made. -/
lemma entries_reported :
    (reported [goneReport]).live.queue.entries = [⟨goneReport, 0, 0⟩] ∧
      (reported [goneReport, notesReport]).live.queue.entries =
        [⟨goneReport, 0, 0⟩, ⟨notesReport, 0, 1⟩] := by
  have hone := ChangeQueue.entries_record_ofWindow 0 goneReport.path goneReport.kind 0
  have htwo := ChangeQueue.record_refines
    (q := (ChangeQueue.ofWindow 0).record goneReport.path goneReport.kind 0)
    (by simp [hone]) (by rw [hone]; decide) notesReport.path notesReport.kind 0
  rw [hone] at htwo
  exact ⟨hone, htwo.trans (by decide)⟩

/-- The reports are quiet at once. -/
lemma isQuiet_reported (changes : List Change) : IsQuiet (reported changes) := by
  have hwindow : (reported changes).live.queue.window = 0 := by
    rw [reported]
    induction changes using List.reverseRecOn with
    | nil => rfl
    | append_singleton changes c ih =>
      rw [List.foldl_append]
      exact ih
  intro e _
  rw [hwindow]
  exact decide_eq_true (Nat.zero_le _)

/-- A deletion that is reported alone is made. -/
theorem forgets_of_goneReport : ∃ n s',
    notesIndexer.processPending.runOn (reported [goneReport]) = (.ok n, s') ∧
      olderIndex.Forgets s'.live.index (Path.relative (pathOf ["p"]) goneReport.path) := by
  have hentries := entries_reported.1
  have hupdates : [goneReport].mapM (notesIndexer.updateOf notesOnly (pathOf ["p"])) =
      .ok [⟨"a.c", none⟩] := by
    rw [List.mapM_cons, updateOf_notesOnly.1]
    rfl
  obtain ⟨between, hbatch⟩ := exists_applyBatch (s := withoutBatch (reported [goneReport]))
    hupdates (fun _ => rfl) awaitsIndex_notesOnly
  have hrun : notesIndexer.processPending.runOn (reported [goneReport]) =
      (.ok 1, afterBatch between) := by
    rw [runOn_processPending _ (isQuiet_reported _) (by decide) (by simp [hentries]), hentries]
    exact runOn_applyOrRebuild_of_ok hbatch
  refine ⟨1, afterBatch between, hrun, ?_⟩
  have hreach := reachable_reported.1
  have hindex : between.live.index = (olderIndex.removeFile "a.c").2 := by
    obtain ⟨updates, hmap, hafter⟩ := exists_updates_of_applyBatch hbatch
    have hsame : Except.ok updates = Except.ok [⟨"a.c", none⟩] := hmap.symm.trans hupdates
    rw [hafter, Except.ok.inj hsame]
    rfl
  have hids : olderIndex.KeepsIds (afterBatch between).live.index
      (Path.relative (pathOf ["p"]) goneReport.path) := by
    refine keepsIds_olderIndex fun b hb => ?_
    have hb : b ∈ (olderIndex.removeFile "a.c").2.symbols.toList := hindex ▸ hb
    exact ((ProjectIndex.mem_symbols_removeFile hreach.soundAt.sound b).mp hb).1
  have hpending : (⟨goneReport, 0, 0⟩ : PendingChange) ∈
      (reported [goneReport]).live.queue.entries := hentries ▸ List.mem_cons_self
  have hnone : (⟨goneReport, 0, 0⟩ : PendingChange) ∉ (afterBatch between).live.queue.entries := by
    rw [entries_of_processPending (isQuiet_reported _) (by decide) hrun, hentries]
    exact List.not_mem_nil
  have hmade := (pending_or_forgets_iff hreach regular_notesOnly hpending rfl lacks_notesOnly hids
    hrun).mpr (Or.inr (Or.inl ⟨1, rfl⟩))
  exact hmade.resolve_left hnone

/-- When both reports were processed, nothing is pending and the index is what it was. -/
lemma unchanged_of_processPending {outcome : Except IndexError Nat}
    (hrun : notesIndexer.processPending.runOn (reported [goneReport, notesReport]) =
      (outcome, s')) :
    s'.live.queue.entries = [] ∧ s'.live.index = olderIndex := by
  have hentries := entries_reported.2
  have hquiet := isQuiet_reported [goneReport, notesReport]
  rw [runOn_processPending _ hquiet (by decide) (by simp [hentries])] at hrun
  constructor
  · rw [queue_of_runOn_applyOrRebuild hrun, entries_withoutBatch hquiet, hentries]
    rfl
  rw [hentries] at hrun
  -- The batch does nothing, and there is nothing to rebuild the index from.
  have hfailed : ∀ updates, [goneReport, notesReport].mapM
      (notesIndexer.updateOf notesOnly (pathOf ["p"])) ≠ .ok updates := by
    intro updates hupdates
    obtain ⟨hgone, cause, hnotes⟩ := updateOf_notesOnly
    rw [List.mapM_cons, List.mapM_cons, hgone, hnotes] at hupdates
    cases hupdates
  have hnothing : ∀ {tried between}, (notesIndexer.applyBatch [goneReport, notesReport]).runOn
      (withoutBatch (reported [goneReport, notesReport])) = (tried, between) →
      between = withoutBatch (reported [goneReport, notesReport]) ∧ tried ≠ .ok () := by
    intro tried between hbatch
    rcases applyBatch_cases hbatch with ⟨e, -, rfl, rfl⟩ | ⟨updates, hupdates, -⟩
    · exact ⟨rfl, by simp⟩
    · exact absurd hupdates (hfailed updates)
  rcases runOn_applyOrRebuild_cases hrun with ⟨between, hbatch, -, -⟩ |
    ⟨e, between, w, hbatch, ⟨rebuilt, hrebuilt, -, -⟩ | ⟨cause, -, -, rfl⟩⟩
  · exact absurd rfl (hnothing hbatch).2
  · obtain ⟨rfl, -⟩ := hnothing hbatch
    exact absurd hrebuilt (not_rebuild_notesOnly rfl)
  · obtain ⟨rfl, -⟩ := hnothing hbatch
    rfl

/-- A deletion that is reported together with a file that cannot be extracted is lost: it is not
made, and it is not pending any more. -/
theorem not_pending_or_forgets_of_notesReport :
    ¬∀ (x : Indexer) (root : Place) (s s' : LiveWorkspace) (e : PendingChange)
      (outcome : Except IndexError Nat), x.Reachable root s → x.Regular root s.workspace.files →
      e ∈ s.live.queue.entries → e.change.kind = .deleted →
      Lacks root s.workspace.files (Path.relative (pathOf root) e.change.path) →
      s.live.index.KeepsIds s'.live.index (Path.relative (pathOf root) e.change.path) →
      x.processPending.runOn s = (outcome, s') →
      e ∈ s'.live.queue.entries ∨
        s.live.index.Forgets s'.live.index (Path.relative (pathOf root) e.change.path) := by
  intro hclaim
  rcases hrun : notesIndexer.processPending.runOn (reported [goneReport, notesReport]) with
    ⟨outcome, s'⟩
  obtain ⟨hqueue, hindex⟩ := unchanged_of_processPending hrun
  have hids : olderIndex.KeepsIds s'.live.index (Path.relative (pathOf ["p"]) goneReport.path) :=
    keepsIds_olderIndex fun b hb => hindex ▸ hb
  have hpending : (⟨goneReport, 0, 0⟩ : PendingChange) ∈
      (reported [goneReport, notesReport]).live.queue.entries :=
    entries_reported.2 ▸ List.mem_cons_self
  rcases hclaim _ _ _ _ _ _ reachable_reported.2 regular_notesOnly hpending rfl lacks_notesOnly hids
    hrun with hstill | hforgets
  · rw [hqueue] at hstill
    cases hstill
  · obtain ⟨a, ha⟩ := exists_mem_olderIndex
    have hmem : a ∈ s'.live.index.symbols.toList := hindex ▸ ha
    exact hforgets.file_ne a hmem ((file_eq_of_mem_olderIndex ha).trans relative_goneReport.symm)

end

end Indexer

end CodeAtlas
