import CodeAtlas.Proofs.Index.ProjectChange

/-!
# A live index between two states of its project

The files of a project changed, the changes were reported to a live index of what was built before,
and the index processes them batch by batch.  The invariant of such a run is `ProjectChange.Tracks`:
every file is held as `followed` says, or it is held as it was built and a report about it is still
pending.

Queueing reports establishes the invariant (`queued_queueAll`).  A batch that is applied moves its
files from the second case to the first.  One that fails is replaced by a full build, and that keeps
the invariant as long as the walk agrees with the reports.  When nothing is pending any more, every
file is held as `followed` says (`exists_indexes_of_drains`).
-/

namespace CodeAtlas

open CodeAtlas.Action FileTree

namespace ProjectChange

variable {p : ProjectChange} {x : Indexer} {names : List String} {c : Change} {t : FileTree}
  {s s' : LiveWorkspace} {live : SourceFiles} {n : Nat}

/-! ### One report -/

/-- What is made of a watched report is what is held of its file in the end. -/
lemma Regular.followed_of_updateOf (h : p.Regular x) (hc : p.Reports c names)
    (hwatched : p.watches x names = true) (ht : p.after.AddsDocuments t) {u : FileUpdate}
    (hu : x.updateOf t (pathOf p.root) c = .ok u) :
    u.file = "/".intercalate names ∧ u.extraction = p.followed x u.file := by
  have hdeleted := ChangeKind.eq_deleted_iff_of_between? hc.kind
  unfold Indexer.updateOf at hu
  simp only [h.relative_eq hc] at hu
  cases hafter : p.after.fileAt? (p.root ++ names) with
  | none =>
    rw [if_pos (Or.inl (hdeleted.mpr hafter))] at hu
    obtain rfl := Except.ok.inj hu
    exact ⟨rfl, by rw [h.followed_of_watches hc.changed hwatched, hafter]; rfl⟩
  | some content =>
    have hentry := fileAt?_eq_some_iff.mp hafter
    have hdirs := h.wellFormed_after.reaches hentry
    have hentry' : t.entry? (p.root ++ names) = some (.file content) :=
      ht.kept _ _ (h.not_isDocument hc.changed hwatched) hentry
    have hlocate : t.locate c.path = .ok (p.root ++ names) :=
      locate_eq_of_locate (h.wellFormed_after.writable _ _ hentry) hc.spelled hdirs
        (ht.reaches hdirs) hentry hentry' (hc.leads (by simp [hafter]))
    have hfind : t.find? c.path = .ok (p.root ++ names, .file content) :=
      find?_eq_ok_iff.mpr ⟨hlocate, hentry'⟩
    have hfile : t.isFile c.path = true := by rw [isFile, lookup?, hfind]
    have hread : t.read c.path = .ok content := by rw [FileTree.read, hfind]
    have hthere : ¬(c.kind = .deleted ∨ ¬t.isFile c.path = true) := by
      rintro (hkind | hnot)
      · rw [hdeleted.mp hkind] at hafter
        cases hafter
      · exact hnot hfile
    rw [if_neg hthere, extractFile, hread] at hu
    simp only [h.relative_eq hc] at hu
    cases hextract : content.extract x.measurer ("/".intercalate names) with
    | error cause =>
      rw [hextract] at hu
      cases hu
    | ok e =>
      rw [hextract] at hu
      obtain rfl := Except.ok.inj hu
      refine ⟨rfl, ?_⟩
      rw [h.followed_of_watches hc.changed hwatched, hafter, Option.map_some,
        Indexer.extractionOf, hextract]
      rfl

/-- Edits by one rule leave every edited file as the rule says and the others as they were. -/
lemma getElem?_foldl_onFiles {rule : String → Option Extraction} {updates : List FileUpdate}
    (h : ∀ u ∈ updates, u.extraction = rule u.file) (live : SourceFiles) (file : String) :
    ((updates.map FileUpdate.edit).foldl FileEdit.onFiles live)[file]? =
      if file ∈ updates.map (·.file) then rule file else live[file]? := by
  induction updates generalizing live with
  | nil => simp
  | cons u updates ih =>
    rw [List.forall_mem_cons] at h
    rw [List.map_cons, List.foldl_cons, ih h.2]
    have hstep : (FileEdit.onFiles live u.edit)[file]? =
        if u.file = file then rule file else live[file]? := by
      rw [FileUpdate.edit, h.1]
      cases hrule : rule u.file with
      | none =>
        simp only [FileEdit.onFiles, Std.ExtTreeMap.getElem?_erase,
          Std.LawfulEqCmp.compare_eq_iff_eq]
        split_ifs with hfile
        · rw [← hfile, hrule]
        · rfl
      | some e =>
        simp only [FileEdit.onFiles, Std.ExtTreeMap.getElem?_insert,
          Std.LawfulEqCmp.compare_eq_iff_eq]
        split_ifs with hfile
        · rw [← hfile, hrule]
        · rfl
    rw [hstep, List.map_cons]
    by_cases hmem : file ∈ updates.map (·.file)
    · simp [hmem]
    · by_cases hfile : u.file = file
      · simp [hfile]
      · simp [hmem, hfile, Ne.symm hfile]

/-- Edits that make of files what is held of them in the end put in versions of them. -/
lemma Regular.mem_versions_of_edit (h : p.Regular x) {updates : List FileUpdate}
    (hrule : ∀ u ∈ updates, u.extraction = p.followed x u.file) {file : String} {e : Extraction}
    (he : FileEdit.replace file e ∈ updates.map FileUpdate.edit) : (file, e) ∈ p.versions x := by
  obtain ⟨u, hu, hedit⟩ := List.mem_map.mp he
  obtain ⟨ufile, uextraction⟩ := u
  cases uextraction with
  | none => cases hedit
  | some e' =>
    obtain ⟨rfl, rfl⟩ := FileEdit.replace.inj hedit
    exact h.mem_versions_followed (hrule _ hu).symm

/-! ### The invariant of a run -/

/-- The live index holds some extractions, each of which is the one that was built or the one that
is held in the end, and the first only where a report is still pending.  On disk there is what there
was after the change, and documents. -/
structure Tracks (p : ProjectChange) (x : Indexer) (s : LiveWorkspace) (live : SourceFiles) :
    Prop where
  files : p.after.AddsDocuments s.workspace.files
  root : s.live.index.root = pathOf p.root
  batchSize : 0 < s.live.batchSize
  indexes : s.live.index.Indexes live
  pending : ∀ e ∈ s.live.queue.entries, ∃ names,
    p.Reports e.change names ∧ p.watches x names = true
  held : ∀ file : String, live[file]? = p.followed x file ∨
    live[file]? = (x.sourceFiles p.before p.root)[file]? ∧
      ∃ e ∈ s.live.queue.entries, ∃ names, p.Reports e.change names ∧ "/".intercalate names = file

namespace Tracks

/-- What is held is a version of the source files. -/
lemma mem_versions (h : p.Tracks x s live) (hp : p.Regular x) (file : String) (e : Extraction)
    (he : live[file]? = some e) : (file, e) ∈ p.versions x := by
  rcases h.held file with hheld | ⟨hheld, -⟩
  · exact hp.mem_versions_followed (hheld ▸ he)
  · exact hp.mem_versions_before (hheld ▸ he)

/-- When nothing is pending, everything is held as in the end. -/
lemma eq_followed (h : p.Tracks x s live) (hnil : s.live.queue.entries = []) (file : String) :
    live[file]? = p.followed x file := by
  rcases h.held file with hheld | ⟨-, e, he, -⟩
  · exact hheld
  · rw [hnil] at he
    cases he

/-- What is made of a pending change is what is held of its file in the end. -/
lemma followed_of_updateOf (h : p.Tracks x s live) (hp : p.Regular x) {e : PendingChange}
    (he : e ∈ s.live.queue.entries) (hnames : p.Reports e.change names) {u : FileUpdate}
    (hu : x.updateOf s.workspace.files (pathOf p.root) e.change = .ok u) :
    u.file = "/".intercalate names ∧ u.extraction = p.followed x u.file := by
  obtain ⟨names', hnames', hwatched⟩ := h.pending e he
  obtain rfl := hp.names_eq hnames hnames' rfl
  exact hp.followed_of_updateOf hnames hwatched h.files hu

/-- A batch that is applied moves its files from what was built to what is held in the end. -/
lemma applyBatch (h : p.Tracks x s live) (hp : p.Regular x) (hquiet : Indexer.IsQuiet s)
    {between : LiveWorkspace}
    (hrun : (x.applyBatch ((s.live.queue.entries.take s.live.batchSize).map (·.change))).runOn
      (Indexer.withoutBatch s) = (.ok (), between)) :
    ∃ live', p.Tracks x (Indexer.afterBatch between) live' := by
  have hkeeps := x.keeps_applyBatch
    ((s.live.queue.entries.take s.live.batchSize).map (·.change)) (Indexer.withoutBatch s)
  rw [hrun] at hkeeps
  obtain ⟨updates, hmap, hindex⟩ := Indexer.exists_updates_of_applyBatch hrun
  obtain ⟨hchanges, hupdates⟩ := Indexer.exists_of_mapM_ok hmap
  have hroot : (Indexer.withoutBatch s).live.index.root = pathOf p.root := h.root
  rw [hroot] at hchanges hupdates
  have hrule : ∀ u ∈ updates, u.extraction = p.followed x u.file := by
    intro u hu
    obtain ⟨c, hc, hcu⟩ := hchanges u hu
    obtain ⟨e, he, rfl⟩ := List.mem_map.mp hc
    obtain ⟨names, hnames, -⟩ := h.pending e (List.mem_of_mem_take he)
    exact (h.followed_of_updateOf hp (List.mem_of_mem_take he) hnames hcu).2
  refine ⟨(updates.map FileUpdate.edit).foldl FileEdit.onFiles live, ?_⟩
  refine ⟨h.files.trans hkeeps.files, hkeeps.root.trans h.root, hkeeps.batchSize ▸ h.batchSize, ?_,
    fun e he => ?_, fun file => ?_⟩
  · have hindexes := (FileEdit.indexes_foldl_onIndex hp.compatible _
      (fun _ _ => hp.mem_versions_of_edit hrule) (h.mem_versions hp) h.indexes).1
    change between.live.index.Indexes _
    rw [hindex]
    exact hindexes
  · change e ∈ between.live.queue.entries at he
    rw [hkeeps.queue, Indexer.entries_withoutBatch hquiet] at he
    exact h.pending e (List.mem_of_mem_drop he)
  · rw [getElem?_foldl_onFiles hrule]
    split_ifs with hfile
    · exact Or.inl rfl
    · refine (h.held file).imp id fun ⟨hheld, e, he, names, hnames, hfile'⟩ => ⟨hheld, ?_⟩
      refine ⟨e, ?_, names, hnames, hfile'⟩
      change e ∈ between.live.queue.entries
      rw [hkeeps.queue, Indexer.entries_withoutBatch hquiet]
      -- Had the batch taken the report, the file would be among the updates.
      rw [← List.take_append_drop s.live.batchSize s.live.queue.entries] at he
      refine (List.mem_append.mp he).resolve_left fun htake => hfile ?_
      obtain ⟨u, hu, hcu⟩ := hupdates e.change (List.mem_map_of_mem htake)
      refine List.mem_map.mpr ⟨u, hu, ?_⟩
      rw [(h.followed_of_updateOf hp (List.mem_of_mem_take htake) hnames hcu).1, hfile']

/-- A full rebuild in place of a batch holds what a full build sees, and that is what is held in the
end if the walk agrees with the reports. -/
lemma rebuild (h : p.Tracks x s live) (hp : p.Regular x) (hfollows : p.WalkFollows x)
    (hquiet : Indexer.IsQuiet s) {between : LiveWorkspace}
    (hbetween : (Indexer.withoutBatch s).Continues between)
    {rebuilt : ProjectIndex} {w : Workspace}
    (hrun : (x.rebuild between.live.index.projectId between.live.index.root).runOn
      between.workspace = (.ok rebuilt, w)) :
    ∃ live', p.Tracks x (Indexer.afterRebuild between rebuilt w) live' := by
  have hfiles : p.after.AddsDocuments between.workspace.files := h.files.trans hbetween.files
  have hkeeps := x.keeps_rebuild between.live.index.projectId between.live.index.root
    between.workspace
  rw [hrun] at hkeeps
  rw [hbetween.root.trans h.root] at hrun
  have hread : between.workspace.files.ReadableSources x.settings.indexing p.root :=
    hfiles.readableSources hp.wellFormed_after hp.plain_ignoreFiles hp.ne_json hp.root_after
  obtain ⟨hindexes, -, hroot⟩ := Indexer.indexes_of_rebuild hrun hread hp.sources_eq_nil
    (hp.sourceFiles_eq hfiles ▸ hp.wellFormed_sourceFiles_after)
  rw [hp.sourceFiles_eq hfiles] at hindexes
  refine ⟨x.sourceFiles p.after p.root, hfiles.trans hkeeps, hroot,
    hbetween.batchSize ▸ h.batchSize, hindexes, fun e he => ?_, fun file => ?_⟩
  · change e ∈ between.live.queue.entries at he
    rw [hbetween.queue, Indexer.entries_withoutBatch hquiet] at he
    exact h.pending e (List.mem_of_mem_drop he)
  · exact Or.inl (hp.followed_eq hfollows file).symm

/-- Processing what is pending keeps the invariant, unless a rebuild takes the place of a batch
while the walk does not agree with the reports. -/
lemma processPending (h : p.Tracks x s live) (hp : p.Regular x) (hquiet : Indexer.IsQuiet s)
    (hrun : x.processPending.runOn s = (.ok n, s'))
    (hrebuild : p.WalkFollows x ∨ s'.live.fullRebuilds = s.live.fullRebuilds) :
    (∃ live', p.Tracks x s' live') ∧ (n = 0 → s'.live.queue.entries = []) := by
  rcases Indexer.processPending_cases hquiet h.batchSize hrun with
    ⟨hnil, -, rfl⟩ | ⟨-, hpos, hbatch⟩
  · exact ⟨⟨live, h⟩, fun _ => hnil⟩
  · refine ⟨?_, fun hzero => absurd hzero hpos.ne'⟩
    obtain ⟨-, ⟨between, happlied, rfl⟩ | ⟨between, rebuilt, w, hbetween, hrebuilt, rfl⟩⟩ :=
      Indexer.applyOrRebuild_cases hbatch
    · exact h.applyBatch hp hquiet happlied
    · refine h.rebuild hp (hrebuild.resolve_right ?_) hquiet hbetween hrebuilt
      have hcount : (Indexer.afterRebuild between rebuilt w).live.fullRebuilds =
          s.live.fullRebuilds + 1 := congrArg (· + 1) hbetween.fullRebuilds
      rw [hcount]
      exact (Nat.lt_succ_self _).ne'

/-- The invariant does not depend on the time. -/
lemma tick (h : p.Tracks x s live) (clock : Clock) :
    p.Tracks x { s with workspace := { s.workspace with clock } } live :=
  ⟨h.files, h.root, h.batchSize, h.indexes, h.pending, h.held⟩

end Tracks

/-- A run leads from the invariant to an index that holds everything as in the end, if the walk
agrees with the reports or no rebuild takes the place of a batch. -/
lemma exists_indexes_of_drains (hp : p.Regular x) (hrun : x.Drains s s') (h : p.Tracks x s live)
    (hrebuild : p.WalkFollows x ∨ s'.live.fullRebuilds = s.live.fullRebuilds) :
    ∃ live' : SourceFiles, s'.live.index.Indexes live' ∧
      ∀ file : String, live'[file]? = p.followed x file := by
  induction hrun generalizing live with
  | done quiet last =>
    obtain ⟨⟨live', h'⟩, hnil⟩ := h.processPending hp quiet last hrebuild
    exact ⟨live', h'.indexes, h'.eq_followed (hnil rfl)⟩
  | @more s between s' n quiet call clock rest ih =>
    -- The number of rebuilds only grows, so if it is the same in the end it is the same on the way.
    have hcall := Indexer.processPending_le quiet h.batchSize call
    have hrest : between.live.fullRebuilds ≤ s'.live.fullRebuilds :=
      rest.fullRebuilds_le (hcall.2 ▸ h.batchSize)
    have hstep : p.WalkFollows x ∨ between.live.fullRebuilds = s.live.fullRebuilds :=
      hrebuild.imp id fun hsame => Nat.le_antisymm (hrest.trans hsame.le) hcall.1
    obtain ⟨⟨live', h'⟩, -⟩ := h.processPending hp quiet call hstep
    refine ih (h'.tick clock) (hrebuild.imp id fun hsame => ?_)
    exact Nat.le_antisymm (hsame.le.trans hcall.1) hrest

/-! ### Reporting the changes -/

/-- A live index after some changes were queued, each at some time. -/
def queueAll (x : Indexer) (l : LiveIndex) (reports : List (Change × Nat)) : LiveIndex :=
  reports.foldl (fun l r => (l.queueChange x.settings.indexing r.1 r.2).2) l

/-- Queueing rebuilds nothing. -/
lemma fullRebuilds_queueAll (x : Indexer) (l : LiveIndex) (reports : List (Change × Nat)) :
    (queueAll x l reports).fullRebuilds = l.fullRebuilds := by
  induction reports generalizing l with
  | nil => rfl
  | cons r reports ih =>
    refine (ih _).trans ?_
    simp only [LiveIndex.queueChange]
    split_ifs <;> rfl

/-- What queueing changes leaves alone, and what is pending then: reports of watched files, among
them those of the given files. -/
structure Queued (p : ProjectChange) (x : Indexer) (l l' : LiveIndex)
    (reported : Set (List String)) :
    Prop where
  index : l'.index = l.index
  batchSize : l'.batchSize = l.batchSize
  pending : ∀ e ∈ l'.queue.entries, ∃ names, p.Reports e.change names ∧ p.watches x names = true
  reported : ∀ names ∈ reported, ∃ e ∈ l'.queue.entries, p.Reports e.change names

/-- Queueing a report adds its file to those that are pending, if it is watched. -/
lemma Queued.queueChange {l l' : LiveIndex} {reported : Set (List String)}
    (h : p.Queued x l l' reported) (hp : p.Regular x) (hroot : l.index.root = pathOf p.root)
    (hc : p.Reports (p.absolute c) names) (now : Nat) :
    p.Queued x l (l'.queueChange x.settings.indexing c now).2
      {ns | ns ∈ reported ∨ ns = names ∧ p.watches x names = true} := by
  have habsolute : l'.absolute c.path = (p.absolute c).path := by
    rw [LiveIndex.absolute, h.index, hroot, absolute]
  have haccepts : l'.accepts x.settings.indexing (p.absolute c).path = p.watches x names :=
    hc.accepts_eq (h.index ▸ hroot)
  unfold LiveIndex.queueChange
  simp only [habsolute, haccepts]
  cases hwatched : p.watches x names with
  | false =>
    refine ⟨h.index, h.batchSize, h.pending, ?_⟩
    rintro ns (hns | ⟨-, hfalse⟩)
    · exact h.reported ns hns
    · cases hfalse
  | true =>
    obtain ⟨new, hentries, hnew⟩ :=
      l'.queue.exists_entries_record ((p.absolute c).path) c.kind now
    -- An older report of the file says the same, so the folded one does.
    have hreports : p.Reports new.change names := by
      rcases hnew with hnew | ⟨old, hold, hsame, hnew⟩
      · exact hnew ▸ hc
      · obtain ⟨names', hnames', -⟩ := h.pending old hold
        obtain rfl := hp.names_eq hnames' hc (beq_iff_eq.mp hsame)
        have hkind : old.change.kind = c.kind := by
          have hkinds := hnames'.kind.symm.trans hc.kind
          exact Option.some.inj hkinds
        rw [hnew, hkind, ChangeKind.coalesce_self, ← hkind]
        exact hnames'
    have hmem : ∀ {e}, e ∈ (l'.queue.record ((p.absolute c).path) c.kind now).entries ↔
        e = new ∨ e ∈ l'.queue.entries ∧ Path.same e.change.path ((p.absolute c).path) = false := by
      intro e
      rw [hentries.mem_iff, List.mem_cons, ChangeQueue.mem_entries_remove]
    refine ⟨h.index, h.batchSize, fun e he => ?_, ?_⟩
    · rcases hmem.mp he with rfl | ⟨he, -⟩
      · exact ⟨names, hreports, hwatched⟩
      · exact h.pending e he
    · rintro ns (hns | ⟨rfl, -⟩)
      · obtain ⟨e, he, hens⟩ := h.reported ns hns
        cases hsame : Path.same e.change.path ((p.absolute c).path) with
        | false => exact ⟨e, hmem.mpr (Or.inr ⟨he, hsame⟩), hens⟩
        | true =>
          obtain rfl := hp.names_eq hens hc (beq_iff_eq.mp hsame)
          exact ⟨new, hmem.mpr (Or.inl rfl), hreports⟩
      · exact ⟨new, hmem.mpr (Or.inl rfl), hreports⟩

/-- When reports were queued, the watched ones among them are pending. -/
lemma queued_queueAll (hp : p.Regular x) {l : LiveIndex} (hroot : l.index.root = pathOf p.root)
    (hempty : l.queue.entries = []) (reports : List (Change × Nat))
    (hreports : ∀ r ∈ reports, ∃ names, p.Reports (p.absolute r.1) names) :
    p.Queued x l (queueAll x l reports) {names | p.watches x names = true ∧
      ∃ r ∈ reports, p.Reports (p.absolute r.1) names} := by
  suffices hrun : ∀ (reports : List (Change × Nat)),
      (∀ r ∈ reports, ∃ names, p.Reports (p.absolute r.1) names) →
      ∀ l' reported, p.Queued x l l' reported →
        p.Queued x l (queueAll x l' reports) {names | names ∈ reported ∨ p.watches x names = true ∧
          ∃ r ∈ reports, p.Reports (p.absolute r.1) names} by
    have hstart : p.Queued x l l ∅ :=
      ⟨rfl, rfl, by simp [hempty], fun names h => absurd h (Set.notMem_empty names)⟩
    have hend := hrun reports hreports l ∅ hstart
    exact ⟨hend.index, hend.batchSize, hend.pending,
      fun names hnames => hend.reported names (Or.inr hnames)⟩
  intro reports
  induction reports with
  | nil =>
    intro _ l' reported h
    refine ⟨h.index, h.batchSize, h.pending, ?_⟩
    rintro names (hnames | ⟨-, r, hr, -⟩)
    · exact h.reported names hnames
    · cases hr
  | cons r reports ih =>
    intro hall l' reported h
    rw [List.forall_mem_cons] at hall
    obtain ⟨⟨names, hnames⟩, hrest⟩ := hall
    have hend := ih hrest _ _ (h.queueChange hp hroot hnames r.2)
    refine ⟨hend.index, hend.batchSize, hend.pending, fun ns hns => ?_⟩
    refine hend.reported ns ?_
    rcases hns with hns | ⟨hwatched, r', hr', hns⟩
    · exact Or.inl (Or.inl hns)
    · rcases List.mem_cons.mp hr' with rfl | hr'
      · obtain rfl := hp.names_eq hns hnames rfl
        exact Or.inl (Or.inr ⟨rfl, hwatched⟩)
      · exact Or.inr ⟨hwatched, r', hr', hns⟩

end ProjectChange

end CodeAtlas
