import CodeAtlas.Proofs.Index.Reachable
import CodeAtlas.Proofs.Index.Recorded

/-!
# Builds and live indexes that take turns

One indexer builds a project and keeps a live index of it.  The two write the same documents on
disk, but only the live index remembers what it wrote: a build replaces the documents and leaves the
live index as it is.

`Indexer.Turn` says what may happen: outside of the index directory anything; changes are queued; a
live index is opened anew; it processes changes; or the project is built.  What any course of such
events keeps is `Indexer.Settled`: on disk stands a whole index of the project, or there is none,
and the live index is one of the same project.  Which index stands there is another matter; after a
turn of the live index it is the live one (`Indexer.Current`).
-/

namespace CodeAtlas

open CodeAtlas.Action CodeAtlas.FileTree

namespace ProjectIndex

variable {x y z : ProjectIndex}

/-- An index with which another one agrees is sound. -/
lemma Agrees.sound_right (h : x.Agrees y) : y.Sound := by
  obtain ⟨S, -, hS⟩ := h.symbols
  obtain ⟨R, -, hR⟩ := h.calls
  obtain ⟨E, hE⟩ := h.edges
  exact ⟨⟨S, hS, hS⟩, ⟨R, hR, hR⟩, ⟨E, h.graph_eq ▸ hE⟩, rfl⟩

/-- An index of a project of which nothing is known is sound. -/
lemma sound_empty (projectId root : String) : (ProjectIndex.empty projectId root).Sound :=
  ⟨⟨∅, .empty, .empty⟩, ⟨∅, .empty, .empty⟩, ⟨∅, CallGraph.holds_empty⟩, rfl⟩

end ProjectIndex

namespace Indexer

open IndexDirectory

variable {x : Indexer} {base : Place} {id root : String} {w w' : Workspace} {index : ProjectIndex}
  {origins : List Origin} {m : IndexMetadata} {s s' between : LiveWorkspace} {batch : List Change}
  {n : Nat}

/-! ### Builds -/

/-- A build that succeeds has made the index anew, and tells the counts of its description. -/
lemma exists_rebuild_of_build {force : Bool} {files symbols callEdges ms : Nat}
    (h : (x.build root force : IndexAction BuildOutcome).runOn w =
      (.ok (.success id files symbols callEdges origins ms), w')) :
    Path.IsPlainName id ∧ ∃ canonical index m,
      (x.rebuildWithMetadata id canonical).runOn w = (.ok (index, origins, m), w') ∧
      files = m.fileCount ∧ symbols = m.symbolCount ∧ callEdges = m.callEdgeCount := by
  have htry : (x.tryBuild root force).runOn w =
      (.ok (.success id files symbols callEdges origins ms), w') := by
    rw [runOn_build_eq] at h
    obtain ⟨houtcome, hafter⟩ := Prod.mk.inj h
    rcases hrun : (x.tryBuild root force).runOn w with ⟨outcome, v⟩
    rw [hrun] at houtcome hafter
    cases outcome with
    | error e => cases Except.ok.inj houtcome
    | ok outcome =>
      obtain rfl := Except.ok.inj houtcome
      obtain rfl := hafter
      rfl
  rw [tryBuild_eq] at htry
  obtain ⟨⟨id', canonical⟩, v, hroot, hrest⟩ := runOn_bind_eq_ok_iff.mp htry
  obtain ⟨rfl, -, hplain, -⟩ := identify_cases hroot
  obtain ⟨known, v', hknown, hbuilt⟩ := runOn_bind_eq_ok_iff.mp hrest
  obtain rfl : v = v' := by simpa only [hknown] using x.keeps_known force id' v
  cases known with
  | some metadata => cases Except.ok.inj (Prod.mk.inj hbuilt).1
  | none =>
    obtain ⟨⟨index, origins', m⟩, v', hrebuild, hlast⟩ := runOn_bind_eq_ok_iff.mp hbuilt
    obtain ⟨houtcome, rfl⟩ := Prod.mk.inj hlast
    injection Except.ok.inj houtcome with hid hfiles hsymbols hedges horigins hms
    subst hid horigins
    exact ⟨hplain, canonical, index, m, hrebuild, hfiles.symm, hsymbols.symm, hedges.symm⟩

/-- A full build that returns the index has made it with its description. -/
lemma exists_rebuildWithMetadata_of_rebuild
    (h : (x.rebuild id root).runOn w = (.ok index, w')) :
    ∃ origins m, (x.rebuildWithMetadata id root).runOn w = (.ok (index, origins, m), w') := by
  obtain ⟨⟨index', origins, m⟩, v, hrebuild, hlast⟩ := runOn_bind_eq_ok_iff.mp h
  obtain ⟨hindex, rfl⟩ := Prod.mk.inj hlast
  obtain rfl := Except.ok.inj hindex
  exact ⟨origins, m, hrebuild⟩

/-- A full build puts the index of the files on disk. -/
lemma records_of_rebuildWithMetadata (hhosts : x.directory.Hosts base w.files)
    (hid : Path.IsPlainName id)
    (h : (x.rebuildWithMetadata id root).runOn w = (.ok (index, origins, m), w')) :
    (∃ merged, w.files.merge x.measurer x.sources id root
        (w.files.walk x.settings.indexing root) = .ok merged ∧
      index = ProjectIndex.ofMerged id root merged) ∧
    x.directory.Hosts base w'.files ∧ x.directory.Records base w'.files index ∧ Counts m index := by
  unfold rebuildWithMetadata at h
  obtain ⟨⟨made, made'⟩, between, hassemble, h⟩ := runOn_bind_eq_ok_iff.mp h
  rw [runOn_bind_of_ok (runOn_get between)] at h
  obtain ⟨m', w₁, hpersist, hlast⟩ := runOn_bind_eq_ok_iff.mp h
  obtain ⟨hresult, rfl⟩ := Prod.mk.inj hlast
  obtain ⟨rfl, rfl, rfl⟩ : made = index ∧ made' = origins ∧ m' = m := by
    simpa [Prod.ext_iff] using Except.ok.inj hresult
  obtain ⟨⟨merged, hmerged, hindex⟩, hbetween⟩ := exists_merge_of_assemble hassemble
  have hprojectId : made.projectId = id := hindex ▸ rfl
  have hsound : made.Sound := hindex ▸ ProjectIndex.sound_ofMerged id root merged
  have hkeeps : KeepsCounts fun m : IndexMetadata => { m with
      origins := made'.map Origin.name, buildMs := between.clock.elapsedMs } :=
    fun m => ⟨rfl, rfl, rfl, rfl⟩
  have hhosts' : x.directory.Hosts base between.files := hbetween ▸ hhosts
  exact ⟨⟨merged, hmerged, hindex⟩,
    hhosts'.records_of_persist (hprojectId ▸ hid) hsound hkeeps hpersist⟩

/-! ### Batches -/

/-- Whatever comes of a batch, the index directory still hosts projects. -/
lemma hosts_of_applyBatch {outcome : Except IndexError Unit}
    (hhosts : x.directory.Hosts base s.workspace.files)
    (hplain : Path.IsPlainName s.live.index.projectId)
    (hrun : (x.applyBatch batch).runOn s = (outcome, s')) :
    x.directory.Hosts base s'.workspace.files := by
  rcases applyBatch_cases hrun with ⟨-, -, -, rfl⟩ | ⟨updates, -, ⟨e, hedits, -⟩ |
    ⟨between, written, w', hedits, hpersist, rfl, -⟩⟩
  · exact hhosts
  · obtain ⟨store, hstore⟩ := exists_store_of_forM_applyUpdate hedits
    exact hstore ▸ hhosts
  · obtain ⟨store, hstore⟩ := exists_store_of_forM_applyUpdate hedits
    have hcontinues := Keeps.forM keeps_applyUpdate updates s
    rw [hedits] at hcontinues
    rw [← hcontinues.projectId] at hplain
    have hbetween : x.directory.Hosts base between.workspace.files := hstore ▸ hhosts
    obtain ⟨t', rfl, hafter, -⟩ := hbetween.persist hplain (fun _ => rfl) hpersist
    exact hafter

/-- A batch that is applied puts the live index on disk. -/
lemma records_of_applyBatch (hhosts : x.directory.Hosts base s.workspace.files)
    (hplain : Path.IsPlainName s.live.index.projectId) (hsound : s.live.index.Sound)
    (hrun : (x.applyBatch batch).runOn s = (.ok (), s')) :
    x.directory.Hosts base s'.workspace.files ∧
      x.directory.Records base s'.workspace.files s'.live.index := by
  rcases applyBatch_cases hrun with ⟨e, -, he, -⟩ | ⟨updates, -, ⟨e, -, he⟩ |
    ⟨between, written, w', hedits, hpersist, rfl, hwritten⟩⟩
  · cases he
  · cases he
  · cases written with
    | error e => cases hwritten
    | ok m =>
      obtain ⟨store, hstore⟩ := exists_store_of_forM_applyUpdate hedits
      have hcontinues := Keeps.forM keeps_applyUpdate updates s
      rw [hedits] at hcontinues
      rw [← hcontinues.projectId] at hplain
      have hbetween : between.live.index.Sound := by
        rw [index_of_forM_applyUpdate hedits]
        exact ProjectIndex.Agrees.foldl_onIndex hsound _
      have hhosts' : x.directory.Hosts base between.workspace.files := hstore ▸ hhosts
      have hkeeps : KeepsCounts id := fun m => ⟨rfl, rfl, rfl, rfl⟩
      obtain ⟨hafter, hrecords, -⟩ := hhosts'.records_of_persist hplain hbetween hkeeps hpersist
      exact ⟨hafter, hrecords⟩

/-! ### Turns -/

/-- What happens to a live index and its workspace while its project is not built: anything outside
the index directory and the way to it, as long as its path starts where it did; a change is queued;
a live index is opened in place of the one that was there; or a call succeeds. -/
inductive LiveTurn (x : Indexer) (base : Place) : LiveWorkspace → LiveWorkspace → Prop
  | outside {s : LiveWorkspace} (w : Workspace)
      (hstart : w.files.startOf x.directory.path = s.workspace.files.startOf x.directory.path)
      (hsame : ∀ q ∈ area base, w.files.entry? q = s.workspace.files.entry? q) :
      LiveTurn x base s { s with workspace := w }
  | queue {s : LiveWorkspace} (c : Change) (now : Nat) :
      LiveTurn x base s { s with live := (s.live.queueChange x.settings.indexing c now).2 }
  | reopen {s : LiveWorkspace} {index : ProjectIndex}
      (h : (x.loadProject s.live.index.projectId s.live.index.root).runOn s.workspace =
        (.ok (some index), s.workspace)) :
      LiveTurn x base s { s with live := .ofIndex x.settings.watch index }
  | process {s s' : LiveWorkspace} {n : Nat} (h : x.processPending.runOn s = (.ok n, s')) :
      LiveTurn x base s s'
  | force {s s' : LiveWorkspace} {paths : List String} {n : Nat}
      (h : (x.forceUpdate paths).runOn s = (.ok n, s')) : LiveTurn x base s s'

/-- What happens to a live index and its workspace, or a build of its project succeeds. -/
inductive Turn (x : Indexer) (base : Place) : LiveWorkspace → LiveWorkspace → Prop
  | live {s s' : LiveWorkspace} (h : x.LiveTurn base s s') : Turn x base s s'
  | build {s : LiveWorkspace} {w' : Workspace} {root : String} {force : Bool}
      {files symbols callEdges ms : Nat} {origins : List Origin}
      (h : (x.build root force : IndexAction BuildOutcome).runOn s.workspace =
        (.ok (.success s.live.index.projectId files symbols callEdges origins ms), w')) :
      Turn x base s { s with workspace := w' }

/-- An index of the project stands on disk. -/
structure OnDisk (x : Indexer) (base : Place) (s : LiveWorkspace) (index : ProjectIndex) : Prop
    extends x.directory.Records base s.workspace.files index where
  projectId_eq : index.projectId = s.live.index.projectId

/-- On disk stands an index of the project, or there is none, and the live index is sound. -/
structure Settled (x : Indexer) (base : Place) (s : LiveWorkspace) : Prop where
  plain : Path.IsPlainName s.live.index.projectId
  hosts : x.directory.Hosts base s.workspace.files
  sound : s.live.index.Sound
  disk : s.workspace.files.fileAt? (placesIn base s.live.index.projectId).metadata = none ∨
    ∃ index, x.OnDisk base s index

/-- The live index and the one on disk have the same symbols, references and edges. -/
def Current (x : Indexer) (base : Place) (s : LiveWorkspace) : Prop :=
  ∃ index, x.OnDisk base s index ∧ index.Agrees s.live.index

/-- A turn of the live index after which it stands on disk itself, if it wrote anything; else at
most the pending changes are others. -/
structure Wrote (x : Indexer) (base : Place) (s s' : LiveWorkspace) : Prop where
  plain : Path.IsPlainName s'.live.index.projectId
  hosts : x.directory.Hosts base s'.workspace.files
  records : x.directory.Records base s'.workspace.files s'.live.index
  projectId_eq : s'.live.index.projectId = s.live.index.projectId

namespace Wrote

/-- What was written is on disk. -/
lemma onDisk (h : x.Wrote base s s') : x.OnDisk base s' s'.live.index := ⟨h.records, rfl⟩

/-- Then all is settled. -/
lemma settled (h : x.Wrote base s s') : x.Settled base s' :=
  ⟨h.plain, h.hosts, h.records.sound, Or.inr ⟨_, h.onDisk⟩⟩

/-- Then the live index is the one on disk. -/
lemma current (h : x.Wrote base s s') : x.Current base s' := ⟨_, h.onDisk, h.records.sound⟩

end Wrote

/-- A turn of the live index that leaves alone what stands on disk.  The live index is what it was,
or it agrees with the one on disk. -/
structure Kept (x : Indexer) (base : Place) (s s' : LiveWorkspace) : Prop where
  settled : x.Settled base s'
  projectId_eq : s'.live.index.projectId = s.live.index.projectId
  onDisk_iff : ∀ index, x.OnDisk base s' index ↔ x.OnDisk base s index
  live : s'.live.index = s.live.index ∨ ∃ index, x.OnDisk base s index ∧ index.Agrees s'.live.index

namespace Settled

/-- What a live index is told to do later is of no account. -/
lemma withLive (h : x.Settled base s) (live : LiveIndex) (hindex : live.index = s.live.index) :
    x.Kept base s { s with live := live } := by
  have hiff : ∀ index, x.OnDisk base { s with live := live } index ↔ x.OnDisk base s index :=
    fun index => ⟨fun hdisk => ⟨hdisk.toRecords, hindex ▸ hdisk.projectId_eq⟩,
      fun hdisk => ⟨hdisk.toRecords, hdisk.projectId_eq.trans (congrArg _ hindex.symm)⟩⟩
  refine ⟨⟨hindex ▸ h.plain, h.hosts, hindex ▸ h.sound, ?_⟩, congrArg _ hindex, hiff, Or.inl hindex⟩
  refine h.disk.imp (fun hnone => hindex ▸ hnone) ?_
  rintro ⟨index, hdisk⟩
  exact ⟨index, (hiff index).mpr hdisk⟩

/-- A full build writes the index that takes the place of the live one. -/
lemma wrote_of_rebuild (hplain : Path.IsPlainName s.live.index.projectId)
    (hhosts : x.directory.Hosts base s.workspace.files) {rebuilt : ProjectIndex}
    (hrun : (x.rebuild s.live.index.projectId s.live.index.root).runOn s.workspace =
      (.ok rebuilt, w)) :
    x.Wrote base s (afterRebuild s rebuilt w) := by
  obtain ⟨origins, m, hrebuild⟩ := exists_rebuildWithMetadata_of_rebuild hrun
  obtain ⟨⟨merged, -, rfl⟩, hafter, hrecords, -⟩ :=
    records_of_rebuildWithMetadata hhosts hplain hrebuild
  exact ⟨hplain, hafter, hrecords, rfl⟩

/-- A batch that is tried ends with the live index on disk, also where a rebuild takes its place. -/
lemma wrote_of_applyOrRebuild (h : x.Settled base s)
    (hrun : (x.applyOrRebuild batch).runOn s = (.ok n, s')) : x.Wrote base s s' := by
  have hkeeps := x.keeps_applyBatch batch s
  rcases runOn_applyOrRebuild_cases hrun with ⟨between, hbatch, -, rfl⟩ |
    ⟨e, between, w, hbatch, ⟨rebuilt, hrebuild, -, rfl⟩ | ⟨cause, -, hcause, -⟩⟩
  · rw [hbatch] at hkeeps
    obtain ⟨hhosts, hrecords⟩ := records_of_applyBatch h.hosts h.plain h.sound hbatch
    exact ⟨hkeeps.projectId ▸ h.plain, hhosts, hrecords, hkeeps.projectId⟩
  · rw [hbatch] at hkeeps
    have hplain : Path.IsPlainName between.live.index.projectId := hkeeps.projectId ▸ h.plain
    have hwrote := wrote_of_rebuild hplain (hosts_of_applyBatch h.hosts h.plain hbatch) hrebuild
    exact ⟨hwrote.plain, hwrote.hosts, hwrote.records, hwrote.projectId_eq.trans hkeeps.projectId⟩
  · cases hcause

/-- Processing what is pending does nothing but look at the queue, or it ends with the live index on
disk. -/
lemma wrote_of_processPending (h : x.Settled base s)
    (hrun : x.processPending.runOn s = (.ok n, s')) :
    (∃ queue, s' = Indexer.withQueue s queue) ∨ x.Wrote base s s' := by
  rcases htake : s.live.queue.takeReady s.live.batchSize s.workspace.clock.milliseconds with
    ⟨batch, queue⟩
  rw [runOn_processPending_of_takeReady x htake] at hrun
  split_ifs at hrun
  · obtain ⟨-, rfl⟩ := Prod.mk.inj hrun
    exact Or.inl ⟨queue, rfl⟩
  · have hqueue := (h.withLive (withQueue s queue).live rfl).settled
    have hwrote := hqueue.wrote_of_applyOrRebuild hrun
    exact Or.inr ⟨hwrote.plain, hwrote.hosts, hwrote.records, hwrote.projectId_eq⟩

/-- A forced update ends with the live index on disk. -/
lemma wrote_of_forceUpdate {paths : List String} (h : x.Settled base s)
    (hrun : (x.forceUpdate paths).runOn s = (.ok n, s')) : x.Wrote base s s' := by
  by_cases hnil : paths = []
  · rw [hnil, Indexer.forceUpdate, if_pos List.isEmpty_nil] at hrun
    obtain ⟨_, between, hrebuild, hlast⟩ := runOn_bind_eq_ok_iff.mp hrun
    obtain ⟨-, rfl⟩ := Prod.mk.inj hlast
    obtain ⟨rebuilt, w, hbuilt, rfl⟩ := exists_rebuild_of_rebuildLive hrebuild
    exact wrote_of_rebuild h.plain h.hosts hbuilt
  · rw [runOn_forceUpdate_of_ne_nil x hnil] at hrun
    have hqueue := (h.withLive (withQueue s
      ((paths.map s.live.absolute).foldl ChangeQueue.remove s.live.queue)).live rfl).settled
    have hwrote := hqueue.wrote_of_applyOrRebuild hrun
    exact ⟨hwrote.plain, hwrote.hosts, hwrote.records, hwrote.projectId_eq⟩

/-- A live index that is opened agrees with the one on disk. -/
lemma exists_agrees_of_loadProject (h : x.Settled base s)
    (hload : (x.loadProject s.live.index.projectId s.live.index.root).runOn s.workspace =
      (.ok (some index), s.workspace)) :
    index.projectId = s.live.index.projectId ∧
      ∃ stored, x.OnDisk base s stored ∧ stored.Agrees index := by
  rcases h.disk with hnone | ⟨stored, hstored⟩
  · have hmissing := h.hosts.liesAt.isFile_metadataPath h.plain hnone
    rw [runOn_loadProject_of_not_isFile hmissing] at hload
    cases Except.ok.inj (Prod.mk.inj hload).1
  · have hfound := hstored.runOn_loadProject s.live.index.root
    rw [hstored.projectId_eq, hload] at hfound
    obtain rfl := Option.some.inj (Except.ok.inj (Prod.mk.inj hfound).1)
    exact ⟨rfl, stored, hstored, hstored.sound.agrees_ofSnapshot _ _⟩

/-- What happens outside the index directory is of no account. -/
lemma outside (h : x.Settled base s)
    (hstart : w.files.startOf x.directory.path = s.workspace.files.startOf x.directory.path)
    (hsame : ∀ q ∈ area base, w.files.entry? q = s.workspace.files.entry? q) :
    x.Kept base s { s with workspace := w } := by
  have hhosts := h.hosts.congr hstart hsame
  have hiff : ∀ index, x.OnDisk base { s with workspace := w } index ↔ x.OnDisk base s index := by
    refine fun index => ⟨fun hdisk => ?_, fun hdisk => ?_⟩
    · have hplain : Path.IsPlainName index.projectId := hdisk.projectId_eq ▸ h.plain
      exact ⟨hdisk.toRecords.congr hhosts hplain hstart.symm fun q hq => (hsame q hq).symm,
        hdisk.projectId_eq⟩
    · have hplain : Path.IsPlainName index.projectId := hdisk.projectId_eq ▸ h.plain
      exact ⟨hdisk.toRecords.congr h.hosts hplain hstart hsame, hdisk.projectId_eq⟩
  refine ⟨⟨h.plain, hhosts, h.sound, h.disk.imp (fun hnone => ?_) ?_⟩, rfl, hiff, Or.inl rfl⟩
  · have hplace := all_subset_area base s.live.index.projectId (Or.inr (Or.inr rfl))
    rw [fileAt?, hsame _ hplace, ← fileAt?, hnone]
  · rintro ⟨index, hdisk⟩
    exact ⟨index, (hiff index).mpr hdisk⟩

/-- A turn of the live index puts it on disk, or it leaves alone what stands there. -/
lemma wrote_or_kept (h : x.Settled base s) (hturn : x.LiveTurn base s s') :
    x.Wrote base s s' ∨ x.Kept base s s' := by
  cases hturn with
  | outside w hstart hsame => exact Or.inr (h.outside hstart hsame)
  | queue c now =>
    refine Or.inr (h.withLive _ ?_)
    simp only [LiveIndex.queueChange]
    split_ifs <;> rfl
  | @reopen index hload =>
    obtain ⟨hid, stored, hstored, hagrees⟩ := h.exists_agrees_of_loadProject hload
    have hiff : ∀ index', x.OnDisk base { s with live := .ofIndex x.settings.watch index } index' ↔
        x.OnDisk base s index' := fun index' =>
      ⟨fun hdisk => ⟨hdisk.toRecords, hdisk.projectId_eq.trans hid⟩,
        fun hdisk => ⟨hdisk.toRecords, hdisk.projectId_eq.trans hid.symm⟩⟩
    have hplain : Path.IsPlainName index.projectId := hid ▸ h.plain
    exact Or.inr ⟨⟨hplain, h.hosts, hagrees.sound_right,
      Or.inr ⟨stored, (hiff stored).mpr hstored⟩⟩, hid, hiff, Or.inr ⟨stored, hstored, hagrees⟩⟩
  | process hrun =>
    rcases h.wrote_of_processPending hrun with ⟨queue, rfl⟩ | hwrote
    · exact Or.inr (h.withLive _ rfl)
    · exact Or.inl hwrote
  | force hrun => exact Or.inl (h.wrote_of_forceUpdate hrun)

/-- A turn of the live index keeps all settled, and a current index stays current. -/
lemma liveTurn (h : x.Settled base s) (hturn : x.LiveTurn base s s') :
    x.Settled base s' ∧ s'.live.index.projectId = s.live.index.projectId ∧
      (x.Current base s → x.Current base s') := by
  rcases h.wrote_or_kept hturn with hwrote | hkept
  · exact ⟨hwrote.settled, hwrote.projectId_eq, fun _ => hwrote.current⟩
  · refine ⟨hkept.settled, hkept.projectId_eq, fun ⟨index, hdisk, hagrees⟩ => ?_⟩
    rcases hkept.live with hsame | ⟨stored, hstored, hreopened⟩
    · exact ⟨index, (hkept.onDisk_iff index).mpr hdisk, hsame ▸ hagrees⟩
    · exact ⟨stored, (hkept.onDisk_iff stored).mpr hstored, hreopened⟩

/-- A build that succeeds puts the index of the files on disk, and tells its counts. -/
lemma exists_onDisk_of_build (h : x.Settled base s) {force : Bool}
    {files symbols callEdges ms : Nat}
    (hrun : (x.build root force : IndexAction BuildOutcome).runOn s.workspace =
      (.ok (.success s.live.index.projectId files symbols callEdges origins ms), w')) :
    x.Settled base { s with workspace := w' } ∧ ∃ canonical merged,
      s.workspace.files.merge x.measurer x.sources s.live.index.projectId canonical
        (s.workspace.files.walk x.settings.indexing canonical) = .ok merged ∧
      let index := ProjectIndex.ofMerged s.live.index.projectId canonical merged
      x.OnDisk base { s with workspace := w' } index ∧ files = index.stats.files ∧
        symbols = index.stats.symbols ∧ callEdges = index.stats.callEdges := by
  obtain ⟨hplain, canonical, index, m, hrebuild, hfiles, hsymbols, hedges⟩ :=
    exists_rebuild_of_build hrun
  obtain ⟨⟨merged, hmerged, rfl⟩, hhosts, hrecords, hcounts⟩ :=
    records_of_rebuildWithMetadata h.hosts hplain hrebuild
  have hdisk : x.OnDisk base { s with workspace := w' }
      (.ofMerged s.live.index.projectId canonical merged) := ⟨hrecords, rfl⟩
  exact ⟨⟨hplain, hhosts, h.sound, Or.inr ⟨_, hdisk⟩⟩, canonical, merged, hmerged, hdisk,
    hfiles.trans hcounts.2.1, hsymbols.trans hcounts.1, hedges.trans hcounts.2.2⟩

/-- Every turn keeps all settled. -/
lemma turn (h : x.Settled base s) (hturn : x.Turn base s s') :
    x.Settled base s' ∧ s'.live.index.projectId = s.live.index.projectId := by
  cases hturn with
  | live hlive =>
    obtain ⟨hsettled, hid, -⟩ := h.liveTurn hlive
    exact ⟨hsettled, hid⟩
  | build hrun => exact ⟨(h.exists_onDisk_of_build hrun).1, rfl⟩

/-- Every course of events keeps all settled. -/
lemma run (h : x.Settled base s) (hrun : Relation.ReflTransGen (x.Turn base) s s') :
    x.Settled base s' ∧ s'.live.index.projectId = s.live.index.projectId := by
  induction hrun with
  | refl => exact ⟨h, rfl⟩
  | tail hrun hturn ih =>
    obtain ⟨hsettled, hid⟩ := ih.1.turn hturn
    exact ⟨hsettled, hid.trans ih.2⟩

/-- While the project is not built, a live index that is current stays so. -/
lemma liveRun (h : x.Settled base s) (hcurrent : x.Current base s)
    (hrun : Relation.ReflTransGen (x.LiveTurn base) s s') :
    x.Settled base s' ∧ x.Current base s' := by
  induction hrun with
  | refl => exact ⟨h, hcurrent⟩
  | tail hrun hturn ih =>
    obtain ⟨hsettled, -, hkept⟩ := ih.1.liveTurn hturn
    exact ⟨hsettled, hkept ih.2⟩

end Settled

/-! ### A build over a bare index -/

section

open ProjectChange

/-- The documents of the bare index were added to the project. -/
lemma addsDocuments_bareFiles : oneFile.AddsDocuments bareFiles :=
  ((AddsDocuments.put_document ⟨"symbols.json", rfl, ⟨"symbols", by decide⟩, by decide⟩
    (by rintro ⟨⟩)).trans
    (AddsDocuments.put_document ⟨"call_graph.json", rfl, ⟨"call_graph", by decide⟩, by decide⟩
      (by rintro ⟨⟩))).trans
    (AddsDocuments.put_document ⟨"p.json", rfl, ⟨"p", by decide⟩, by decide⟩ (by rintro ⟨⟩))

/-- The description of the bare index is the only one. -/
lemma fileAt?_metadata_bareFiles {id : String} (hid : id ≠ "p") :
    bareFiles.fileAt? (placesIn ["i"] id).metadata = none := by
  have hne := notMem_placesIn ["i"] hid (placesIn ["i"] id).metadata (Or.inr (Or.inr rfl))
  simp only [DocumentPlaces.all, Set.mem_insert_iff, Set.mem_singleton_iff, not_or] at hne
  have hbefore : bareFiles.entry? (placesIn ["i"] id).metadata =
      oneFile.entry? (placesIn ["i"] id).metadata :=
    (entry?_put_of_ne _ hne.2.2).trans
      ((entry?_put_of_ne _ hne.2.1).trans (entry?_put_of_ne _ hne.1))
  cases hfile : bareFiles.fileAt? (placesIn ["i"] id).metadata with
  | none => rfl
  | some content =>
    rw [fileAt?_eq_some_iff, hbefore] at hfile
    rcases entry?_addition (mem_addition .empty).1 hfile with h | ⟨hplace, -⟩ | ⟨hplace, -⟩
    · cases h
    · simp [placesIn] at hplace
    · simp [placesIn] at hplace

/-- The index directory of the project hosts projects. -/
lemma hosts_bareFiles : smallIndexer.directory.Hosts ["i"] bareFiles where
  toIsAt := .of_path rfl (by decide)
  ne_link q _ target htarget := by
    have hold := addsDocuments_bareFiles.link q target htarget
    rcases entry?_addition (mem_addition .empty).1 hold with h | ⟨-, h⟩ | ⟨-, h⟩ <;> cases h
  own id _ content m hcontent hm := by
    by_cases hid : id = "p"
    · subst hid
      have hstands : bareFiles.fileAt? (placesIn ["i"] "p").metadata =
          some (Storage.fileOf bareMetadata.toJson) := rfl
      obtain rfl := Option.some.inj (hstands.symm.trans hcontent)
      rw [IndexMetadata.description?_fileOf, parse?_bareMetadata] at hm
      rw [← Option.some.inj hm]
      rfl
    · rw [fileAt?_metadata_bareFiles hid] at hcontent
      cases hcontent

/-- An indexer of small files that asks supplementary tools. -/
def supplied (sources : List SymbolSource) : Indexer := { smallIndexer with sources := sources }

/-- The bare index stands on disk. -/
lemma onDisk_bareWorkspace (sources : List SymbolSource) :
    (supplied sources).OnDisk ["i"] bareWorkspace bareIndex where
  sound := ProjectIndex.sound_empty "p" "/p"
  documents := ⟨bareMetadata, hasDocuments_bareFiles, rfl, rfl, rfl⟩
  projectId_eq := rfl

/-- All is settled in the workspace. -/
lemma settled_bareWorkspace (sources : List SymbolSource) :
    (supplied sources).Settled ["i"] bareWorkspace where
  plain := by decide
  hosts := hosts_bareFiles
  sound := ProjectIndex.sound_empty "p" "/p"
  disk := Or.inr ⟨bareIndex, onDisk_bareWorkspace sources⟩

/-- What is put together of the project. -/
def builtMerge (sources : List SymbolSource) : MergedExtraction :=
  .ofParts ["a.c"] [oneExtraction] (sources.filterMap fun source =>
    (source.symbols? (pathOf ["p"]) ["/p/a.c"]).map fun symbols => (source.origin, symbols))

/-- The index of the project. -/
def builtIndex (sources : List SymbolSource) : ProjectIndex :=
  .ofMerged "p" (pathOf ["p"]) (builtMerge sources)

/-- It has a symbol in the file of the project. -/
lemma exists_symbol_builtIndex :
    ∃ y, y ∈ (builtIndex []).snapshot.symbols ∧ y.file = "a.c" := by
  have hany : (builtIndex []).snapshot.symbols.any (fun y => y.file = "a.c") = true := by
    decide +kernel
  obtain ⟨y, hy, hfile⟩ := List.any_eq_true.mp hany
  exact ⟨y, hy, of_decide_eq_true hfile⟩

/-- Its description, which takes the place of that of the bare index. -/
def builtMetadata (sources : List SymbolSource) : IndexMetadata :=
  { describe (builtIndex sources) (some bareMetadata) ⟨0, 0⟩ with
    origins := (builtMerge sources).origins.map Origin.name, buildMs := 0 }

/-- The description of what syntax trees give can be read back. -/
lemma parse?_builtMetadata : (Json.parse? (builtMetadata []).toJson.pretty).bind
    IndexMetadata.ofJson? = some (builtMetadata []) := by
  rw [IndexMetadata.parse?_pretty]
  decide +kernel

/-- The project can be built over the bare index. -/
lemma exists_build_bareFiles (sources : List SymbolSource) : ∃ w',
    ((supplied sources).build "/p" true : IndexAction BuildOutcome).runOn bareWorkspace.workspace =
      (.ok (.success "p" (builtIndex sources).stats.files (builtIndex sources).stats.symbols
        (builtIndex sources).stats.callEdges (builtMerge sources).origins 0), w') ∧
    RefusesNothing w' ∧ Grows Set.univ oneFile w'.files ∧
    smallIndexer.directory.HasDocuments "p" (placesIn ["i"] "p") w'.files
      (Storage.fileOf (builtIndex sources).snapshot.toJson)
      (Storage.fileOf (builtIndex sources).graph.toJson) (builtMetadata sources) := by
  have hroot : (identify "/p").runOn bareWorkspace.workspace =
      (.ok ("p", pathOf ["p"]), bareWorkspace.workspace) :=
    identify_project wellFormed_bareFiles rfl
  have hmerged : bareFiles.merge (supplied sources).measurer (supplied sources).sources "p"
      (pathOf ["p"]) (bareFiles.walk (supplied sources).settings.indexing (pathOf ["p"])) =
        .ok (builtMerge sources) := merge_oneFile addsDocuments_bareFiles sources
  let between := withStore bareWorkspace.workspace
    ((bareWorkspace.workspace.documents.store.clear "p").upsert (builtIndex sources).documents)
  have hassemble : ((supplied sources).assemble "p" (pathOf ["p"])).runOn bareWorkspace.workspace =
      (.ok (builtIndex sources, (builtMerge sources).origins), between) := by
    rw [runOn_assemble]
    simp only [bareWorkspace, hmerged]
    rfl
  have hkeeps : KeepsCounts fun m : IndexMetadata => { m with
      origins := (builtMerge sources).origins.map Origin.name, buildMs := 0 } :=
    fun m => ⟨rfl, rfl, rfl, rfl⟩
  have hdocuments : (supplied sources).directory.HasDocuments (builtIndex sources).projectId
      (placesIn ["i"] "p") between.files (Storage.fileOf bareIndex.snapshot.toJson)
      (Storage.fileOf bareIndex.graph.toJson) bareMetadata := hasDocuments_bareFiles
  have hroom :
      (supplied sources).directory.AwaitsIndex oneFile ["i"] (builtIndex sources).projectId :=
    awaitsIndex_oneFile
  obtain ⟨t, hpersist, hgrows, hwritten⟩ := hdocuments.runOn_persist hroom grows_bareFiles
    parse?_bareMetadata fun m => (hkeeps m).1
  refine ⟨_, runOn_build_forced hroot (runOn_rebuildWithMetadata hassemble hpersist), fun _ => rfl,
    grows_bareFiles.trans (hgrows.mono (Set.subset_univ _)), hwritten⟩

end

end Indexer

end CodeAtlas
