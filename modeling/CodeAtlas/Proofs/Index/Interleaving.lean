import CodeAtlas.Proofs.Index.Forgetting
import CodeAtlas.Proofs.Index.TakingTurns

/-!
# What a batch does to the files that it does not name

A batch edits the live index and writes all of it to disk.  An edit of one file leaves the symbols
of the others alone and the calls that come from them, as long as no identifier is taken from them
(`ProjectIndex.part_foldl_onIndex`).  So after a batch there stands on disk, of every other file,
what the live index had of it.

That is what stood there before if the live index is as new as the one on disk, and it stays so as
long as only the live index is written.  A build in between writes what the live index does not
know, and the next batch undoes it (`Indexer.part_of_batchCall`).
-/

namespace CodeAtlas

open CodeAtlas.Action CodeAtlas.FileTree

/-- What a snapshot says of a file: its symbols, and the calls that come from them. -/
def Snapshot.part (s : Snapshot) (file : String) : Set Symbol × Set CallReference :=
  ({y | y ∈ s.symbols ∧ y.file = file},
    {r | r ∈ s.calls ∧ ∃ y ∈ s.symbols, y.file = file ∧ y.id = r.caller})

/-- An edit is one of another file, and what it puts in takes no identifier from the symbols of the
file. -/
def FileEdit.LeavesFile (x : ProjectIndex) (file : String) : FileEdit → Prop
  | .remove g => g ≠ file
  | .replace g e => g ≠ file ∧ e.SpeaksOf g ∧
      ∀ y ∈ e.symbols, ∀ z ∈ x.snapshot.symbols, z.file = file → y.id ≠ z.id

namespace ProjectIndex

variable {x y : ProjectIndex} {file g : String} {e : Extraction} {edits : List FileEdit}

/-- Two snapshots say the same of a file if they have the same symbols of it, and the same calls
from these symbols. -/
lemma part_eq (hsymbols : ∀ s : Symbol, s.file = file →
      (s ∈ y.snapshot.symbols ↔ s ∈ x.snapshot.symbols))
    (hcalls : ∀ r : CallReference, (∃ s ∈ x.snapshot.symbols, s.file = file ∧ s.id = r.caller) →
      (r ∈ y.snapshot.calls ↔ r ∈ x.snapshot.calls)) :
    y.snapshot.part file = x.snapshot.part file := by
  have hcaller : ∀ r : CallReference,
      (∃ s ∈ y.snapshot.symbols, s.file = file ∧ s.id = r.caller) ↔
        ∃ s ∈ x.snapshot.symbols, s.file = file ∧ s.id = r.caller := by
    refine fun r => ⟨?_, ?_⟩
    · rintro ⟨s, hs, hfile, hid⟩
      exact ⟨s, (hsymbols s hfile).mp hs, hfile, hid⟩
    · rintro ⟨s, hs, hfile, hid⟩
      exact ⟨s, (hsymbols s hfile).mpr hs, hfile, hid⟩
  refine Prod.ext (Set.ext fun s => ?_) (Set.ext fun r => ?_)
  · exact and_congr_left fun hfile => hsymbols s hfile
  · exact (and_congr_right fun _ => hcaller r).trans (and_congr_left fun hr => hcalls r hr)

/-- A file that is retracted takes nothing from another one, since no two symbols share an
identifier. -/
lemma part_removeFile (hx : x.Sound) (hne : g ≠ file) :
    (x.removeFile g).2.snapshot.part file = x.snapshot.part file := by
  obtain ⟨S, hS, -⟩ := hx.symbols
  obtain ⟨R, hR, -⟩ := hx.calls
  have hcalls := hR.removeCallers ((x.symbols.removeFile g).1.map (·.id))
  apply part_eq
  · intro s hfile
    refine (mem_symbols_removeFile hx s).trans (and_iff_left ?_)
    exact fun hsame => hne (hsame.symm.trans hfile)
  · rintro r ⟨s, hs, hfile, hid⟩
    refine (hcalls.mem_toList r).trans (Iff.trans (and_iff_left ?_) (hR.mem_toList r).symm)
    intro hremoved
    obtain ⟨s', hs', hid'⟩ := List.mem_map.mp hremoved
    obtain ⟨hs', hfile'⟩ := hS.mem_removeFile.mp hs'
    have hstands := (hS.get?_eq_some_iff s).mpr ((hS.mem_toList s).mp hs)
    have hstands' := (hS.get?_eq_some_iff s').mpr hs'
    rw [hid'.trans hid.symm, hstands] at hstands'
    rw [← Option.some.inj hstands', hfile] at hfile'
    exact hne hfile'.symm

/-- A file that is put in adds nothing to another one, and takes nothing from it but by taking
identifiers. -/
lemma part_insertFile (hx : x.Sound) (hne : g ≠ file) (he : e.SpeaksOf g)
    (hids : ∀ y ∈ e.symbols, ∀ z ∈ x.snapshot.symbols, z.file = file → y.id ≠ z.id) :
    (x.insertFile g e).snapshot.part file = x.snapshot.part file := by
  obtain ⟨S, hS, -⟩ := hx.symbols
  obtain ⟨R, hR, -⟩ := hx.calls
  obtain ⟨E, hE⟩ := hx.edges
  obtain ⟨T, hT, -⟩ := hS.exists_insertAll hS e.symbols
  have hcalls := (holds_insertFile g hE hR hT).1
  apply part_eq
  · intro s hfile
    constructor
    · intro hs
      rcases mem_or_mem_of_insertFile hx hs with hs | hs
      · exact absurd ((he.file_eq s hs).symm.trans hfile) hne
      · exact hs
    · intro hs
      have hknown : (x.insertFile g e).Knows s.id :=
        (knows_insertFile_iff hx).mpr (Or.inr ⟨s, hs, rfl⟩)
      obtain ⟨s', hs', hid⟩ := hknown
      -- The symbol that stands under the identifier is an old one, so it is the same.
      rcases mem_or_mem_of_insertFile hx hs' with hnew | hold
      · exact absurd hid (hids s' hnew s hs hfile)
      · have hstands := (hS.get?_eq_some_iff s).mpr ((hS.mem_toList s).mp hs)
        have hstands' := (hS.get?_eq_some_iff s').mpr ((hS.mem_toList s').mp hold)
        rw [hid, hstands] at hstands'
        rw [Option.some.inj hstands']
        exact hs'
  · rintro r ⟨s, hs, hfile, hid⟩
    refine (hcalls.mem_toList r).trans (Iff.trans (or_iff_left ?_) (hR.mem_toList r).symm)
    intro hr
    obtain ⟨s', hs', -, hid'⟩ := he.caller_mem r hr
    exact hids s' hs' s hs hfile (hid'.trans hid.symm)

/-- An edit of another file leaves a file alone. -/
lemma part_onIndex (hx : x.Sound) {edit : FileEdit} (h : edit.LeavesFile x file) :
    (edit.onIndex x).snapshot.part file = x.snapshot.part file := by
  cases edit with
  | remove g => exact part_removeFile hx h
  | replace g e =>
    obtain ⟨hne, he, hids⟩ := h
    have hremoved := part_removeFile hx hne
    refine (part_insertFile (Agrees.removeFile hx g) hne he
      fun y hy z hz hfile => ?_).trans hremoved
    exact hids y hy z ((mem_symbols_removeFile hx z).mp hz).1 hfile

/-- Whether an edit leaves a file alone depends on what there is of the file. -/
lemma leavesFile_congr {edit : FileEdit} (hpart : y.snapshot.part file = x.snapshot.part file)
    (h : edit.LeavesFile x file) : edit.LeavesFile y file := by
  cases edit with
  | remove g => exact h
  | replace g e =>
    obtain ⟨hne, he, hids⟩ := h
    refine ⟨hne, he, fun s hs z hz hfile => hids s hs z ?_ hfile⟩
    have hmem : z ∈ (y.snapshot.part file).1 := ⟨hz, hfile⟩
    rw [hpart] at hmem
    exact hmem.1

/-- Edits of other files leave a file alone. -/
lemma part_foldl_onIndex (hx : x.Sound) (h : ∀ edit ∈ edits, edit.LeavesFile x file) :
    (edits.foldl FileEdit.onIndex x).snapshot.part file = x.snapshot.part file := by
  induction edits generalizing x with
  | nil => rfl
  | cons edit edits ih =>
    rw [List.forall_mem_cons] at h
    have hfirst := part_onIndex hx h.1
    refine (ih (Agrees.onIndex hx edit) fun edit' he => ?_).trans hfirst
    exact leavesFile_congr hfirst (h.2 edit' he)

/-- Indexes that agree say the same of every file. -/
lemma Agrees.part_eq (h : x.Agrees y) (file : String) :
    y.snapshot.part file = x.snapshot.part file := by
  rw [Snapshot.part, Snapshot.part, h.symbols_eq, h.calls_eq]

end ProjectIndex

namespace Indexer

open IndexDirectory

variable {x : Indexer} {base : Place} {s₀ s₁ s s' : LiveWorkspace} {batch : List Change}
  {file : String} {n : Nat} {stored : Snapshot} {w : Workspace}

/-! ### Batches -/

/-- A call succeeds that takes up a batch of changes: those that are pending and ready, or those of
files that are extracted again without waiting. -/
inductive BatchCall (x : Indexer) : List Change → LiveWorkspace → LiveWorkspace → Prop
  | process {s s' : LiveWorkspace} {batch : List Change} {queue : ChangeQueue} {n : Nat}
      (htake : s.live.queue.takeReady s.live.batchSize s.workspace.clock.milliseconds =
        (batch, queue)) (hne : batch ≠ [])
      (h : x.processPending.runOn s = (.ok n, s')) : BatchCall x batch s s'
  | force {s s' : LiveWorkspace} {paths : List String} {n : Nat} (hne : paths ≠ [])
      (h : (x.forceUpdate paths).runOn s = (.ok n, s')) :
      BatchCall x ((paths.map s.live.absolute).map fun p => ⟨p, .modified⟩) s s'

/-- No change of a batch is one of a file, and nothing that is extracted for the batch takes an
identifier from the symbols that the live index has of it. -/
def LeavesFile (x : Indexer) (batch : List Change) (s : LiveWorkspace) (file : String) : Prop :=
  ∀ c ∈ batch, Path.relative s.live.index.root c.path ≠ file ∧
    ∀ e, x.updateOf s.workspace.files s.live.index.root c =
        .ok ⟨Path.relative s.live.index.root c.path, some e⟩ →
      ∀ y ∈ e.symbols, ∀ z ∈ s.live.index.snapshot.symbols, z.file = file → y.id ≠ z.id

/-- A snapshot of the project stands on disk. -/
def Stores (x : Indexer) (s : LiveWorkspace) (snapshot : Snapshot) : Prop :=
  ∃ graph, (x.directory.snapshots s.live.index.projectId).load.runOn s.workspace.files =
    (.ok (some (snapshot, graph)), s.workspace.files)

/-- One snapshot stands on disk. -/
lemma Stores.unique {stored' : Snapshot} (h : x.Stores s stored) (h' : x.Stores s stored') :
    stored = stored' := by
  obtain ⟨graph, hload⟩ := h
  obtain ⟨graph', hload'⟩ := h'
  rw [hload] at hload'
  exact (Prod.mk.inj (Option.some.inj (Except.ok.inj (Prod.mk.inj hload').1))).1

/-- The snapshot of an index that stands on disk does. -/
lemma OnDisk.stores {index : ProjectIndex} (h : x.OnDisk base s index) :
    x.Stores s index.snapshot := by
  have hload := h.runOn_load
  rw [h.projectId_eq] at hload
  exact ⟨index.graph, hload⟩

/-- An update is one of the file of its change. -/
lemma file_of_updateOf {t : FileTree} {root : String} {c : Change} {u : FileUpdate}
    (h : x.updateOf t root c = .ok u) : u.file = Path.relative root c.path := by
  unfold updateOf at h
  simp only at h
  split_ifs at h
  · rw [← Except.ok.inj h]
  · cases hextract : t.extractFile x.measurer root c.path with
    | error e =>
      rw [hextract] at h
      cases h
    | ok e =>
      rw [hextract] at h
      rw [← Except.ok.inj h]

/-- A batch that is applied leaves a file alone that it does not name. -/
lemma part_of_applyBatch (hsound : s.live.index.Sound) (hleaves : x.LeavesFile batch s file)
    (hrun : (x.applyBatch batch).runOn s = (.ok (), s')) :
    s'.live.index.snapshot.part file = s.live.index.snapshot.part file := by
  obtain ⟨updates, hupdates, hindex⟩ := exists_updates_of_applyBatch hrun
  rw [hindex]
  refine ProjectIndex.part_foldl_onIndex hsound fun edit hedit => ?_
  obtain ⟨u, hu, rfl⟩ := List.mem_map.mp hedit
  obtain ⟨c, hc, hupdate⟩ := (exists_of_mapM_ok hupdates).1 u hu
  obtain ⟨hne, hids⟩ := hleaves c hc
  obtain ⟨g, extraction⟩ := u
  obtain rfl : g = _ := file_of_updateOf hupdate
  cases extraction with
  | none => exact hne
  | some e => exact ⟨hne, speaksOf_of_updateOf hupdate rfl, hids e hupdate⟩

/-- A call tries the batch that it takes up, with other changes left to pend. -/
lemma BatchCall.exists_applyOrRebuild (h : x.BatchCall batch s s') :
    ∃ queue n, (x.applyOrRebuild batch).runOn (withQueue s queue) = (.ok n, s') := by
  cases h with
  | @process _ _ _ queue n htake hne h =>
    have hbatch : ¬batch.isEmpty = true := by rwa [List.isEmpty_iff]
    rw [runOn_processPending_of_takeReady x htake, if_neg hbatch] at h
    exact ⟨queue, n, h⟩
  | @force _ _ paths n hne h =>
    rw [runOn_forceUpdate_of_ne_nil x hne] at h
    exact ⟨_, n, h⟩

/-- A call that takes up a batch is a turn of the live index. -/
lemma BatchCall.turn (h : x.BatchCall batch s s') : x.LiveTurn base s s' := by
  cases h with
  | process htake hne h => exact .process h
  | force hne h => exact .force h

/-- A live index is opened in place of the one that was there. -/
def Opens (x : Indexer) (s s' : LiveWorkspace) : Prop :=
  ∃ index, (x.loadProject s.live.index.projectId s.live.index.root).runOn s.workspace =
      (.ok (some index), s.workspace) ∧
    s' = { s with live := .ofIndex x.settings.watch index }

/-- In a course of events from `s₀` to `s` the live index was opened, or took up a batch, and the
project was not built since. -/
def InTouch (x : Indexer) (base : Place) (s₀ s : LiveWorkspace) : Prop :=
  ∃ s₁ s₂, Relation.ReflTransGen (x.Turn base) s₀ s₁ ∧
    (x.Opens s₁ s₂ ∨ ∃ batch, x.BatchCall batch s₁ s₂) ∧
    Relation.ReflTransGen (x.LiveTurn base) s₂ s

/-- A batch that is taken up puts the live index on disk. -/
lemma Settled.onDisk_of_batchCall (h : x.Settled base s) (hcall : x.BatchCall batch s s') :
    x.OnDisk base s' s'.live.index := by
  obtain ⟨queue, n, hrun⟩ := hcall.exists_applyOrRebuild
  exact ((h.withLive (withQueue s queue).live rfl).settled.wrote_of_applyOrRebuild hrun).onDisk

/-- A live index that is in touch is the one on disk. -/
lemma InTouch.current (h : x.InTouch base s₀ s) (hsettled : x.Settled base s₀) :
    x.Current base s := by
  obtain ⟨s₁, s₂, hrun, hmet, hlater⟩ := h
  obtain ⟨hbefore, -⟩ := hsettled.run hrun
  have hmet : x.Settled base s₂ ∧ x.Current base s₂ := by
    rcases hmet with ⟨index, hload, rfl⟩ | ⟨batch, hcall⟩
    · obtain ⟨hsettled₂, -⟩ := hbefore.liveTurn (.reopen hload)
      obtain ⟨hid, stored, hstored, hagrees⟩ := hbefore.exists_agrees_of_loadProject hload
      exact ⟨hsettled₂, stored, ⟨hstored.toRecords, hstored.projectId_eq.trans hid.symm⟩, hagrees⟩
    · obtain ⟨hsettled₂, -⟩ := hbefore.liveTurn hcall.turn
      exact ⟨hsettled₂, _, hbefore.onDisk_of_batchCall hcall, hsettled₂.sound⟩
  exact (hmet.1.liveRun hmet.2 hlater).2

/-- What a batch leaves on disk of the files that it does not name, in any course of builds and
batches that succeed, with other things happening in between.  What stands there is the live index
after the batch.  It has of each of these files what it had before, as long as the batch takes no
identifier from it; so what stood there of the file before stands there after it exactly if the live
index had the same of it.  That is so if the project was not built since the live index was opened
or took up a batch.  If the batch cannot be applied, then what stands there is a full build. -/
theorem part_of_batchCall (hsettled : x.Settled base s₀)
    (hrun : Relation.ReflTransGen (x.Turn base) s₀ s) (hcall : x.BatchCall batch s s') :
    x.Stores s' s'.live.index.snapshot ∧
    ((s'.live.fullRebuilds = s.live.fullRebuilds ∧ ∀ file, x.LeavesFile batch s file →
        s'.live.index.snapshot.part file = s.live.index.snapshot.part file ∧
        ∀ stored, x.Stores s stored →
          (s'.live.index.snapshot.part file = stored.part file ↔
            s.live.index.snapshot.part file = stored.part file) ∧
          (x.InTouch base s₀ s → s'.live.index.snapshot.part file = stored.part file)) ∨
      (s'.live.fullRebuilds = s.live.fullRebuilds + 1 ∧
        ∃ between merged, s.workspace.AddsDocuments between ∧
          between.files.merge x.measurer x.sources s.live.index.projectId s.live.index.root
            (between.files.walk x.settings.indexing s.live.index.root) = .ok merged ∧
          s'.live.index = .ofMerged s.live.index.projectId s.live.index.root merged)) := by
  obtain ⟨hnow, -⟩ := hsettled.run hrun
  refine ⟨(hnow.onDisk_of_batchCall hcall).stores, ?_⟩
  obtain ⟨queue, n, htried⟩ := hcall.exists_applyOrRebuild
  have hkeeps := x.keeps_applyBatch batch (withQueue s queue)
  rcases runOn_applyOrRebuild_cases htried with ⟨between, hbatch, -, rfl⟩ |
    ⟨e, between, w, hbatch, ⟨rebuilt, hrebuild, -, rfl⟩ | ⟨cause, -, hcause, -⟩⟩
  · rw [hbatch] at hkeeps
    refine Or.inl ⟨hkeeps.fullRebuilds, fun file hleaves => ?_⟩
    have hpart : between.live.index.snapshot.part file = s.live.index.snapshot.part file :=
      part_of_applyBatch (s := withQueue s queue) hnow.sound hleaves hbatch
    refine ⟨hpart, fun stored hstored => ⟨Eq.congr_left hpart, fun htouch => hpart.trans ?_⟩⟩
    obtain ⟨index, hdisk, hagrees⟩ := htouch.current hsettled
    rw [hstored.unique hdisk.stores]
    exact hagrees.part_eq file
  · rw [hbatch] at hkeeps
    obtain ⟨merged, hmerged, hrebuilt⟩ := exists_merge_of_rebuild hrebuild
    have hid : between.live.index.projectId = s.live.index.projectId := hkeeps.projectId
    have hroot : between.live.index.root = s.live.index.root := hkeeps.root
    rw [hid, hroot] at hmerged hrebuilt
    exact Or.inr ⟨congrArg (· + 1) hkeeps.fullRebuilds, between.workspace, merged, hkeeps.files,
      hmerged, hrebuilt⟩
  · cases hcause

/-! ### A deletion that is reported after a build -/

section

open ProjectChange

/-- The report that another file is gone. -/
def goneFile : Change := ⟨"/p/b.c", .deleted⟩

/-- A live index of the project to which the report was made. -/
def toldGone (index : ProjectIndex) (w : Workspace) : LiveWorkspace where
  live := (LiveIndex.ofIndex smallIndexer.settings.watch index).record goneFile 0
  workspace := w

variable {index : ProjectIndex}

/-- The report is queued. -/
lemma turn_toldGone (hroot : index.root = "/p") : smallIndexer.LiveTurn ["i"]
    ⟨.ofIndex smallIndexer.settings.watch index, w⟩ (toldGone index w) := by
  let live : LiveIndex := .ofIndex smallIndexer.settings.watch index
  have haccepts : live.accepts smallIndexer.settings.indexing goneFile.path = true := by
    have hpath : (smallIndexer.settings.indexing.accepts goneFile.path &&
        !Path.isHiddenBelow "/p" goneFile.path) = true := by decide
    rw [← hroot] at hpath
    exact hpath
  have habsolute : live.absolute goneFile.path = goneFile.path := rfl
  have hqueued : (live.queueChange smallIndexer.settings.indexing goneFile 0).2 =
      live.record goneFile 0 := by
    rw [LiveIndex.queueChange]
    simp only [habsolute, haccepts, if_true]
  rw [toldGone, ← hqueued]
  exact .queue goneFile 0

/-- The report says nothing of the file of the project. -/
lemma leavesFile_goneFile {s : LiveWorkspace} (hroot : s.live.index.root = "/p") :
    smallIndexer.LeavesFile [goneFile] s "a.c" := by
  intro c hc
  obtain rfl := List.mem_singleton.mp hc
  rw [hroot]
  refine ⟨by decide, fun e he => ?_⟩
  cases he

/-- After the project was built, the report can be applied, and it is taken up. -/
lemma exists_batchCall_toldGone (index : ProjectIndex) (hid : index.projectId = "p")
    (hroot : index.root = "/p") (hrefuses : RefusesNothing w)
    (hgrows : Grows Set.univ oneFile w.files)
    (hdocuments : smallIndexer.directory.HasDocuments "p" (placesIn ["i"] "p") w.files
      (Storage.fileOf (builtIndex []).snapshot.toJson) (Storage.fileOf (builtIndex []).graph.toJson)
      (builtMetadata [])) :
    ∃ between, (smallIndexer.applyBatch [goneFile]).runOn (withoutBatch (toldGone index w)) =
        (.ok (), between) ∧ between.live.fullRebuilds = 0 ∧
      smallIndexer.BatchCall [goneFile] (toldGone index w) (afterBatch between) := by
  have hupdates : [goneFile].mapM (smallIndexer.updateOf
      (withoutBatch (toldGone index w)).workspace.files
      (withoutBatch (toldGone index w)).live.index.root) = .ok [⟨"b.c", none⟩] := by
    have hlive : (withoutBatch (toldGone index w)).live.index.root = "/p" := hroot
    rw [hlive]
    rfl
  obtain ⟨between, hbatch⟩ : ∃ between, (smallIndexer.applyBatch [goneFile]).runOn
      (withoutBatch (toldGone index w)) = (.ok (), between) := by
    apply exists_applyBatch_of_persist hupdates hrefuses
    intro written w' hwritten hfiles
    have hproject : written.projectId = "p" := hwritten.trans hid
    have hsame : w'.files = w.files := hfiles
    have hroom := awaitsIndex_oneFile
    rw [← hproject] at hdocuments hroom
    rw [← hsame] at hdocuments hgrows
    exact hdocuments.exists_persist hroom hgrows parse?_builtMetadata fun _ => rfl
  have hentries : (toldGone index w).live.queue.entries = [⟨goneFile, 0, 0⟩] :=
    ChangeQueue.entries_record_ofWindow 0 goneFile.path goneFile.kind 0
  have hquiet : IsQuiet (toldGone index w) := fun e _ => decide_eq_true (Nat.zero_le _)
  have htake : ((toldGone index w).live.queue.takeReady (toldGone index w).live.batchSize
      (toldGone index w).workspace.clock.milliseconds).1 = [goneFile] := by
    rw [(ChangeQueue.takeReady_of_ready _ hquiet).1, hentries]
    rfl
  have hkeeps := smallIndexer.keeps_applyBatch [goneFile] (withoutBatch (toldGone index w))
  rw [hbatch] at hkeeps
  refine ⟨between, hbatch, hkeeps.fullRebuilds, .process (Prod.ext htake rfl) (by simp) (n := 1) ?_⟩
  rw [runOn_processPending_of_takeReady _ (Prod.ext htake rfl)]
  exact runOn_applyOrRebuild_of_ok hbatch

/-- The index that is opened when the project was built. -/
def openedIndex : ProjectIndex :=
  .ofSnapshot "p" "/p" (builtIndex []).snapshot (builtIndex []).graph

/-- A live index that is opened after the build leaves on disk what was built of the file. -/
theorem part_of_batchCall_opened : ∃ s s' stored,
    Relation.ReflTransGen (smallIndexer.Turn ["i"]) bareWorkspace s ∧
    smallIndexer.BatchCall [goneFile] s s' ∧ smallIndexer.LeavesFile [goneFile] s "a.c" ∧
    s'.live.fullRebuilds = s.live.fullRebuilds ∧ smallIndexer.Stores s stored ∧
    smallIndexer.Stores s' s'.live.index.snapshot ∧
    s'.live.index.snapshot.part "a.c" = stored.part "a.c" ∧ (stored.part "a.c").1.Nonempty := by
  obtain ⟨w', hbuild, hrefuses, hgrows, hdocuments⟩ := exists_build_bareFiles []
  let s₁ : LiveWorkspace := { bareWorkspace with workspace := w' }
  let s₂ : LiveWorkspace := ⟨.ofIndex smallIndexer.settings.watch openedIndex, w'⟩
  have hbuilt : smallIndexer.Turn ["i"] bareWorkspace s₁ := .build hbuild
  have hload : (smallIndexer.loadProject "p" "/p").runOn w' = (.ok (some openedIndex), w') :=
    hdocuments.runOn_loadProject "/p"
  have hopen : smallIndexer.LiveTurn ["i"] s₁ s₂ := .reopen hload
  have hqueue : smallIndexer.LiveTurn ["i"] s₂ (toldGone openedIndex w') := turn_toldGone rfl
  have hrun := ((Relation.ReflTransGen.single hbuilt).tail (.live hopen)).tail (.live hqueue)
  have htouch : smallIndexer.InTouch ["i"] bareWorkspace (toldGone openedIndex w') :=
    ⟨s₁, s₂, .single hbuilt, Or.inl ⟨openedIndex, hload, rfl⟩, .single hqueue⟩
  have hstored : smallIndexer.Stores (toldGone openedIndex w') (builtIndex []).snapshot :=
    ⟨_, SnapshotDirectory.runOn_load hdocuments.symbols hdocuments.graph⟩
  have hleaves : smallIndexer.LeavesFile [goneFile] (toldGone openedIndex w') "a.c" :=
    leavesFile_goneFile rfl
  obtain ⟨between, hbatch, hcount, hcall⟩ :=
    exists_batchCall_toldGone openedIndex rfl rfl hrefuses hgrows hdocuments
  obtain ⟨hstores, ⟨-, hunnamed⟩ | ⟨hrebuilt, -⟩⟩ :=
    part_of_batchCall (settled_bareWorkspace []) hrun hcall
  · obtain ⟨-, hpart⟩ := hunnamed "a.c" hleaves
    exact ⟨_, _, _, hrun, hcall, hleaves, hcount, hstored, hstores, (hpart _ hstored).2 htouch,
      exists_symbol_builtIndex⟩
  · cases hcount.symm.trans hrebuilt

/-- A live index that was opened before the build takes back what was built of the file. -/
theorem not_part_of_batchCall :
    ¬∀ (x : Indexer) (base : Place) (s₀ s s' : LiveWorkspace) (batch : List Change) (file : String)
      (stored stored' : Snapshot),
      x.Settled base s₀ → Relation.ReflTransGen (x.Turn base) s₀ s → x.BatchCall batch s s' →
      s'.live.fullRebuilds = s.live.fullRebuilds → x.LeavesFile batch s file →
      x.Stores s stored → x.Stores s' stored' → stored'.part file = stored.part file := by
  intro hclaim
  obtain ⟨w', hbuild, hrefuses, hgrows, hdocuments⟩ := exists_build_bareFiles []
  have hbuilt : smallIndexer.Turn ["i"] bareWorkspace { bareWorkspace with workspace := w' } :=
    .build hbuild
  have hqueue : smallIndexer.LiveTurn ["i"] { bareWorkspace with workspace := w' }
    (toldGone bareIndex w') := turn_toldGone rfl
  have hrun := (Relation.ReflTransGen.single hbuilt).tail (.live hqueue)
  have hstored : smallIndexer.Stores (toldGone bareIndex w') (builtIndex []).snapshot :=
    ⟨_, SnapshotDirectory.runOn_load hdocuments.symbols hdocuments.graph⟩
  have hleaves : smallIndexer.LeavesFile [goneFile] (toldGone bareIndex w') "a.c" :=
    leavesFile_goneFile rfl
  obtain ⟨between, hbatch, hcount, hcall⟩ :=
    exists_batchCall_toldGone bareIndex rfl rfl hrefuses hgrows hdocuments
  obtain ⟨hnow, -⟩ := (settled_bareWorkspace []).run hrun
  have hkept : between.live.index.snapshot.part "a.c" = (builtIndex []).snapshot.part "a.c" :=
    hclaim _ _ _ _ _ _ _ _ _ (settled_bareWorkspace []) hrun hcall hcount hleaves hstored
      (hnow.onDisk_of_batchCall hcall).stores
  -- The live index knew nothing of the file, and that is what it wrote.
  have hpart : between.live.index.snapshot.part "a.c" = bareIndex.snapshot.part "a.c" :=
    part_of_applyBatch (s := withoutBatch (toldGone bareIndex w')) hnow.sound hleaves hbatch
  obtain ⟨y, hmem, hfile⟩ := exists_symbol_builtIndex
  have hy : y ∈ ((builtIndex []).snapshot.part "a.c").1 := ⟨hmem, hfile⟩
  rw [← hkept, hpart] at hy
  exact absurd ((SymbolTable.Holds.empty.mem_toList y).mp hy.1) (Set.notMem_empty y)

end

end Indexer

end CodeAtlas
