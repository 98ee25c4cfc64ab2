import CodeAtlas.Proofs.Index.Batch
import CodeAtlas.Proofs.Index.Reload

/-!
# The states of a live index that can be reached

A live index begins with an index that was built or read from disk.  Then changes are reported, and
batches of them are processed, and any call may fail on the way: a file cannot be extracted, the
document service refuses a call, or a rebuild comes to nothing.  What a failed call has done stays
done, so the states that follow from failures count as well (`Indexer.Reachable`).

How far a batch gets is decided by what the document service refuses, and this is
`Indexer.madeUpdates`.  Wherever a call ends, the index is sound and one of the project
(`Indexer.Reachable.soundAt`).
-/

namespace CodeAtlas

open CodeAtlas.Action CodeAtlas.FileTree

namespace Indexer

variable {x : Indexer} {root : Place} {s s' : LiveWorkspace} {batch : List Change}
  {updates : List FileUpdate} {index : ProjectIndex}

/-! ### States that can be reached -/

/-- The states of a live index of the project with a given root.  It begins with an index that was
built, or with one that was read from disk, whose parts need not belong together.  Anything may
happen outside, and calls may end in any way. -/
inductive Reachable (x : Indexer) (root : Place) : LiveWorkspace → Prop
  | built {projectId : String} {w w' : Workspace} {index : ProjectIndex}
      (h : (x.rebuild projectId (pathOf root)).runOn w = (.ok index, w')) :
      Reachable x root ⟨.ofIndex x.settings.watch index, w'⟩
  | loaded (projectId : String) (snapshot : Snapshot) {graph : CallGraph} {edges : Set CallEdge}
      (h : graph.Holds edges) (w : Workspace) :
      Reachable x root
        ⟨.ofIndex x.settings.watch (.ofSnapshot projectId (pathOf root) snapshot graph), w⟩
  | outside {s : LiveWorkspace} (h : Reachable x root s) (w : Workspace) :
      Reachable x root { s with workspace := w }
  | queue {s : LiveWorkspace} (h : Reachable x root s) (c : Change) (now : Nat) :
      Reachable x root { s with live := (s.live.queueChange x.settings.indexing c now).2 }
  | observe {s : LiveWorkspace} (h : Reachable x root s) (event : EventKind) (paths : List String)
      (now : Nat) :
      Reachable x root { s with live := s.live.observe x.settings.indexing event paths now }
  | start {s : LiveWorkspace} (h : Reachable x root s) :
      Reachable x root { s with live := (s.live.start s.workspace.files).2 }
  | stop {s : LiveWorkspace} (h : Reachable x root s) :
      Reachable x root { s with live := s.live.stop }
  | process {s s' : LiveWorkspace} {outcome : Except IndexError Nat} (h : Reachable x root s)
      (hrun : x.processPending.runOn s = (outcome, s')) : Reachable x root s'
  | force {s s' : LiveWorkspace} {paths : List String} {outcome : Except IndexError Nat}
      (h : Reachable x root s) (hrun : (x.forceUpdate paths).runOn s = (outcome, s')) :
      Reachable x root s'

/-- The index is sound, and it is one of the project with a given root. -/
structure SoundAt (root : Place) (index : ProjectIndex) : Prop where
  sound : index.Sound
  root_eq : index.root = pathOf root

/-! ### How far a batch gets -/

/-- Those of some updates that are made, given what the document service refuses.  The first refusal
stops the rest; the update whose new documents are refused has edited the index by then. -/
def madeUpdates (refuses : DocumentCall → Option IndexError) : List FileUpdate → List FileUpdate
  | [] => []
  | u :: us =>
    if (refuses .deleteByFile).isSome then []
    else if u.extraction.isSome ∧ (refuses .upsert).isSome then [u]
    else u :: madeUpdates refuses us

/-- Only given updates are made. -/
lemma mem_of_mem_madeUpdates {refuses : DocumentCall → Option IndexError} {u : FileUpdate}
    (h : u ∈ madeUpdates refuses updates) : u ∈ updates := by
  induction updates with
  | nil => exact h
  | cons v updates ih =>
    unfold madeUpdates at h
    split_ifs at h
    · cases h
    · exact List.mem_singleton.mp h ▸ List.mem_cons_self
    · rcases List.mem_cons.mp h with rfl | h
      · exact List.mem_cons_self
      · exact List.mem_cons_of_mem v (ih h)

/-- All updates are made if nothing is refused. -/
lemma madeUpdates_of_none {refuses : DocumentCall → Option IndexError}
    (hdelete : refuses .deleteByFile = none) (hupsert : refuses .upsert = none)
    (updates : List FileUpdate) : madeUpdates refuses updates = updates := by
  induction updates with
  | nil => rfl
  | cons u updates ih =>
    rw [madeUpdates, if_neg (by simp [hdelete]), if_neg (by simp [hupsert]), ih]

/-- If not all updates are made, then removals are made and at most one update behind them. -/
lemma madeUpdates_eq_or (refuses : DocumentCall → Option IndexError) (updates : List FileUpdate) :
    madeUpdates refuses updates = updates ∨ ∃ removals last, madeUpdates refuses updates =
      removals ++ last ∧ (∀ u ∈ removals, u.extraction = none) ∧ last.length ≤ 1 := by
  induction updates with
  | nil => exact Or.inl rfl
  | cons u updates ih =>
    unfold madeUpdates
    split_ifs with hdelete hupsert
    · exact Or.inr ⟨[], [], rfl, by simp, by simp⟩
    · exact Or.inr ⟨[], [u], rfl, by simp, by simp⟩
    · by_cases hu : u.extraction = none
      · rcases ih with hall | ⟨removals, last, hmade, hnone, hlast⟩
        · exact Or.inl (by rw [hall])
        · refine Or.inr ⟨u :: removals, last, by rw [hmade, List.cons_append], ?_, hlast⟩
          exact List.forall_mem_cons.mpr ⟨hu, hnone⟩
      · -- The documents of this update were taken, so those of the others will be.
        have hsome : u.extraction.isSome = true := Option.isSome_iff_ne_none.mpr hu
        have htaken : refuses .upsert = none :=
          Option.not_isSome_iff_eq_none.mp fun hrefused => hupsert ⟨hsome, hrefused⟩
        have hdeleted : refuses .deleteByFile = none := Option.not_isSome_iff_eq_none.mp hdelete
        exact Or.inl (by rw [madeUpdates_of_none hdeleted htaken])

/-- What updates have done to the index, whatever comes of them. -/
lemma index_of_runOn_forM_applyUpdate {outcome : Except IndexError Unit}
    (h : (updates.forM applyUpdate).runOn s = (outcome, s')) :
    s'.live.index = ((madeUpdates s.workspace.documents.refuses updates).map FileUpdate.edit).foldl
      FileEdit.onIndex s.live.index := by
  induction updates generalizing s with
  | nil =>
    obtain ⟨-, rfl⟩ := Prod.mk.inj h
    rfl
  | cons u updates ih =>
    have hsteps : (applyUpdate u >>= fun _ => updates.forM applyUpdate).runOn s = (outcome, s') := h
    rw [runOn_bind] at hsteps
    rcases hfirst : (applyUpdate u).runOn s with ⟨first, between⟩
    rw [hfirst] at hsteps
    rw [madeUpdates]
    rcases applyUpdate_cases hfirst with ⟨e, hrefuses, rfl, rfl⟩ | ⟨hrefuses, hlive, hcases⟩
    · obtain ⟨-, rfl⟩ := Prod.mk.inj hsteps
      rw [if_pos (Option.isSome_of_eq_some hrefuses)]
      rfl
    · have hindex : between.live.index = FileEdit.onIndex s.live.index u.edit := by rw [hlive]
      -- When the update was made, the others follow it.
      have hrest : first = .ok () →
          between.workspace.documents.refuses = s.workspace.documents.refuses →
          s'.live.index = ((u :: madeUpdates s.workspace.documents.refuses updates).map
            FileUpdate.edit).foldl FileEdit.onIndex s.live.index := by
        intro hok hsame
        rw [hok] at hsteps
        rw [ih hsteps, hsame, hindex, List.map_cons, List.foldl_cons]
      rw [if_neg (by simp [hrefuses])]
      rcases hcases with ⟨hnone, hok, hw⟩ | ⟨e, he, ⟨cause, hrefused, rfl, hw⟩ | ⟨htaken, hok, hw⟩⟩
      · rw [if_neg (by simp [hnone])]
        exact hrest hok (by rw [hw, withStore])
      · obtain ⟨-, rfl⟩ := Prod.mk.inj hsteps
        rw [if_pos (by simp [he, hrefused]), hindex]
        rfl
      · rw [if_neg (by simp [htaken])]
        exact hrest hok (by rw [hw, withStore])

/-- What a batch has done to the index, whatever comes of it: nothing if one of its files cannot be
extracted, and else the updates that were made. -/
lemma index_of_runOn_applyBatch {outcome : Except IndexError Unit}
    (h : (x.applyBatch batch).runOn s = (outcome, s')) :
    (∃ e, batch.mapM (x.updateOf s.workspace.files s.live.index.root) = .error e ∧
      s'.live.index = s.live.index) ∨
    ∃ updates, batch.mapM (x.updateOf s.workspace.files s.live.index.root) = .ok updates ∧
      s'.live.index = ((madeUpdates s.workspace.documents.refuses updates).map
        FileUpdate.edit).foldl FileEdit.onIndex s.live.index := by
  rcases applyBatch_cases h with ⟨e, he, -, rfl⟩ | ⟨updates, hupdates, ⟨e, hedits, -⟩ |
    ⟨between, written, w', hedits, -, rfl, -⟩⟩
  · exact Or.inl ⟨e, he, rfl⟩
  · exact Or.inr ⟨updates, hupdates, index_of_runOn_forM_applyUpdate hedits⟩
  · have hindex := index_of_runOn_forM_applyUpdate hedits
    exact Or.inr ⟨updates, hupdates, hindex⟩

/-! ### The index in a state that can be reached -/

/-- A batch keeps the index sound, whatever comes of it. -/
lemma SoundAt.applyBatch {outcome : Except IndexError Unit} (h : SoundAt root s.live.index)
    (hrun : (x.applyBatch batch).runOn s = (outcome, s')) : SoundAt root s'.live.index := by
  have hkeeps := x.keeps_applyBatch batch s
  rw [hrun] at hkeeps
  refine ⟨?_, hkeeps.root.trans h.root_eq⟩
  rcases index_of_runOn_applyBatch hrun with ⟨e, -, hindex⟩ | ⟨updates, -, hindex⟩
  · exact hindex ▸ h.sound
  · rw [hindex]
    exact ProjectIndex.Agrees.foldl_onIndex h.sound _

/-- An index that is built is sound. -/
lemma soundAt_of_rebuild {projectId : String} {w w' : Workspace}
    (h : (x.rebuild projectId (pathOf root)).runOn w = (.ok index, w')) : SoundAt root index := by
  obtain ⟨merged, -, rfl⟩ := exists_merge_of_rebuild h
  exact ⟨ProjectIndex.sound_ofMerged _ _ merged, rfl⟩

/-- An index that is read from disk is sound if the two directions of its graph agree. -/
lemma soundAt_ofSnapshot (projectId : String) (snapshot : Snapshot) {graph : CallGraph}
    {edges : Set CallEdge} (h : graph.Holds edges) :
    SoundAt root (.ofSnapshot projectId (pathOf root) snapshot graph) := by
  have hsymbols := (SymbolTable.consistent_ofList snapshot.symbols).holds
  have hcalls := CallTable.Holds.empty.insertAll snapshot.calls
  exact ⟨⟨⟨_, hsymbols, hsymbols⟩, ⟨_, hcalls, hcalls⟩, ⟨edges, h⟩, rfl⟩, rfl⟩

/-- A batch that is tried leaves a sound index, whatever comes of it and of the rebuild. -/
lemma SoundAt.applyOrRebuild {outcome : Except IndexError Nat} (h : SoundAt root s.live.index)
    (hrun : (x.applyOrRebuild batch).runOn s = (outcome, s')) : SoundAt root s'.live.index := by
  rcases runOn_applyOrRebuild_cases hrun with ⟨between, hbatch, -, rfl⟩ |
    ⟨e, between, w, hbatch, ⟨rebuilt, hrebuild, -, rfl⟩ | ⟨cause, -, -, rfl⟩⟩
  · have hbetween := h.applyBatch hbatch
    exact hbetween
  · rw [(h.applyBatch hbatch).root_eq] at hrebuild
    exact soundAt_of_rebuild hrebuild
  · have hbetween := h.applyBatch hbatch
    exact hbetween

/-- Processing what is pending leaves a sound index, whatever comes of it. -/
lemma SoundAt.processPending {outcome : Except IndexError Nat} (h : SoundAt root s.live.index)
    (hrun : x.processPending.runOn s = (outcome, s')) : SoundAt root s'.live.index := by
  rcases htake : s.live.queue.takeReady s.live.batchSize s.workspace.clock.milliseconds with
    ⟨batch, queue⟩
  rw [runOn_processPending_of_takeReady x htake] at hrun
  split_ifs at hrun
  · obtain ⟨-, rfl⟩ := Prod.mk.inj hrun
    exact h
  · have hqueue : SoundAt root (withQueue s queue).live.index := h
    exact hqueue.applyOrRebuild hrun

/-- A forced update leaves a sound index, whatever comes of it. -/
lemma SoundAt.forceUpdate {paths : List String} {outcome : Except IndexError Nat}
    (h : SoundAt root s.live.index) (hrun : (x.forceUpdate paths).runOn s = (outcome, s')) :
    SoundAt root s'.live.index := by
  by_cases hnil : paths = []
  · rw [hnil, Indexer.forceUpdate, if_pos List.isEmpty_nil, runOn_bind] at hrun
    rcases hrebuild : x.rebuildLive.runOn s with ⟨tried, after⟩
    rw [hrebuild] at hrun
    have hafter : SoundAt root after.live.index := by
      rcases runOn_rebuildLive_cases hrebuild with ⟨rebuilt, w, hbuilt, -, rfl⟩ |
        ⟨cause, w, -, -, rfl⟩
      · rw [h.root_eq] at hbuilt
        exact soundAt_of_rebuild hbuilt
      · exact h
    cases tried with
    | ok u =>
      obtain ⟨-, rfl⟩ := Prod.mk.inj hrun
      exact hafter
    | error cause =>
      obtain ⟨-, rfl⟩ := Prod.mk.inj hrun
      exact hafter
  · rw [runOn_forceUpdate_of_ne_nil x hnil] at hrun
    have hqueue : SoundAt root (withQueue s ((paths.map s.live.absolute).foldl ChangeQueue.remove
      s.live.queue)).live.index := h
    exact hqueue.applyOrRebuild hrun

/-- What is observed changes no index. -/
lemma index_observe (l : LiveIndex) (settings : IndexingSettings) (event : EventKind)
    (paths : List String) (now : Nat) : (l.observe settings event paths now).index = l.index := by
  have hrecord : ∀ (changes : List Change) (l : LiveIndex),
      (changes.foldl (fun l c => l.record c now) l).index = l.index := by
    intro changes
    induction changes with
    | nil => exact fun l => rfl
    | cons c changes ih => exact fun l => ih (l.record c now)
  unfold LiveIndex.observe
  split_ifs
  · exact hrecord _ l
  · rfl

/-- In every state that can be reached the index is sound and one of the project. -/
lemma Reachable.soundAt (h : x.Reachable root s) : SoundAt root s.live.index := by
  induction h with
  | built h => exact soundAt_of_rebuild h
  | loaded projectId snapshot h w => exact soundAt_ofSnapshot projectId snapshot h
  | outside h w ih => exact ih
  | @queue s h c now ih =>
    have hindex : (s.live.queueChange x.settings.indexing c now).2.index = s.live.index := by
      simp only [LiveIndex.queueChange]
      split_ifs <;> rfl
    exact hindex ▸ ih
  | @observe s h event paths now ih =>
    have hindex := index_observe s.live x.settings.indexing event paths now
    exact hindex ▸ ih
  | @start s h ih =>
    have hindex : (s.live.start s.workspace.files).2.index = s.live.index := by
      unfold LiveIndex.start
      split_ifs <;> rfl
    exact hindex ▸ ih
  | @stop s h ih =>
    have hindex : s.live.stop.index = s.live.index := by
      unfold LiveIndex.stop
      split_ifs <;> rfl
    exact hindex ▸ ih
  | process h hrun ih => exact ih.processPending hrun
  | force h hrun ih => exact ih.forceUpdate hrun

end Indexer

end CodeAtlas
