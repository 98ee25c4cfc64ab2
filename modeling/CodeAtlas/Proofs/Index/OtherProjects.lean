import CodeAtlas.Proofs.Index.ForcedBuild
import CodeAtlas.Proofs.Storage.Hosting

/-!
# What work on a project leaves of others

Builds, rebuilds and batches of one project write its own index and refill the document service.
For any other project they leave the workspace alone (`IndexDirectory.LeavesAlone`): as far as the
files are concerned, the tree is extended in places that are none of that project, and what the
document service refuses and the clock shows stays the same.  That holds whatever comes of the work.
-/

namespace CodeAtlas

open CodeAtlas.Action CodeAtlas.FileTree

/-- What is done to a workspace is done for other projects than a given one, if the index directory
hosts projects. -/
structure IndexDirectory.LeavesAlone (d : IndexDirectory) (base : Place) (id : String)
    (w w' : Workspace) : Prop where
  files : d.Hosts base w.files → d.Hosts base w'.files ∧
    Extends (directories base) (documentsOfOthers base id) w.files w'.files
  refuses_eq : w'.documents.refuses = w.documents.refuses
  clock_eq : w'.clock = w.clock

namespace Indexer

open IndexDirectory

variable {x : Indexer} {d : IndexDirectory} {base : Place} {id projectId root : String}
  {w w' : Workspace} {s s' : LiveWorkspace} {batch : List Change} {updates : List FileUpdate}

instance : Std.Refl (d.LeavesAlone base id) :=
  ⟨fun w => ⟨fun h => ⟨h, Extends.refl _ _ w.files⟩, rfl, rfl⟩⟩

instance : IsTrans Workspace (d.LeavesAlone base id) where
  trans _ _ _ h h' := by
    refine ⟨fun hhosts => ?_, h'.refuses_eq.trans h.refuses_eq, h'.clock_eq.trans h.clock_eq⟩
    obtain ⟨hbetween, hfirst⟩ := h.files hhosts
    obtain ⟨hlast, hsecond⟩ := h'.files hbetween
    exact ⟨hlast, hfirst.trans hsecond⟩

/-- The store behind the document service is of no account. -/
lemma leavesAlone_withStore (w : Workspace) (store : DocumentStore) :
    d.LeavesAlone base id w (withStore w store) :=
  ⟨fun h => ⟨h, Extends.refl _ _ w.files⟩, rfl, rfl⟩

/-! ### Builds -/

/-- Writing the index of another project leaves a project alone. -/
lemma leavesAlone_persist {index : ProjectIndex} {change : IndexMetadata → IndexMetadata}
    {outcome : Except IndexError IndexMetadata}
    (hrun : (x.persist index change).runOn w = (outcome, w'))
    (hplain : Path.IsPlainName index.projectId) (hne : index.projectId ≠ id)
    (hchange : ∀ m, (change m).projectId = m.projectId) :
    x.directory.LeavesAlone base id w w' := by
  obtain ⟨_, t', -, rfl, -⟩ := files_of_persist hrun
  refine ⟨fun h => ?_, rfl, rfl⟩
  obtain ⟨made, hmade, hhosts, hextends⟩ := h.persist hplain hchange hrun
  obtain rfl : t' = made := congrArg Workspace.files hmade
  exact ⟨hhosts, hextends.mono fun q hq => ⟨_, hplain, hne, hq⟩⟩

/-- Making an index in memory changes at most the store. -/
lemma exists_store_of_assemble {outcome : Except IndexError (ProjectIndex × List Origin)}
    (h : (x.assemble projectId root).runOn w = (outcome, w')) :
    ∃ store, w' = withStore w store := by
  rw [runOn_assemble] at h
  split at h
  · exact ⟨_, (Prod.mk.inj h).2.symm⟩
  · split at h
    · exact ⟨_, (Prod.mk.inj h).2.symm⟩
    · split at h
      · exact ⟨_, (Prod.mk.inj h).2.symm⟩
      · exact ⟨_, (Prod.mk.inj h).2.symm⟩

/-- Building another project leaves a project alone. -/
lemma leavesAlone_rebuildWithMetadata (hplain : Path.IsPlainName projectId) (hne : projectId ≠ id)
    (root : String) :
    Keeps (x.directory.LeavesAlone base id) (x.rebuildWithMetadata projectId root) := by
  intro w
  rcases hassemble : (x.assemble projectId root).runOn w with ⟨outcome, between⟩
  obtain ⟨store, rfl⟩ := exists_store_of_assemble hassemble
  have hassembled : x.directory.LeavesAlone base id w (withStore w store) :=
    leavesAlone_withStore w store
  cases outcome with
  | error e =>
    unfold rebuildWithMetadata
    rw [runOn_bind, hassemble]
    exact hassembled
  | ok made =>
    obtain ⟨index, origins⟩ := made
    obtain ⟨⟨merged, -, rfl⟩, -⟩ := exists_merge_of_assemble hassemble
    let change (m : IndexMetadata) : IndexMetadata :=
      { m with origins := origins.map Origin.name, buildMs := w.clock.elapsedMs }
    rcases hpersist : (x.persist (.ofMerged projectId root merged) change).runOn (withStore w store)
      with ⟨written, w'⟩
    have hwritten : x.directory.LeavesAlone base id (withStore w store) w' :=
      leavesAlone_persist hpersist hplain hne fun _ => rfl
    rw [runOn_rebuildWithMetadata hassemble hpersist]
    exact IsTrans.trans _ _ _ hassembled hwritten

/-- Rebuilding another project leaves a project alone. -/
lemma leavesAlone_rebuild (hplain : Path.IsPlainName projectId) (hne : projectId ≠ id)
    (root : String) : Keeps (x.directory.LeavesAlone base id) (x.rebuild projectId root) :=
  Keeps.bind (leavesAlone_rebuildWithMetadata hplain hne root) fun _ => Keeps.pure _

/-- Identifying a root changes nothing. -/
lemma keeps_identify (root : String) : Keeps Eq (identify root) :=
  Keeps.bind (Keeps.read _ _) fun _ => Keeps.pure _

/-- Looking for a description changes nothing. -/
lemma keeps_cached? (x : Indexer) (projectId : String) : Keeps Eq (x.cached? projectId) := by
  refine Keeps.bind Keeps.get fun w => ?_
  split_ifs
  · refine Keeps.within (q := Eq) (Keeps.adapt _ fun t => ?_) fun w t ht => ht ▸ rfl
    rcases hrun : (x.directory.get? projectId).runOn t with ⟨outcome, t'⟩
    exact (get?_cases hrun).1.symm
  · exact Keeps.pure _

/-- Whether or not a description is looked for, nothing is changed. -/
lemma keeps_known (x : Indexer) (force : Bool) (projectId : String) :
    Keeps Eq (if force then pure none else x.cached? projectId) := by
  split_ifs
  · exact Keeps.pure none
  · exact x.keeps_cached? projectId

/-- Building the project of a root that is identified otherwise leaves a project alone. -/
lemma leavesAlone_build {force : Bool} {outcome : Except IndexError BuildOutcome}
    (hother : ∀ found, (identify root).runOn w = (.ok found, w) → found.1 ≠ id)
    (hrun : (x.build root force).runOn w = (outcome, w')) :
    x.directory.LeavesAlone base id w w' := by
  have hsame := keeps_identify root w
  rw [runOn_build_eq, tryBuild_eq, runOn_bind] at hrun
  rw [← (Prod.mk.inj hrun).2]
  rcases hroot : (identify root).runOn w with ⟨identified, between⟩
  rw [hroot] at hsame
  obtain rfl : w = between := hsame
  cases identified with
  | error e => exact refl w
  | ok found =>
    obtain ⟨-, -, hplain, -⟩ := identify_cases hroot
    have hbuild : Keeps (x.directory.LeavesAlone base id) (x.rebuildWithMetadata found.1 found.2) :=
      leavesAlone_rebuildWithMetadata hplain (hother found hroot) found.2
    have hrest : ∀ known,
        Keeps (x.directory.LeavesAlone base id) (x.buildUnlessKnown found.1 found.2 known) := by
      intro known
      cases known with
      | some metadata => exact Keeps.pure _
      | none => exact hbuild.bind fun _ => Keeps.pure _
    have hcached : Keeps (x.directory.LeavesAlone base id) (x.cached? found.1) :=
      fun v => x.keeps_cached? found.1 v ▸ refl v
    dsimp only
    split_ifs
    · exact Keeps.bind (Keeps.pure none) hrest w
    · exact hcached.bind hrest w

/-! ### Live indexes -/

/-- Updates change at most the store. -/
lemma exists_store_of_forM_applyUpdate {outcome : Except IndexError PUnit}
    (h : (updates.forM applyUpdate).runOn s = (outcome, s')) :
    ∃ store, s'.workspace = withStore s.workspace store := by
  induction updates generalizing s with
  | nil =>
    exact ⟨s.workspace.documents.store, congrArg LiveWorkspace.workspace (Prod.mk.inj h).2.symm⟩
  | cons u updates ih =>
    rw [List.forM, runOn_bind] at h
    rcases hfirst : (applyUpdate u).runOn s with ⟨first, between⟩
    rw [hfirst] at h
    obtain ⟨store, hstore⟩ : ∃ store, between.workspace = withStore s.workspace store := by
      rcases applyUpdate_cases hfirst with ⟨-, -, -, rfl⟩ | ⟨-, -, hcases⟩
      · exact ⟨between.workspace.documents.store, rfl⟩
      · rcases hcases with ⟨-, -, hw⟩ | ⟨e, -, ⟨-, -, -, hw⟩ | ⟨-, -, hw⟩⟩
        · exact ⟨_, hw⟩
        · exact ⟨_, hw⟩
        · exact ⟨_, hw⟩
    cases first with
    | error e =>
      obtain ⟨-, rfl⟩ := Prod.mk.inj h
      exact ⟨store, hstore⟩
    | ok u =>
      obtain ⟨store', hstore'⟩ := ih h
      exact ⟨store', by rw [hstore', hstore]; rfl⟩

/-- A batch of another project leaves a project alone. -/
lemma leavesAlone_applyBatch {outcome : Except IndexError Unit}
    (hplain : Path.IsPlainName s.live.index.projectId) (hne : s.live.index.projectId ≠ id)
    (hrun : (x.applyBatch batch).runOn s = (outcome, s')) :
    x.directory.LeavesAlone base id s.workspace s'.workspace := by
  rcases applyBatch_cases hrun with ⟨-, -, -, rfl⟩ | ⟨updates, -, ⟨e, hedits, -⟩ |
    ⟨between, written, w', hedits, hpersist, rfl, -⟩⟩
  · exact refl _
  · obtain ⟨store, hstore⟩ := exists_store_of_forM_applyUpdate hedits
    exact hstore ▸ leavesAlone_withStore _ store
  · obtain ⟨store, hstore⟩ := exists_store_of_forM_applyUpdate hedits
    have hcontinues := Keeps.forM keeps_applyUpdate updates s
    rw [hedits] at hcontinues
    rw [← hcontinues.projectId] at hplain hne
    have hfirst : x.directory.LeavesAlone base id s.workspace between.workspace :=
      hstore ▸ leavesAlone_withStore _ store
    exact IsTrans.trans _ _ _ hfirst (leavesAlone_persist hpersist hplain hne fun _ => rfl)

/-- A full rebuild of the live index of another project leaves a project alone. -/
lemma leavesAlone_rebuildLive {outcome : Except IndexError Unit}
    (hplain : Path.IsPlainName s.live.index.projectId) (hne : s.live.index.projectId ≠ id)
    (hrun : x.rebuildLive.runOn s = (outcome, s')) :
    x.directory.LeavesAlone base id s.workspace s'.workspace := by
  have hrebuild : x.directory.LeavesAlone base id s.workspace _ :=
    leavesAlone_rebuild hplain hne s.live.index.root s.workspace
  rcases runOn_rebuildLive_cases hrun with ⟨rebuilt, w, hbuilt, -, rfl⟩ | ⟨cause, w, hbuilt, -, rfl⟩
  · rwa [hbuilt] at hrebuild
  · rwa [hbuilt] at hrebuild

/-- A batch of another project leaves a project alone also where a rebuild takes its place. -/
lemma leavesAlone_applyOrRebuild {outcome : Except IndexError Nat}
    (hplain : Path.IsPlainName s.live.index.projectId) (hne : s.live.index.projectId ≠ id)
    (hrun : (x.applyOrRebuild batch).runOn s = (outcome, s')) :
    x.directory.LeavesAlone base id s.workspace s'.workspace := by
  rcases runOn_applyOrRebuild_cases hrun with
    ⟨between, hbatch, -, rfl⟩ | ⟨e, between, w, hbatch, hcases⟩
  · have happlied : x.directory.LeavesAlone base id s.workspace between.workspace :=
      leavesAlone_applyBatch hplain hne hbatch
    exact happlied
  · have htried : x.directory.LeavesAlone base id s.workspace between.workspace :=
      leavesAlone_applyBatch hplain hne hbatch
    have hsame := (x.keeps_applyBatch batch s).projectId
    rw [hbatch] at hsame
    have hrebuild : x.directory.LeavesAlone base id between.workspace _ :=
      leavesAlone_rebuild (hsame ▸ hplain) (hsame ▸ hne) between.live.index.root between.workspace
    rcases hcases with ⟨rebuilt, hbuilt, -, rfl⟩ | ⟨cause, hbuilt, -, rfl⟩
    · rw [hbuilt] at hrebuild
      exact IsTrans.trans _ _ _ htried hrebuild
    · rw [hbuilt] at hrebuild
      exact IsTrans.trans _ _ _ htried hrebuild

/-- Processing what is pending of another project leaves a project alone. -/
lemma leavesAlone_processPending {outcome : Except IndexError Nat}
    (hplain : Path.IsPlainName s.live.index.projectId) (hne : s.live.index.projectId ≠ id)
    (hrun : x.processPending.runOn s = (outcome, s')) :
    x.directory.LeavesAlone base id s.workspace s'.workspace := by
  rcases htake : s.live.queue.takeReady s.live.batchSize s.workspace.clock.milliseconds with
    ⟨batch, queue⟩
  rw [runOn_processPending_of_takeReady x htake] at hrun
  split_ifs at hrun
  · obtain ⟨-, rfl⟩ := Prod.mk.inj hrun
    exact refl s.workspace
  · exact leavesAlone_applyOrRebuild (s := withQueue s queue) hplain hne hrun

/-- A forced update of another project leaves a project alone. -/
lemma leavesAlone_forceUpdate {paths : List String} {outcome : Except IndexError Nat}
    (hplain : Path.IsPlainName s.live.index.projectId) (hne : s.live.index.projectId ≠ id)
    (hrun : (x.forceUpdate paths).runOn s = (outcome, s')) :
    x.directory.LeavesAlone base id s.workspace s'.workspace := by
  by_cases hnil : paths = []
  · rw [hnil, forceUpdate, if_pos List.isEmpty_nil, runOn_bind] at hrun
    rcases hrebuild : x.rebuildLive.runOn s with ⟨rebuilt, between⟩
    have hleaves : x.directory.LeavesAlone base id s.workspace between.workspace :=
      leavesAlone_rebuildLive hplain hne hrebuild
    rw [hrebuild] at hrun
    cases rebuilt with
    | error e => exact (Prod.mk.inj hrun).2 ▸ hleaves
    | ok u => exact (Prod.mk.inj hrun).2 ▸ hleaves
  · rw [runOn_forceUpdate_of_ne_nil x hnil] at hrun
    exact leavesAlone_applyOrRebuild
      (s := withQueue s ((paths.map s.live.absolute).foldl ChangeQueue.remove s.live.queue))
      hplain hne hrun

end Indexer

end CodeAtlas
