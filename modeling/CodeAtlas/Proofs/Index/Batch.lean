import CodeAtlas.Index.Live
import CodeAtlas.Proofs.Change.Queue
import CodeAtlas.Proofs.Index.FullBuild
import CodeAtlas.Proofs.Index.Merging

/-!
# What a batch of changes does

A batch that is applied edits the live index file after file, in the order of its changes
(`Indexer.exists_updates_of_applyBatch`).  One that cannot be applied may have edited some of the
files already, and a full rebuild takes its place.  Either way nothing is done to the tree of files
but that documents are added to it, and the pending changes stay what they are
(`LiveWorkspace.Continues`).

So processing what is pending is one of three things: nothing, because nothing is ready; a batch
that is applied; or a rebuild (`Indexer.processPending_cases`).
-/

namespace CodeAtlas

open CodeAtlas.Action

/-- A later state of a live index, between which and the earlier one its own index was edited and
documents were written. -/
structure LiveWorkspace.Continues (s s' : LiveWorkspace) : Prop where
  files : s.workspace.AddsDocuments s'.workspace
  projectId : s'.live.index.projectId = s.live.index.projectId
  root : s'.live.index.root = s.live.index.root
  queue : s'.live.queue = s.live.queue
  batchSize : s'.live.batchSize = s.live.batchSize
  fullRebuilds : s'.live.fullRebuilds = s.live.fullRebuilds

namespace LiveWorkspace.Continues

instance : Std.Refl LiveWorkspace.Continues :=
  ⟨fun s => ⟨refl s.workspace, rfl, rfl, rfl, rfl, rfl⟩⟩

instance : IsTrans LiveWorkspace LiveWorkspace.Continues :=
  ⟨fun _ _ _ h h' => ⟨IsTrans.trans _ _ _ h.files h'.files, h'.projectId.trans h.projectId,
    h'.root.trans h.root, h'.queue.trans h.queue, h'.batchSize.trans h.batchSize,
    h'.fullRebuilds.trans h.fullRebuilds⟩⟩

end LiveWorkspace.Continues

namespace LiveAction

/-- Changing the live index always succeeds. -/
@[simp] lemma runOn_modify (f : LiveIndex → LiveIndex) (s : LiveWorkspace) :
    (modify f).runOn s = (.ok (), { s with live := f s.live }) := rfl

/-- What the indexer adds to the workspace is added beside the live index. -/
lemma keeps_indexing {a : IndexAction α} (ha : Keeps Workspace.AddsDocuments a) :
    Keeps LiveWorkspace.Continues (indexing a) :=
  ha.within fun _ _ hfiles => ⟨hfiles, rfl, rfl, rfl, rfl, rfl⟩

/-- An edit of the index is all that happens to a live index. -/
lemma keeps_modify_index {f : LiveIndex → ProjectIndex}
    (hid : ∀ l, (f l).projectId = l.index.projectId) (hroot : ∀ l, (f l).root = l.index.root) :
    Keeps LiveWorkspace.Continues (modify fun l => { l with index := f l }) :=
  fun s => ⟨refl s.workspace, hid s.live, hroot s.live, rfl, rfl, rfl⟩

end LiveAction

/-- The edit that an update makes. -/
def FileUpdate.edit (u : FileUpdate) : FileEdit :=
  match u.extraction with
  | some e => .replace u.file e
  | none => .remove u.file

namespace Indexer

variable {x : Indexer} {s s' : LiveWorkspace} {batch : List Change} {n : Nat}

/-- Bringing the index up to date with one file edits it. -/
lemma keeps_applyUpdate (u : FileUpdate) : Keeps LiveWorkspace.Continues (applyUpdate u) := by
  refine Keeps.bind Keeps.get fun s => ?_
  refine Keeps.bind (LiveAction.keeps_indexing (keeps_ask _)) fun _ => ?_
  split
  · exact LiveAction.keeps_modify_index (fun _ => rfl) fun _ => rfl
  · refine Keeps.bind (LiveAction.keeps_modify_index (fun _ => rfl) fun _ => rfl) fun _ => ?_
    exact Keeps.bind Keeps.get fun _ => LiveAction.keeps_indexing (keeps_ask _)

/-- A batch edits the index and adds documents, whatever comes of it. -/
lemma keeps_applyBatch (x : Indexer) (batch : List Change) :
    Keeps LiveWorkspace.Continues (x.applyBatch batch) := by
  refine Keeps.bind Keeps.get fun s => Keeps.bind (Keeps.read _ _) fun updates => ?_
  refine Keeps.bind (Keeps.forM keeps_applyUpdate updates) fun _ => ?_
  refine Keeps.bind Keeps.get fun s => ?_
  exact Keeps.bind (LiveAction.keeps_indexing (x.keeps_persist _ _)) fun _ => Keeps.pure _

/-- What comes of an update.  The document service may refuse to take out the documents of the file,
and then nothing is changed; otherwise the index is edited, and the service may refuse the documents
of what was put in. -/
lemma applyUpdate_cases {u : FileUpdate} {outcome : Except IndexError Unit}
    (h : (applyUpdate u).runOn s = (outcome, s')) :
    (∃ e, s.workspace.documents.refuses .deleteByFile = some e ∧ outcome = .error e ∧ s' = s) ∨
    (s.workspace.documents.refuses .deleteByFile = none ∧
      s'.live = { s.live with index := FileEdit.onIndex s.live.index u.edit } ∧
      ((u.extraction = none ∧ outcome = .ok () ∧ s'.workspace = withStore s.workspace
          (s.workspace.documents.store.deleteByFile s.live.index.projectId u.file).2) ∨
        ∃ extraction, u.extraction = some extraction ∧
          ((∃ e, s.workspace.documents.refuses .upsert = some e ∧ outcome = .error e ∧
              s'.workspace = withStore s.workspace
                (s.workspace.documents.store.deleteByFile s.live.index.projectId u.file).2) ∨
            (s.workspace.documents.refuses .upsert = none ∧ outcome = .ok () ∧
              s'.workspace = withStore s.workspace
                ((s.workspace.documents.store.deleteByFile s.live.index.projectId u.file).2.upsert
                  (documentsOfFile (s.live.index.replaceFile u.file extraction) u.file)))))) := by
  obtain ⟨file, extraction⟩ := u
  unfold applyUpdate LiveAction.indexing at h
  simp only [runOn_bind, runOn_get, Action.within, runOn_ofRun] at h
  rcases hdelete : (Workspace.ask (·.deleteByFile s.live.index.projectId file)).runOn s.workspace
    with ⟨first, w₁⟩
  rw [hdelete] at h
  rcases ask_cases (fun _ => rfl) hdelete with ⟨e, hrefuses, rfl, rfl⟩ | ⟨hrefuses, rfl, rfl⟩
  · obtain ⟨rfl, rfl⟩ := Prod.mk.inj h
    exact Or.inl ⟨e, hrefuses, rfl, rfl⟩
  cases extraction with
  | none =>
    obtain ⟨rfl, rfl⟩ := Prod.mk.inj h
    exact Or.inr ⟨hrefuses, rfl, Or.inl ⟨rfl, rfl, rfl⟩⟩
  | some extraction =>
    simp only [runOn_bind, runOn_get, LiveAction.runOn_modify, runOn_ofRun] at h
    rcases hupsert : (Workspace.ask (·.upsert
      (documentsOfFile (s.live.index.replaceFile file extraction) file))).runOn
        (withStore s.workspace
          (s.workspace.documents.store.deleteByFile s.live.index.projectId file).2)
      with ⟨second, w₂⟩
    rw [hupsert] at h
    obtain ⟨rfl, rfl⟩ := Prod.mk.inj h
    refine Or.inr ⟨hrefuses, rfl, Or.inr ⟨extraction, rfl, ?_⟩⟩
    rcases ask_cases (fun _ => rfl) hupsert with ⟨e, hrefused, rfl, rfl⟩ | ⟨hrefused, rfl, rfl⟩
    · exact Or.inl ⟨e, hrefused, rfl, rfl⟩
    · exact Or.inr ⟨hrefused, rfl, rfl⟩

/-- An update that is made edits the index. -/
lemma index_of_applyUpdate {u : FileUpdate} (h : (applyUpdate u).runOn s = (.ok (), s')) :
    s'.live.index = FileEdit.onIndex s.live.index u.edit := by
  rcases applyUpdate_cases h with ⟨e, -, he, -⟩ | ⟨-, hlive, -⟩
  · cases he
  · rw [hlive]

/-- Updates that are made edit the index one after the other. -/
lemma index_of_forM_applyUpdate {updates : List FileUpdate}
    (h : (updates.forM applyUpdate).runOn s = (.ok (), s')) :
    s'.live.index = (updates.map FileUpdate.edit).foldl FileEdit.onIndex s.live.index := by
  induction updates generalizing s with
  | nil => exact congrArg (fun s : LiveWorkspace => s.live.index) (Prod.mk.inj h).2.symm
  | cons u updates ih =>
    obtain ⟨_, between, hfirst, hrest⟩ := runOn_bind_eq_ok_iff.mp h
    rw [ih hrest, index_of_applyUpdate hfirst, List.map_cons, List.foldl_cons]

/-- A successful map gives a result for each element. -/
lemma exists_of_mapM_ok {f : α → Except ε β} {as : List α} {bs : List β}
    (h : as.mapM f = .ok bs) :
    (∀ b ∈ bs, ∃ a ∈ as, f a = .ok b) ∧ ∀ a ∈ as, ∃ b ∈ bs, f a = .ok b := by
  induction as generalizing bs with
  | nil =>
    obtain rfl := Except.ok.inj h
    simp
  | cons a as ih =>
    rw [List.mapM_cons] at h
    cases ha : f a with
    | error e =>
      rw [ha] at h
      cases h
    | ok b =>
      cases has : as.mapM f with
      | error e =>
        rw [ha, has] at h
        cases h
      | ok bs' =>
        rw [ha, has] at h
        obtain rfl := Except.ok.inj h
        obtain ⟨hbs, has'⟩ := ih has
        refine ⟨fun b' hb' => ?_, fun a' ha' => ?_⟩
        · rcases List.mem_cons.mp hb' with rfl | hb'
          · exact ⟨a, List.mem_cons_self, ha⟩
          · obtain ⟨a', ha', hfa'⟩ := hbs b' hb'
            exact ⟨a', List.mem_cons_of_mem a ha', hfa'⟩
        · rcases List.mem_cons.mp ha' with rfl | ha'
          · exact ⟨b, List.mem_cons_self, ha⟩
          · obtain ⟨b', hb', hfa'⟩ := has' a' ha'
            exact ⟨b', List.mem_cons_of_mem b hb', hfa'⟩

/-- What is extracted for an update speaks of its file. -/
lemma speaksOf_of_updateOf {t : FileTree} {root : String} {c : Change} {u : FileUpdate}
    {e : Extraction} (h : x.updateOf t root c = .ok u) (he : u.extraction = some e) :
    e.SpeaksOf u.file := by
  unfold updateOf at h
  simp only at h
  split_ifs at h
  · obtain rfl := Except.ok.inj h
    cases he
  · cases hextract : t.extractFile x.measurer root c.path with
    | error cause =>
      rw [hextract] at h
      cases h
    | ok e' =>
      rw [hextract] at h
      obtain rfl := Except.ok.inj h
      obtain rfl := Option.some.inj he
      exact FileTree.speaksOf_of_extractFile hextract

/-- What comes of a batch: one of its files cannot be extracted and nothing is changed, or one of
the updates fails, or all of them are made and the index is written to disk, whatever comes of
that. -/
lemma applyBatch_cases {outcome : Except IndexError Unit}
    (h : (x.applyBatch batch).runOn s = (outcome, s')) :
    (∃ e, batch.mapM (x.updateOf s.workspace.files s.live.index.root) = .error e ∧
      outcome = .error e ∧ s' = s) ∨
    ∃ updates, batch.mapM (x.updateOf s.workspace.files s.live.index.root) = .ok updates ∧
      ((∃ e, (updates.forM applyUpdate).runOn s = (.error e, s') ∧ outcome = .error e) ∨
        ∃ between written w', (updates.forM applyUpdate).runOn s = (.ok (), between) ∧
          (x.persist between.live.index id).runOn between.workspace = (written, w') ∧
          s' = { between with workspace := w' } ∧ outcome = written.map fun _ => ()) := by
  unfold applyBatch LiveAction.indexing at h
  simp only [runOn_bind, runOn_get, Action.read, runOn_ofRun] at h
  cases hupdates : batch.mapM (x.updateOf s.workspace.files s.live.index.root) with
  | error e =>
    simp only [hupdates] at h
    obtain ⟨rfl, rfl⟩ := Prod.mk.inj h
    exact Or.inl ⟨e, rfl, rfl, rfl⟩
  | ok updates =>
    refine Or.inr ⟨updates, rfl, ?_⟩
    simp only [hupdates] at h
    rcases hedits : (updates.forM applyUpdate).runOn s with ⟨edited, between⟩
    rw [hedits] at h
    cases edited with
    | error e =>
      obtain ⟨rfl, rfl⟩ := Prod.mk.inj h
      exact Or.inl ⟨e, rfl, rfl⟩
    | ok u =>
      simp only [Action.within, runOn_ofRun] at h
      rcases hpersist : (x.persist between.live.index id).runOn between.workspace with ⟨written, w'⟩
      refine Or.inr ⟨between, written, w', rfl, hpersist, ?_⟩
      rw [hpersist] at h
      cases written with
      | error e =>
        obtain ⟨rfl, rfl⟩ := Prod.mk.inj h
        exact ⟨rfl, rfl⟩
      | ok m =>
        obtain ⟨rfl, rfl⟩ := Prod.mk.inj h
        exact ⟨rfl, rfl⟩

/-- A batch that is applied edits the index by what its changes amount to. -/
lemma exists_updates_of_applyBatch (h : (x.applyBatch batch).runOn s = (.ok (), s')) :
    ∃ updates, batch.mapM (x.updateOf s.workspace.files s.live.index.root) = .ok updates ∧
      s'.live.index = (updates.map FileUpdate.edit).foldl FileEdit.onIndex s.live.index := by
  rcases applyBatch_cases h with ⟨e, -, he, -⟩ | ⟨updates, hupdates, ⟨e, -, he⟩ |
    ⟨between, written, w', hedits, -, rfl, -⟩⟩
  · cases he
  · cases he
  · have hindex := index_of_forM_applyUpdate hedits
    exact ⟨updates, hupdates, hindex⟩

/-! ### When a batch can be applied -/

/-- An update is made if the document service refuses nothing. -/
lemma exists_applyUpdate (u : FileUpdate) (h : RefusesNothing s.workspace) :
    ∃ s', (applyUpdate u).runOn s = (.ok (), s') ∧ RefusesNothing s'.workspace ∧
      s'.workspace.files = s.workspace.files ∧
      s'.live.index.projectId = s.live.index.projectId := by
  obtain ⟨file, extraction⟩ := u
  obtain ⟨d, hdelete, hd⟩ :=
    exists_ask (f := (·.deleteByFile s.live.index.projectId file)) h fun _ => rfl
  cases extraction with
  | none =>
    refine ⟨{ live := { s.live with index := (s.live.index.removeFile file).2 }
              workspace := { s.workspace with documents := d } }, ?_, hd, rfl, rfl⟩
    unfold applyUpdate
    refine (runOn_bind_of_ok (runOn_get s)).trans ?_
    exact runOn_bind_of_ok (runOn_within_eq_ok_iff.mpr ⟨_, hdelete, rfl⟩)
  | some e =>
    obtain ⟨d', hupsert, hd'⟩ := exists_ask
      (f := (·.upsert (documentsOfFile (s.live.index.replaceFile file e) file))) hd fun _ => rfl
    refine ⟨{ live := { s.live with index := s.live.index.replaceFile file e }
              workspace := { s.workspace with documents := d' } }, ?_, hd', rfl, rfl⟩
    unfold applyUpdate
    refine (runOn_bind_of_ok (runOn_get s)).trans ?_
    refine (runOn_bind_of_ok (runOn_within_eq_ok_iff.mpr ⟨_, hdelete, rfl⟩)).trans ?_
    refine (runOn_bind_of_ok (LiveAction.runOn_modify _ _)).trans ?_
    refine (runOn_bind_of_ok (runOn_get _)).trans ?_
    exact runOn_within_eq_ok_iff.mpr ⟨_, hupsert, rfl⟩

/-- Updates are made one after the other. -/
lemma exists_forM_applyUpdate (updates : List FileUpdate) (h : RefusesNothing s.workspace) :
    ∃ s', (updates.forM applyUpdate).runOn s = (.ok (), s') ∧
      s'.workspace.files = s.workspace.files ∧
      s'.live.index.projectId = s.live.index.projectId := by
  induction updates generalizing s with
  | nil => exact ⟨s, rfl, rfl, rfl⟩
  | cons u updates ih =>
    obtain ⟨between, hfirst, hbetween, hfiles, hid⟩ := exists_applyUpdate u h
    obtain ⟨s', hrest, hfiles', hid'⟩ := ih hbetween
    exact ⟨s', (runOn_bind_of_ok hfirst).trans hrest, hfiles'.trans hfiles, hid'.trans hid⟩

/-- A batch is applied if its files can be extracted, the document service refuses nothing and the
index can be written. -/
lemma exists_applyBatch_of_persist {updates : List FileUpdate}
    (hupdates : batch.mapM (x.updateOf s.workspace.files s.live.index.root) = .ok updates)
    (hdocuments : RefusesNothing s.workspace)
    (hpersist : ∀ (index : ProjectIndex) (w : Workspace),
      index.projectId = s.live.index.projectId → w.files = s.workspace.files →
      ∃ m t, (x.persist index id).runOn w = (.ok m, { w with files := t })) :
    ∃ s', (x.applyBatch batch).runOn s = (.ok (), s') := by
  obtain ⟨between, hedits, hfiles, hid⟩ := exists_forM_applyUpdate updates hdocuments
  obtain ⟨m, t, hpersist⟩ := hpersist between.live.index between.workspace hid hfiles
  have hread : (Action.read id fun _ : LiveWorkspace =>
      batch.mapM (x.updateOf s.workspace.files s.live.index.root)).runOn s = (.ok updates, s) :=
    runOn_read_eq_ok_iff.mpr ⟨hupdates, rfl⟩
  refine ⟨{ between with workspace := { between.workspace with files := t } }, ?_⟩
  unfold applyBatch
  refine (runOn_bind_of_ok (runOn_get s)).trans ?_
  refine (runOn_bind_of_ok hread).trans ?_
  refine (runOn_bind_of_ok hedits).trans ?_
  refine (runOn_bind_of_ok (runOn_get between)).trans ?_
  exact runOn_bind_of_ok (runOn_within_eq_ok_iff.mpr ⟨_, hpersist, rfl⟩)

/-- A batch is applied if its files can be extracted, the document service refuses nothing and there
is room for the index. -/
lemma exists_applyBatch {updates : List FileUpdate} {base : Place}
    (hupdates : batch.mapM (x.updateOf s.workspace.files s.live.index.root) = .ok updates)
    (hdocuments : RefusesNothing s.workspace)
    (hawaits : x.directory.AwaitsIndex s.workspace.files base s.live.index.projectId) :
    ∃ s', (x.applyBatch batch).runOn s = (.ok (), s') := by
  apply exists_applyBatch_of_persist hupdates hdocuments
  intro index w hid hfiles
  rw [← hid, ← hfiles] at hawaits
  exact x.exists_persist hawaits fun _ => rfl

/-! ### Processing what is pending -/

/-- The live index after a batch that was applied. -/
def afterBatch (s : LiveWorkspace) : LiveWorkspace :=
  { s with live :=
    { s.live with
      incrementalUpdates := s.live.incrementalUpdates + 1
      lastUpdate := some s.workspace.clock.now } }

/-- The live index after a full rebuild. -/
def afterRebuild (s : LiveWorkspace) (rebuilt : ProjectIndex) (w : Workspace) : LiveWorkspace where
  workspace := w
  live :=
    { s.live with
      index := rebuilt
      fullRebuilds := s.live.fullRebuilds + 1
      lastUpdate := some w.clock.now }

/-- What comes of a batch that is tried. -/
lemma runOn_attempt_applyBatch {outcome : Except IndexError Unit} {between : LiveWorkspace}
    (h : (x.applyBatch batch).runOn s = (outcome, between)) :
    (attempt ((x.applyBatch batch).adapt IndexError.asIncremental) :
      LiveAction (Except IndexError Unit)).runOn s =
        (.ok (outcome.mapError IndexError.asIncremental), between) := by
  rw [attempt, runOn_ofRun, adapt, runOn_ofRun, h]
  cases outcome <;> rfl

/-- A batch that can be applied is not replaced by a rebuild. -/
lemma runOn_applyOrRebuild_of_ok {between : LiveWorkspace}
    (h : (x.applyBatch batch).runOn s = (.ok (), between)) :
    (x.applyOrRebuild batch).runOn s = (.ok batch.length, afterBatch between) := by
  unfold applyOrRebuild
  rw [runOn_bind, runOn_attempt_applyBatch h]
  rfl

/-- What comes of a full rebuild of the live index: it takes the place of the index, or that
stays. -/
lemma runOn_rebuildLive_cases {outcome : Except IndexError Unit}
    (h : x.rebuildLive.runOn s = (outcome, s')) :
    (∃ rebuilt w, (x.rebuild s.live.index.projectId s.live.index.root).runOn s.workspace =
      (.ok rebuilt, w) ∧ outcome = .ok () ∧ s' = afterRebuild s rebuilt w) ∨
    ∃ cause w, (x.rebuild s.live.index.projectId s.live.index.root).runOn s.workspace =
      (.error cause, w) ∧ outcome = .error cause ∧ s' = { s with workspace := w } := by
  simp only [rebuildLive, LiveAction.indexing, runOn_bind, runOn_get, Action.within,
    runOn_ofRun] at h
  rcases hrebuild : (x.rebuild s.live.index.projectId s.live.index.root).runOn s.workspace with
    ⟨rebuilt, w⟩
  rw [hrebuild] at h
  cases rebuilt with
  | ok rebuilt =>
    obtain ⟨rfl, rfl⟩ := Prod.mk.inj h
    exact Or.inl ⟨rebuilt, w, rfl, rfl, rfl⟩
  | error cause =>
    obtain ⟨rfl, rfl⟩ := Prod.mk.inj h
    exact Or.inr ⟨cause, w, rfl, rfl, rfl⟩

/-- What comes of a batch that is tried: it is applied, or a full rebuild takes its place, or that
fails too and the live index stays as the batch left it. -/
lemma runOn_applyOrRebuild_cases {outcome : Except IndexError Nat}
    (h : (x.applyOrRebuild batch).runOn s = (outcome, s')) :
    (∃ between, (x.applyBatch batch).runOn s = (.ok (), between) ∧ outcome = .ok batch.length ∧
      s' = afterBatch between) ∨
    ∃ e between w, (x.applyBatch batch).runOn s = (.error e, between) ∧
      ((∃ rebuilt, (x.rebuild between.live.index.projectId between.live.index.root).runOn
          between.workspace = (.ok rebuilt, w) ∧ outcome = .ok batch.length ∧
          s' = afterRebuild between rebuilt w) ∨
        ∃ cause, (x.rebuild between.live.index.projectId between.live.index.root).runOn
          between.workspace = (.error cause, w) ∧ outcome = .error cause ∧
          s' = { between with workspace := w }) := by
  rcases hrun : (x.applyBatch batch).runOn s with ⟨tried, between⟩
  cases tried with
  | ok u =>
    rw [runOn_applyOrRebuild_of_ok hrun] at h
    obtain ⟨rfl, rfl⟩ := Prod.mk.inj h
    exact Or.inl ⟨between, rfl, rfl, rfl⟩
  | error e =>
    unfold applyOrRebuild at h
    simp only [runOn_bind, runOn_attempt_applyBatch hrun, Except.mapError] at h
    rcases hrebuild : x.rebuildLive.runOn between with ⟨tried, after⟩
    rw [hrebuild] at h
    refine Or.inr ⟨e, between, after.workspace, rfl, ?_⟩
    rcases runOn_rebuildLive_cases hrebuild with ⟨rebuilt, w, hrun, rfl, rfl⟩ |
      ⟨cause, w, hrun, rfl, rfl⟩
    · obtain ⟨rfl, rfl⟩ := Prod.mk.inj h
      exact Or.inl ⟨rebuilt, hrun, rfl, rfl⟩
    · obtain ⟨rfl, rfl⟩ := Prod.mk.inj h
      exact Or.inr ⟨cause, hrun, rfl, rfl⟩

/-- A batch is applied, or a full rebuild takes its place. -/
lemma applyOrRebuild_cases (h : (x.applyOrRebuild batch).runOn s = (.ok n, s')) :
    n = batch.length ∧
      ((∃ between, (x.applyBatch batch).runOn s = (.ok (), between) ∧ s' = afterBatch between) ∨
        ∃ between rebuilt w, s.Continues between ∧
          (x.rebuild between.live.index.projectId between.live.index.root).runOn between.workspace =
            (.ok rebuilt, w) ∧ s' = afterRebuild between rebuilt w) := by
  rcases runOn_applyOrRebuild_cases h with ⟨between, hbatch, hn, rfl⟩ |
    ⟨e, between, w, hbatch, ⟨rebuilt, hrebuild, hn, rfl⟩ | ⟨cause, -, hn, -⟩⟩
  · exact ⟨Except.ok.inj hn, Or.inl ⟨between, hbatch, rfl⟩⟩
  · have hkeeps := x.keeps_applyBatch batch s
    rw [hbatch] at hkeeps
    exact ⟨Except.ok.inj hn, Or.inr ⟨between, rebuilt, w, hkeeps, hrebuild, rfl⟩⟩
  · cases hn

/-- A live index with other pending changes. -/
def withQueue (s : LiveWorkspace) (queue : ChangeQueue) : LiveWorkspace :=
  { s with live := { s.live with queue } }

/-- Processing takes a batch out of the queue, and tries it if it is not empty. -/
lemma runOn_processPending_of_takeReady (x : Indexer) {queue : ChangeQueue}
    (h : s.live.queue.takeReady s.live.batchSize s.workspace.clock.milliseconds = (batch, queue)) :
    x.processPending.runOn s =
      if batch.isEmpty then (.ok 0, withQueue s queue)
      else (x.applyOrRebuild batch).runOn (withQueue s queue) := by
  unfold processPending
  simp only [runOn_bind, runOn_get, h, LiveAction.runOn_modify]
  split_ifs <;> rfl

/-- A forced update of some files takes them out of the queue and tries them as a batch. -/
lemma runOn_forceUpdate_of_ne_nil (x : Indexer) {paths : List String} (h : paths ≠ [])
    (s : LiveWorkspace) :
    (x.forceUpdate paths).runOn s =
      (x.applyOrRebuild ((paths.map s.live.absolute).map fun p => ⟨p, .modified⟩)).runOn
        (withQueue s ((paths.map s.live.absolute).foldl ChangeQueue.remove s.live.queue)) := by
  have hne : ¬paths.isEmpty = true := by rwa [List.isEmpty_iff]
  unfold forceUpdate
  rw [if_neg hne]
  simp only [runOn_bind, runOn_get, LiveAction.runOn_modify]
  rfl

/-- A full rebuild that succeeds replaces the live index. -/
lemma exists_rebuild_of_rebuildLive (h : x.rebuildLive.runOn s = (.ok (), s')) :
    ∃ rebuilt w, (x.rebuild s.live.index.projectId s.live.index.root).runOn s.workspace =
      (.ok rebuilt, w) ∧ s' = afterRebuild s rebuilt w := by
  rcases runOn_rebuildLive_cases h with ⟨rebuilt, w, hrebuild, -, rfl⟩ | ⟨cause, w, -, hcause, -⟩
  · exact ⟨rebuilt, w, hrebuild, rfl⟩
  · cases hcause

/-- A live index without the batch that is taken next. -/
def withoutBatch (s : LiveWorkspace) : LiveWorkspace :=
  withQueue s (s.live.queue.takeReady s.live.batchSize s.workspace.clock.milliseconds).2

/-- All pending changes have been quiet for long enough. -/
def IsQuiet (s : LiveWorkspace) : Prop :=
  ∀ e ∈ s.live.queue.entries,
    e.isReady s.live.queue.window s.workspace.clock.milliseconds = true

/-- When all is quiet, the first pending changes are gone with the batch. -/
lemma entries_withoutBatch (hquiet : IsQuiet s) :
    (withoutBatch s).live.queue.entries = s.live.queue.entries.drop s.live.batchSize :=
  (ChangeQueue.takeReady_of_ready _ hquiet).2

/-- Processing does nothing if nothing is pending. -/
lemma runOn_processPending_of_nil (x : Indexer) (hnil : s.live.queue.entries = []) :
    x.processPending.runOn s = (.ok 0, s) := by
  have htake : s.live.queue.takeReady s.live.batchSize s.workspace.clock.milliseconds =
      ([], s.live.queue) := by
    rw [ChangeQueue.takeReady_eq, ChangeQueue.readyEntries, hnil]
    simp
  exact runOn_processPending_of_takeReady x htake

/-- When all is quiet, processing takes the first pending changes as a batch. -/
lemma runOn_processPending (x : Indexer) (hquiet : IsQuiet s) (hsize : 0 < s.live.batchSize)
    (hne : s.live.queue.entries ≠ []) :
    x.processPending.runOn s =
      (x.applyOrRebuild ((s.live.queue.entries.take s.live.batchSize).map (·.change))).runOn
        (withoutBatch s) := by
  have hbatch : ((s.live.queue.entries.take s.live.batchSize).map (·.change)).isEmpty = false := by
    rw [List.isEmpty_eq_false_iff]
    simp [hne, Nat.pos_iff_ne_zero.mp hsize]
  have htake := (ChangeQueue.takeReady_of_ready s.live.batchSize hquiet).1
  rw [runOn_processPending_of_takeReady x (Prod.ext htake rfl),
    if_neg (Bool.eq_false_iff.mp hbatch),
    withoutBatch]

/-- When all is quiet, processing does nothing if nothing is pending, and otherwise takes the first
pending changes as a batch. -/
lemma processPending_cases (hquiet : IsQuiet s) (hsize : 0 < s.live.batchSize)
    (h : x.processPending.runOn s = (.ok n, s')) :
    (s.live.queue.entries = [] ∧ n = 0 ∧ s' = s) ∨
      (s.live.queue.entries ≠ [] ∧ 0 < n ∧
        (x.applyOrRebuild ((s.live.queue.entries.take s.live.batchSize).map (·.change))).runOn
          (withoutBatch s) = (.ok n, s')) := by
  by_cases hnil : s.live.queue.entries = []
  · rw [runOn_processPending_of_nil x hnil] at h
    obtain ⟨hn, rfl⟩ := Prod.mk.inj h
    exact Or.inl ⟨hnil, (Except.ok.inj hn).symm, rfl⟩
  · rw [runOn_processPending x hquiet hsize hnil] at h
    refine Or.inr ⟨hnil, ?_, h⟩
    rw [(applyOrRebuild_cases h).1, List.length_map, List.length_take, lt_min_iff]
    exact ⟨hsize, List.length_pos_iff.mpr hnil⟩

/-- Processing never takes back that the index was rebuilt, and keeps the size of batches. -/
lemma processPending_le (hquiet : IsQuiet s) (hsize : 0 < s.live.batchSize)
    (h : x.processPending.runOn s = (.ok n, s')) :
    s.live.fullRebuilds ≤ s'.live.fullRebuilds ∧ s'.live.batchSize = s.live.batchSize := by
  rcases processPending_cases hquiet hsize h with ⟨-, -, rfl⟩ | ⟨-, -, hbatch⟩
  · exact ⟨Nat.le_refl _, rfl⟩
  · obtain ⟨-, ⟨between, happlied, rfl⟩ | ⟨between, rebuilt, w, hbetween, -, rfl⟩⟩ :=
      applyOrRebuild_cases hbatch
    · have hkeeps := x.keeps_applyBatch
        ((s.live.queue.entries.take s.live.batchSize).map (·.change)) (withoutBatch s)
      rw [happlied] at hkeeps
      exact ⟨hkeeps.fullRebuilds.ge, hkeeps.batchSize⟩
    · exact ⟨hbetween.fullRebuilds.ge.trans (Nat.le_succ _), hbetween.batchSize⟩

/-- A run that processes what is pending until nothing is.  All pending changes are quiet at every
call, and time may pass between the calls. -/
inductive Drains (x : Indexer) : LiveWorkspace → LiveWorkspace → Prop
  | done {s s' : LiveWorkspace} (quiet : IsQuiet s)
      (last : x.processPending.runOn s = (.ok 0, s')) : Drains x s s'
  | more {s between s' : LiveWorkspace} {n : Nat} (quiet : IsQuiet s)
      (call : x.processPending.runOn s = (.ok (n + 1), between)) (clock : Clock)
      (rest : Drains x { between with workspace := { between.workspace with clock } } s') :
      Drains x s s'

/-- A run never takes back that the index was rebuilt. -/
lemma Drains.fullRebuilds_le (h : x.Drains s s') (hsize : 0 < s.live.batchSize) :
    s.live.fullRebuilds ≤ s'.live.fullRebuilds := by
  induction h with
  | done quiet last => exact (processPending_le quiet hsize last).1
  | more quiet call clock rest ih =>
    obtain ⟨hle, hsame⟩ := processPending_le quiet hsize call
    exact hle.trans (ih (hsame ▸ hsize))

/-- When all is quiet, a call that succeeds takes a batch off the queue. -/
lemma entries_of_processPending (hquiet : IsQuiet s) (hsize : 0 < s.live.batchSize)
    (h : x.processPending.runOn s = (.ok n, s')) :
    s'.live.queue.entries = s.live.queue.entries.drop s.live.batchSize := by
  rcases processPending_cases hquiet hsize h with ⟨hnil, -, rfl⟩ | ⟨-, -, hbatch⟩
  · rw [hnil, List.drop_nil]
  · obtain ⟨-, ⟨between, happlied, rfl⟩ | ⟨between, rebuilt, w, hbetween, -, rfl⟩⟩ :=
      applyOrRebuild_cases hbatch
    · have hkeeps := x.keeps_applyBatch
        ((s.live.queue.entries.take s.live.batchSize).map (·.change)) (withoutBatch s)
      rw [happlied] at hkeeps
      exact (congrArg ChangeQueue.entries hkeeps.queue).trans (entries_withoutBatch hquiet)
    · exact (congrArg ChangeQueue.entries hbetween.queue).trans (entries_withoutBatch hquiet)

/-- Calls that succeed come to an end: each of them makes the queue shorter until nothing is
pending.
-/
theorem exists_drains_of_invariant {P : LiveWorkspace → Prop}
    (hstep : ∀ s, P s → IsQuiet s ∧ 0 < s.live.batchSize ∧
      ∃ n s', x.processPending.runOn s = (.ok n, s') ∧ P s') (h : P s) :
    ∃ s', P s' ∧ x.Drains s s' := by
  induction hlength : s.live.queue.entries.length using Nat.strong_induction_on generalizing s with
  | _ length ih =>
    obtain ⟨hquiet, hsize, n, between, hcall, hbetween⟩ := hstep s h
    rcases processPending_cases hquiet hsize hcall with ⟨-, rfl, rfl⟩ | ⟨hne, hpos, -⟩
    · exact ⟨between, hbetween, .done hquiet hcall⟩
    · obtain ⟨n, rfl⟩ := Nat.exists_eq_succ_of_ne_zero hpos.ne'
      have hshorter : between.live.queue.entries.length < length := by
        have hpending := List.length_pos_iff.mpr hne
        rw [entries_of_processPending hquiet hsize hcall, List.length_drop]
        omega
      obtain ⟨s', hs', hrest⟩ := ih _ hshorter hbetween rfl
      exact ⟨s', hs', .more hquiet hcall between.workspace.clock hrest⟩

/-- What is pending is processed in one batch if it fits into one that can be applied. -/
lemma exists_drains (hquiet : IsQuiet s) (hsize : 0 < s.live.batchSize)
    (hfits : s.live.queue.entries.length ≤ s.live.batchSize)
    (happlies : ∃ between,
      (x.applyBatch (s.live.queue.entries.map (·.change))).runOn (withoutBatch s) =
        (.ok (), between)) :
    ∃ s', x.Drains s s' ∧ s'.live.fullRebuilds = s.live.fullRebuilds := by
  by_cases hnil : s.live.queue.entries = []
  · exact ⟨s, .done hquiet (runOn_processPending_of_nil x hnil), rfl⟩
  · obtain ⟨between, hbatch⟩ := happlies
    obtain ⟨n, hn⟩ := Nat.exists_eq_succ_of_ne_zero fun hzero =>
      hnil (List.length_eq_zero_iff.mp hzero)
    have hcall : x.processPending.runOn s = (.ok (n + 1), afterBatch between) := by
      rw [runOn_processPending x hquiet hsize hnil, List.take_of_length_le hfits,
        runOn_applyOrRebuild_of_ok hbatch, List.length_map, hn]
    -- After this call nothing is pending.
    have hleft : (afterBatch between).live.queue.entries = [] := by
      rw [entries_of_processPending hquiet hsize hcall, List.drop_eq_nil_of_le hfits]
    have hkeeps := x.keeps_applyBatch (s.live.queue.entries.map (·.change)) (withoutBatch s)
    rw [hbatch] at hkeeps
    refine ⟨afterBatch between, .more hquiet hcall between.workspace.clock (.done (fun e he => ?_)
      (runOn_processPending_of_nil x hleft)), hkeeps.fullRebuilds⟩
    have hmem : e ∈ (afterBatch between).live.queue.entries := he
    rw [hleft] at hmem
    cases hmem

end Indexer

end CodeAtlas
