import CodeAtlas.Proofs.Storage.Persist
import CodeAtlas.Proofs.Storage.Readback

/-!
# The steps in which an index is written

Writing an index takes four steps: the data directory is made, the snapshot is written, the graph is
written, and the description is brought up to date.  A document is written as a whole or not at all,
so a step that fails has at most made directories (`Storage.writeDocument_cases`).

`Storage.StopsAfter` describes what a reader finds when the steps come to a stop, because one fails
or because nobody goes on.  Writing an index, whatever comes of it, is such a run of its steps
(`Indexer.stopsAfter_persist`).
-/

namespace CodeAtlas

open CodeAtlas.Action CodeAtlas.FileTree

variable {t t' : FileTree} {touched : Set Place} {path : String}

namespace Storage

/-! ### Single documents -/

/-- The content of the file of a document. -/
def fileOf (document : Json) : FileContent := ⟨document.pretty.toUTF8, none⟩

/-- Making directories lets the tree grow, however many of them can be made. -/
lemma grows_makeDirectories (touched : Set Place) (path : String) :
    Keeps (Grows touched) (makeDirectories path) := by
  have hfirst : Keeps (Grows touched) (makeFirst (pathsUpward path)) :=
    keeps_makeFirst fun _ _ _ _ h => grows_makeDirectory h
  exact hfirst.adapt _

/-- Writing a document fails and changes nothing, or puts the document where its path leads, a link
there not being followed. -/
lemma writeDocument_cases {document : Json} {outcome : Except StorageError Unit}
    (h : (writeDocument path document).runOn t = (outcome, t')) :
    (∃ e, outcome = .error e ∧ t' = t) ∨
    outcome = .ok () ∧ ∃ place, t.locate path false = .ok place ∧
      t.entry? place ≠ some .directory ∧ t' = t.put place (.file (fileOf document)) := by
  unfold writeDocument at h
  simp only [runOn_bind, Action.read, Action.change, runOn_ofRun] at h
  cases hbeside : besideOf t ((Path.parent? path).getD ".") with
  | error e =>
    simp only [hbeside, Prod.mk.injEq] at h
    exact Or.inl ⟨_, h.1.symm, h.2.symm⟩
  | ok u =>
    cases hreplace : t.replace path ⟨document.pretty.toUTF8, none⟩ with
    | error e =>
      simp only [hbeside, hreplace, Prod.mk.injEq] at h
      exact Or.inl ⟨_, h.1.symm, h.2.symm⟩
    | ok tree =>
      simp only [hbeside, hreplace, Prod.mk.injEq] at h
      obtain ⟨houtcome, rfl⟩ := h
      refine Or.inr ⟨houtcome.symm, ?_⟩
      unfold replace at hreplace
      cases hlocate : t.locate path false with
      | error e => simp [hlocate] at hreplace
      | ok place =>
        by_cases hdir : t.entry? place = some .directory
        · simp [hlocate, hdir] at hreplace
        · simp only [hlocate, Except.ok.injEq] at hreplace
          exact ⟨place, rfl, hdir, hreplace.symm⟩

/-- A document that was written stands where its path leads, if no link is in its way. -/
lemma stands_of_writeDocument {document : Json}
    (h : (writeDocument path document).runOn t = (.ok (), t'))
    (hlink : ∀ place target, t.locate path false = .ok place →
      t.entry? place ≠ some (.link target)) :
    ∃ place, t.locate path false = .ok place ∧ Grows {place} t t' ∧
      t'.Stands path place (fileOf document) := by
  rcases writeDocument_cases h with ⟨e, he, -⟩ | ⟨-, place, hlocate, hdir, rfl⟩
  · cases he
  · have hgrows : Grows {place} t (t.put place (.file (fileOf document))) :=
      Grows.put_file hdir fun target => hlink place target hlocate
    have hne : place ≠ [] := by
      rintro rfl
      exact hdir rfl
    exact ⟨place, hlocate, hgrows, hgrows.locate_eq hlocate, entry?_put_self hne⟩

/-- Reading a document changes nothing; it gives what its reader makes of the text. -/
lemma readDocument_cases {read : Json → Option α} {outcome : Except StorageError α}
    (h : (readDocument path read).runOn t = (outcome, t')) :
    t' = t ∧ ∀ a, outcome = .ok a →
      ∃ text, t.readText path = .ok text ∧ (Json.parse? text).bind read = some a := by
  unfold readDocument at h
  simp only [runOn_bind, Action.read, runOn_ofRun] at h
  cases htext : t.readText path with
  | error e =>
    simp only [htext, Prod.mk.injEq] at h
    refine ⟨h.2.symm, fun a ha => ?_⟩
    rw [← h.1] at ha
    cases ha
  | ok text =>
    simp only [htext] at h
    cases hread : (Json.parse? text).bind read with
    | none =>
      simp only [hread, runOn_throw, Prod.mk.injEq] at h
      refine ⟨h.2.symm, fun a ha => ?_⟩
      rw [← h.1] at ha
      cases ha
    | some value =>
      simp only [hread, runOn_pure, Prod.mk.injEq] at h
      refine ⟨h.2.symm, fun a ha => ⟨text, rfl, ?_⟩⟩
      rw [← h.1] at ha
      rw [hread, Except.ok.inj ha]

/-- A document that stands is read, if its reader makes something of it. -/
lemma runOn_readDocument {read : Json → Option α} {place : Place} {document : Json} {a : α}
    (h : t.Stands path place (fileOf document))
    (hread : (Json.parse? document.pretty).bind read = some a) :
    (readDocument path read).runOn t = (.ok a, t) := by
  have htext : t.readText path = .ok document.pretty := h.readText rfl
  have hfirst : (Action.read (StorageError.io path) fun t => t.readText path).runOn t =
      (.ok document.pretty, t) := runOn_read_eq_ok_iff.mpr ⟨htext, rfl⟩
  unfold readDocument
  rw [runOn_bind_of_ok hfirst]
  simp only [hread, runOn_pure]

/-! ### Steps that come to a stop -/

/-- The tree that is left when steps that are done one after the other stop after a number of them:
nobody goes on, or the next step fails. -/
inductive StopsAfter : Nat → List (StorageAction Unit) → FileTree → FileTree → Prop where
  | here (steps : List (StorageAction Unit)) (t : FileTree) : StopsAfter 0 steps t t
  | failed {step : StorageAction Unit} {e : StorageError} {t t' : FileTree}
      (steps : List (StorageAction Unit)) (h : step.runOn t = (.error e, t')) :
      StopsAfter 0 (step :: steps) t t'
  | done {n : Nat} {step : StorageAction Unit} {steps : List (StorageAction Unit)}
      {t t' t'' : FileTree} (h : step.runOn t = (.ok (), t')) (hrest : StopsAfter n steps t' t'') :
      StopsAfter (n + 1) (step :: steps) t t''

namespace StopsAfter

variable {n : Nat} {step : StorageAction Unit} {steps : List (StorageAction Unit)}

/-- Without steps nothing is done. -/
lemma of_nil (h : StopsAfter n [] t t') : n = 0 ∧ t' = t := by
  cases h with
  | here => exact ⟨rfl, rfl⟩

/-- The first step is not begun, or it fails, or it is done. -/
lemma of_cons (h : StopsAfter n (step :: steps) t t') :
    (n = 0 ∧ t' = t) ∨ (n = 0 ∧ ∃ e, step.runOn t = (.error e, t')) ∨
    ∃ k between, n = k + 1 ∧ step.runOn t = (.ok (), between) ∧ StopsAfter k steps between t' := by
  cases h with
  | here => exact Or.inl ⟨rfl, rfl⟩
  | failed _ h => exact Or.inr (Or.inl ⟨rfl, _, h⟩)
  | done h hrest => exact Or.inr (Or.inr ⟨_, _, rfl, h, hrest⟩)

/-- The writing of a document is not done, and nothing has changed, or it is done. -/
lemma of_writeDocument {document : Json}
    (h : StopsAfter n (writeDocument path document :: steps) t t') :
    (n = 0 ∧ t' = t) ∨ ∃ k between, n = k + 1 ∧
      (writeDocument path document).runOn t = (.ok (), between) ∧
      StopsAfter k steps between t' := by
  rcases h.of_cons with hnone | ⟨hn, e, hfailed⟩ | hdone
  · exact Or.inl hnone
  · rcases writeDocument_cases hfailed with ⟨e, -, htree⟩ | ⟨hok, -⟩
    · exact Or.inl ⟨hn, htree⟩
    · cases hok
  · exact Or.inr hdone

/-- Steps can come to a stop after fewer of them. -/
lemma exists_of_le {k : Nat} (h : StopsAfter n steps t t') (hk : k ≤ n) :
    ∃ between, StopsAfter k steps t between := by
  induction h generalizing k with
  | here steps t =>
    obtain rfl := Nat.le_zero.mp hk
    exact ⟨t, .here steps t⟩
  | failed steps h =>
    obtain rfl := Nat.le_zero.mp hk
    exact ⟨_, .failed steps h⟩
  | @done n step steps t t' t'' hstep _ ih =>
    cases k with
    | zero => exact ⟨t, .here _ t⟩
    | succ k =>
      obtain ⟨between, hbetween⟩ := ih (Nat.le_of_succ_le_succ hk)
      exact ⟨between, .done hstep hbetween⟩

/-- Steps that come to a stop do so with others behind them. -/
lemma append (h : StopsAfter n steps t t') (rest : List (StorageAction Unit)) :
    StopsAfter n (steps ++ rest) t t' := by
  induction h with
  | here steps t => exact .here (steps ++ rest) t
  | failed steps h => exact .failed (steps ++ rest) h
  | done h _ ih => exact .done h ih

/-- Steps that come to a stop do so when others were done before them. -/
lemma of_append {between : FileTree} {before : List (StorageAction Unit)} {k : Nat}
    (hbefore : StopsAfter k before t between) (hall : k = before.length)
    (h : StopsAfter n steps between t') : StopsAfter (n + k) (before ++ steps) t t' := by
  induction hbefore with
  | here before t =>
    obtain rfl := List.eq_nil_of_length_eq_zero hall.symm
    exact h
  | failed before _ => cases hall
  | done hfirst _ ih => exact .done hfirst (ih (Nat.succ.inj hall) h)

end StopsAfter

/-- An action does steps one after the other, up to the first that fails. -/
def DoesSteps (a : StorageAction Unit) (steps : List (StorageAction Unit)) : Prop :=
  ∀ t t' outcome, a.runOn t = (outcome, t') →
    ∃ n, StopsAfter n steps t t' ∧ (outcome = .ok () → n = steps.length)

namespace DoesSteps

variable {a b : StorageAction Unit} {steps rest : List (StorageAction Unit)}

/-- An action is a step of its own. -/
lemma single (a : StorageAction Unit) : DoesSteps a [a] := by
  intro t t' outcome hrun
  cases outcome with
  | error e => exact ⟨0, .failed [] hrun, fun hok => by cases hok⟩
  | ok u => exact ⟨1, .done hrun (.here [] t'), fun _ => rfl⟩

/-- Two actions one after the other do the steps of the first and then those of the second. -/
lemma bind (ha : DoesSteps a steps) (hb : DoesSteps b rest) :
    DoesSteps (a >>= fun _ => b) (steps ++ rest) := by
  intro t t' outcome hrun
  rw [runOn_bind] at hrun
  rcases hfirst : a.runOn t with ⟨first, between⟩
  obtain ⟨k, hstops, hk⟩ := ha _ _ _ hfirst
  rw [hfirst] at hrun
  cases first with
  | error e =>
    obtain ⟨rfl, rfl⟩ := Prod.mk.inj hrun
    exact ⟨k, hstops.append rest, fun hok => by cases hok⟩
  | ok u =>
    obtain ⟨n, hrest, hn⟩ := hb _ _ _ hrun
    refine ⟨n + k, hstops.of_append (hk rfl) hrest, fun hok => ?_⟩
    rw [hn hok, hk rfl, List.length_append, Nat.add_comm]

end DoesSteps

end Storage

/-- Both documents stand after they were saved, if there are no links in their places. -/
lemma SnapshotDirectory.stands_of_save {d : SnapshotDirectory} {s : Snapshot} {g : CallGraph}
    (hlink : ∀ {touched : Set Place} {t₁ : FileTree} {q : Place}, Grows touched t t₁ →
      t₁.locate d.symbolsPath false = .ok q ∨ t₁.locate d.graphPath false = .ok q →
        ∀ target, t₁.entry? q ≠ some (.link target))
    (hrun : (d.save s g).runOn t = (.ok (), t')) :
    ∃ place place', place ≠ place' ∧ Grows {place, place'} t t' ∧
      t'.Stands d.symbolsPath place (Storage.fileOf s.toJson) ∧
      t'.Stands d.graphPath place' (Storage.fileOf g.toJson) := by
  unfold save at hrun
  obtain ⟨_, t₁, hmake, hrun⟩ := runOn_bind_eq_ok_iff.mp hrun
  obtain ⟨_, t₂, hfirst, hsecond⟩ := runOn_bind_eq_ok_iff.mp hrun
  have hmade := Storage.grows_makeDirectories ∅ d.path t
  rw [hmake] at hmade
  obtain ⟨place, hplace, hgrows₁, hstands⟩ := Storage.stands_of_writeDocument hfirst
    fun q target hq => hlink hmade (Or.inl hq) target
  have hgrows₁ := (hmade.mono (Set.empty_subset _)).trans hgrows₁
  obtain ⟨place', hplace', hgrows₂, hstands'⟩ := Storage.stands_of_writeDocument hsecond
    fun q target hq => hlink hgrows₁ (Or.inr hq) target
  have hne : place ≠ place' := by
    obtain ⟨above, -, rfl⟩ := locate_join (by decide) hplace
    obtain ⟨above', -, rfl⟩ := locate_join (by decide) hplace'
    intro heq
    exact absurd (List.singleton_inj.mp (List.append_inj_right' heq rfl)) (by decide)
  refine ⟨place, place', hne, ?_, hstands.grows hgrows₂ hne, hstands'⟩
  exact (hgrows₁.mono (by simp)).trans (hgrows₂.mono (by simp))

/-- Snapshots whose documents stand are loaded as the documents say. -/
lemma SnapshotDirectory.runOn_load {d : SnapshotDirectory} {s : Snapshot} {g : CallGraph}
    {place place' : Place} (hsymbols : t.Stands d.symbolsPath place (Storage.fileOf s.toJson))
    (hgraph : t.Stands d.graphPath place' (Storage.fileOf g.toJson)) :
    d.load.runOn t = (.ok (some (s, g)), t) := by
  have hboth : d.exists? t = true := by
    rw [SnapshotDirectory.exists?, hsymbols.isFile, hgraph.isFile]
    rfl
  have hsnapshot := Storage.runOn_readDocument hsymbols s.parse?_pretty
  have hread := Storage.runOn_readDocument hgraph g.parse?_pretty
  unfold SnapshotDirectory.load
  rw [runOn_bind_of_ok (runOn_get t), if_pos hboth, runOn_bind_of_ok hsnapshot]
  exact runOn_bind_of_ok hread

/-! ### Descriptions -/

namespace IndexDirectory

/-- Looking for a description changes nothing; the one that it gives is read from its document. -/
lemma get?_cases {d : IndexDirectory} {id : String}
    {outcome : Except StorageError (Option IndexMetadata)}
    (h : (d.get? id).runOn t = (outcome, t')) :
    t' = t ∧ ∀ m, outcome = .ok (some m) → ∃ text, t.readText (d.metadataPath id) = .ok text ∧
      (Json.parse? text).bind IndexMetadata.ofJson? = some m := by
  unfold get? at h
  rw [runOn_bind_of_ok (runOn_get t)] at h
  split_ifs at h
  · rw [runOn_bind] at h
    rcases hread : (Storage.readDocument (d.metadataPath id) IndexMetadata.ofJson?).runOn t with
      ⟨first, between⟩
    obtain ⟨rfl, hfirst⟩ := Storage.readDocument_cases hread
    rw [hread] at h
    cases first with
    | error e =>
      obtain ⟨rfl, rfl⟩ := Prod.mk.inj h
      exact ⟨rfl, fun m hm => by cases hm⟩
    | ok m =>
      obtain ⟨rfl, rfl⟩ := Prod.mk.inj h
      refine ⟨rfl, fun m' hm' => ?_⟩
      obtain rfl : m = m' := Option.some.inj (Except.ok.inj hm')
      exact hfirst m rfl
  · obtain ⟨rfl, rfl⟩ := Prod.mk.inj h
    exact ⟨rfl, fun m hm => by cases Except.ok.inj hm⟩

/-- A description that is found is one of the project itself. -/
def DescribesOwn (d : IndexDirectory) (t : FileTree) (id : String) : Prop :=
  ∀ text m, t.readText (d.metadataPath id) = .ok text →
    (Json.parse? text).bind IndexMetadata.ofJson? = some m → m.projectId = id

/-- A description that stands as it was written is one of its project. -/
lemma describesOwn_of_stands {d : IndexDirectory} {id : String} {place : Place} {m : IndexMetadata}
    (h : t.Stands (d.metadataPath id) place (Storage.fileOf m.toJson)) (hm : m.projectId = id) :
    d.DescribesOwn t id := by
  intro text m' htext hm'
  have hpretty : t.readText (d.metadataPath id) = .ok m.toJson.pretty := h.readText rfl
  rw [htext] at hpretty
  rw [Except.ok.inj hpretty] at hm'
  rw [IndexMetadata.projectId_of_parse?_pretty hm', hm]

/-- Bringing the description of an index up to date. -/
def describe (d : IndexDirectory) (index : ProjectIndex) (change : IndexMetadata → IndexMetadata)
    (now : Timestamp) : StorageAction Unit := do
  let old ← d.get? index.projectId
  d.save (change (Indexer.describe index old now))

/-- The steps in which an index is written. -/
def writeSteps (d : IndexDirectory) (index : ProjectIndex) (change : IndexMetadata → IndexMetadata)
    (now : Timestamp) : List (StorageAction Unit) :=
  [Storage.makeDirectories (d.dataDirectory index.projectId),
    Storage.writeDocument (d.snapshots index.projectId).symbolsPath index.snapshot.toJson,
    Storage.writeDocument (d.snapshots index.projectId).graphPath index.graph.toJson,
    d.describe index change now]

/-- The counts that a description gives. -/
def Counts (m : IndexMetadata) (index : ProjectIndex) : Prop :=
  m.symbolCount = index.stats.symbols ∧ m.fileCount = index.stats.files ∧
    m.callEdgeCount = index.stats.callEdges

variable {d : IndexDirectory} {index : ProjectIndex} {change : IndexMetadata → IndexMetadata}
  {now : Timestamp}

/-- Bringing a description up to date makes directories and fails, or puts a description of the
project with the new counts where its path leads. -/
lemma describe_cases {outcome : Except StorageError Unit}
    (hown : d.DescribesOwn t index.projectId)
    (hchange : ∀ m, (change m).projectId = m.projectId)
    (h : (d.describe index change now).runOn t = (outcome, t')) :
    (∃ e, outcome = .error e ∧ Grows ∅ t t') ∨
    outcome = .ok () ∧ ∃ old t₁, Grows ∅ t t₁ ∧
      (Indexer.describe index old now).projectId = index.projectId ∧
      (Storage.writeDocument (d.metadataPath index.projectId)
        (change (Indexer.describe index old now)).toJson).runOn t₁ = (.ok (), t') := by
  unfold describe at h
  rw [runOn_bind] at h
  rcases hget : (d.get? index.projectId).runOn t with ⟨first, between⟩
  obtain ⟨rfl, hfirst⟩ := get?_cases hget
  rw [hget] at h
  cases first with
  | error e =>
    obtain ⟨rfl, rfl⟩ := Prod.mk.inj h
    exact Or.inl ⟨e, rfl, Grows.refl _ _⟩
  | ok old =>
    have hid : (Indexer.describe index old now).projectId = index.projectId := by
      cases old with
      | none => rfl
      | some m =>
        obtain ⟨text, htext, hm⟩ := hfirst m rfl
        exact hown text m htext hm
    simp only [save, hchange, hid] at h
    rw [runOn_bind] at h
    have hgrows := Storage.grows_makeDirectories ∅ d.metadataDirectory between
    rcases hmake : (Storage.makeDirectories d.metadataDirectory).runOn between with ⟨made, t₁⟩
    rw [hmake] at h hgrows
    cases made with
    | error e =>
      obtain ⟨rfl, rfl⟩ := Prod.mk.inj h
      exact Or.inl ⟨e, rfl, hgrows⟩
    | ok u =>
      have hwrite : (Storage.writeDocument (d.metadataPath index.projectId)
          (change (Indexer.describe index old now)).toJson).runOn t₁ = (outcome, t') := h
      rcases Storage.writeDocument_cases hwrite with ⟨e, rfl, rfl⟩ | ⟨rfl, -⟩
      · exact Or.inl ⟨e, rfl, hgrows⟩
      · exact Or.inr ⟨rfl, old, t₁, hgrows, hid, hwrite⟩

end IndexDirectory

/-! ### Writing an index -/

/-- What the store does is done to the files of the workspace, whatever comes of it. -/
lemma Workspace.runOn_storage_eq (a : StorageAction α) (w : Workspace) :
    (Workspace.storage a).runOn w =
      (match (a.runOn w.files).1 with
        | .ok x => .ok x
        | .error e => .error (.storage e), { w with files := (a.runOn w.files).2 }) := by
  rw [Workspace.storage, Action.within, runOn_ofRun, Action.adapt, runOn_ofRun]
  rcases a.runOn w.files with ⟨outcome, t⟩
  cases outcome <;> rfl

/-- What is done to the files first fails, and that is all, or it gives a value for the rest. -/
lemma Workspace.runOn_storage_bind_cases {a : StorageAction α} {f : α → IndexAction β}
    {w w' : Workspace} {outcome : Except IndexError β}
    (h : (Workspace.storage a >>= f).runOn w = (outcome, w')) :
    (∃ e t, a.runOn w.files = (.error e, t) ∧ outcome = .error (.storage e) ∧
      w' = { w with files := t }) ∨
    ∃ v t, a.runOn w.files = (.ok v, t) ∧ (f v).runOn { w with files := t } = (outcome, w') := by
  rw [runOn_bind, runOn_storage_eq] at h
  rcases hrun : a.runOn w.files with ⟨first, t⟩
  rw [hrun] at h
  cases first with
  | error e =>
    obtain ⟨rfl, rfl⟩ := Prod.mk.inj h
    exact Or.inl ⟨e, t, rfl, rfl, rfl⟩
  | ok v => exact Or.inr ⟨v, t, rfl, h⟩

namespace Indexer

variable {x : Indexer} {index : ProjectIndex} {change : IndexMetadata → IndexMetadata}
  {w w' : Workspace} {outcome : Except IndexError IndexMetadata}

/-- Writing an index is writing its snapshots and then bringing its description up to date.  Nothing
but the files of the workspace is changed. -/
lemma files_of_persist (h : (x.persist index change).runOn w = (outcome, w')) :
    ∃ done t',
      ((x.directory.snapshots index.projectId).save index.snapshot index.graph >>= fun _ =>
        x.directory.describe index change w.clock.now).runOn w.files = (done, t') ∧
      w' = { w with files := t' } ∧ ((∃ m, outcome = .ok m) → done = .ok ()) := by
  unfold persist at h
  rw [runOn_bind_of_ok (runOn_get w)] at h
  simp only [runOn_bind, IndexDirectory.describe]
  rcases Workspace.runOn_storage_bind_cases h with
    ⟨e, t₁, hsave, rfl, rfl⟩ | ⟨u, t₁, hsave, h⟩
  · exact ⟨.error e, t₁, by rw [hsave], rfl, fun ⟨m, hm⟩ => by cases hm⟩
  rcases Workspace.runOn_storage_bind_cases h with
    ⟨e, t₂, hget, rfl, rfl⟩ | ⟨old, t₂, hget, h⟩
  · refine ⟨.error e, t₂, ?_, rfl, fun ⟨m, hm⟩ => by cases hm⟩
    simp only [hsave, hget]
  rcases Workspace.runOn_storage_bind_cases h with
    ⟨e, t₃, hdescribed, rfl, rfl⟩ | ⟨u, t₃, hdescribed, h⟩
  · refine ⟨.error e, t₃, ?_, rfl, fun ⟨m, hm⟩ => by cases hm⟩
    simp only [hsave, hget]
    exact hdescribed
  · obtain ⟨rfl, rfl⟩ := Prod.mk.inj h
    refine ⟨.ok (), t₃, ?_, rfl, fun _ => rfl⟩
    simp only [hsave, hget]
    exact hdescribed

/-- Writing an index is doing its steps one after the other, up to the first that fails.  Nothing
but the files of the workspace is changed. -/
lemma stopsAfter_persist (h : (x.persist index change).runOn w = (outcome, w')) :
    ∃ n t', w' = { w with files := t' } ∧
      Storage.StopsAfter n (x.directory.writeSteps index change w.clock.now) w.files t' ∧
      ((∃ m, outcome = .ok m) → n = 4) := by
  obtain ⟨done, t', hrun, rfl, hdone⟩ := files_of_persist h
  have hsave : Storage.DoesSteps
      ((x.directory.snapshots index.projectId).save index.snapshot index.graph)
      [Storage.makeDirectories (x.directory.dataDirectory index.projectId),
        Storage.writeDocument (x.directory.snapshots index.projectId).symbolsPath
          index.snapshot.toJson,
        Storage.writeDocument (x.directory.snapshots index.projectId).graphPath
          index.graph.toJson] :=
    (Storage.DoesSteps.single _).bind
      ((Storage.DoesSteps.single _).bind (Storage.DoesSteps.single _))
  obtain ⟨n, hstops, hn⟩ := hsave.bind (Storage.DoesSteps.single _) _ _ _ hrun
  exact ⟨n, t', rfl, hstops, fun hok => hn (hdone hok)⟩

end Indexer

end CodeAtlas
