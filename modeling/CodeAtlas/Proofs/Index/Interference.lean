import CodeAtlas.Proofs.Index.OtherProjects

/-!
# Projects in one index directory do not interfere

Two courses of events are compared that begin in the same workspace.  In both of them the same files
are edited and time passes alike, but in the second one other projects are built, rebuilt and
brought up to date too, in the same index directory (`Indexer.WorkedBeside`).  Whoever asks for a
project afterwards gets the same answers in both (`Indexer.answers_eq_of_workedBeside`).

A project goes by the name of its root, and by nothing else.  So this is about roots with different
names: two roots of the same name are one project to the index directory
(`Indexer.not_answers_eq_of_ne_root`).
-/

namespace CodeAtlas

open CodeAtlas.Action CodeAtlas.FileTree

namespace Indexer

open IndexDirectory

variable {x : Indexer} {d : IndexDirectory} {base place : Place} {id root canonical : String}
  {w w' : Workspace} {t t' : FileTree}

/-! ### Two courses of events -/

/-- Two workspaces that come of the same one.  In the second course of events work was done on other
projects than a given one, with any results; apart from that the same happened in both: files were
edited outside the index directory and not on the way to it, and time passed. -/
inductive WorkedBeside (d : IndexDirectory) (base : Place) (id : String) :
    Workspace → Workspace → Prop
  | start {w : Workspace} (h : d.Hosts base w.files) : WorkedBeside d base id w w
  | put {w w' : Workspace} (h : WorkedBeside d base id w w') {place : Place}
      (hplace : place ∉ area base) (e : FileEntry) :
      WorkedBeside d base id { w with files := w.files.put place e }
        { w' with files := w'.files.put place e }
  | erase {w w' : Workspace} (h : WorkedBeside d base id w w') {place : Place}
      (hplace : place ∉ area base) :
      WorkedBeside d base id { w with files := w.files.erase place }
        { w' with files := w'.files.erase place }
  | pass {w w' : Workspace} (h : WorkedBeside d base id w w') (clock : Clock) :
      WorkedBeside d base id { w with clock } { w' with clock }
  | build {w w' w'' : Workspace} (h : WorkedBeside d base id w w') {y : Indexer}
      (hy : y.directory = d) {root : String} {force : Bool}
      {outcome : Except IndexError BuildOutcome}
      (hother : ∀ found, (identify root).runOn w' = (.ok found, w') → found.1 ≠ id)
      (hrun : (y.build root force).runOn w' = (outcome, w'')) : WorkedBeside d base id w w''
  | rebuild {w w' w'' : Workspace} (h : WorkedBeside d base id w w') {y : Indexer}
      (hy : y.directory = d) {other root : String} {outcome : Except IndexError ProjectIndex}
      (hplain : Path.IsPlainName other) (hne : other ≠ id)
      (hrun : (y.rebuild other root).runOn w' = (outcome, w'')) : WorkedBeside d base id w w''
  | process {w w' : Workspace} (h : WorkedBeside d base id w w') {y : Indexer}
      (hy : y.directory = d) {live : LiveIndex} {outcome : Except IndexError Nat}
      {s : LiveWorkspace}
      (hplain : Path.IsPlainName live.index.projectId) (hne : live.index.projectId ≠ id)
      (hrun : y.processPending.runOn ⟨live, w'⟩ = (outcome, s)) :
      WorkedBeside d base id w s.workspace
  | force {w w' : Workspace} (h : WorkedBeside d base id w w') {y : Indexer}
      (hy : y.directory = d) {live : LiveIndex} {paths : List String}
      {outcome : Except IndexError Nat} {s : LiveWorkspace}
      (hplain : Path.IsPlainName live.index.projectId) (hne : live.index.projectId ≠ id)
      (hrun : (y.forceUpdate paths).runOn ⟨live, w'⟩ = (outcome, s)) :
      WorkedBeside d base id w s.workspace

/-- In both workspaces the index directory hosts projects, and the second is the first with what was
done for other projects. -/
structure DiffersInOthers (d : IndexDirectory) (base : Place) (id : String) (w w' : Workspace) :
    Prop where
  hosts : d.Hosts base w.files
  hosts' : d.Hosts base w'.files
  files : Extends (directories base) (documentsOfOthers base id) w.files w'.files
  refuses_eq : w'.documents.refuses = w.documents.refuses
  clock_eq : w'.clock = w.clock

namespace DiffersInOthers

/-- Work that leaves the project alone may go on. -/
lemma leavesAlone {w'' : Workspace} (h : DiffersInOthers d base id w w')
    (hleaves : d.LeavesAlone base id w' w'') : DiffersInOthers d base id w w'' := by
  obtain ⟨hhosts, hextends⟩ := hleaves.files h.hosts'
  exact ⟨h.hosts, hhosts, h.files.trans hextends, hleaves.refuses_eq.trans h.refuses_eq,
    hleaves.clock_eq.trans h.clock_eq⟩

/-- The same entry may be put into both trees or erased from both of them. -/
lemma edit (h : DiffersInOthers d base id w w')
    (hstart : t.startOf d.path = w.files.startOf d.path)
    (hstart' : t'.startOf d.path = w'.files.startOf d.path)
    (hsame : ∀ q ∈ area base, t.entry? q = w.files.entry? q)
    (hsame' : ∀ q ∈ area base, t'.entry? q = w'.files.entry? q)
    (hextends : Extends (directories base) (documentsOfOthers base id) t t') :
    DiffersInOthers d base id { w with files := t } { w' with files := t' } :=
  ⟨h.hosts.congr hstart hsame, h.hosts'.congr hstart' hsame', hextends, h.refuses_eq, h.clock_eq⟩

end DiffersInOthers

/-- Whatever work is done on other projects, the workspaces differ in other projects alone. -/
lemma WorkedBeside.differsInOthers (h : WorkedBeside d base id w w') :
    DiffersInOthers d base id w w' := by
  induction h with
  | @start w h => exact ⟨h, h, Extends.refl _ _ w.files, rfl, rfl⟩
  | @put w w' h place hplace e ih =>
    have hne : ∀ q ∈ area base, q ≠ place := fun q hq heq => hplace (heq ▸ hq)
    exact ih.edit rfl rfl (fun q hq => entry?_put_of_ne e (hne q hq))
      (fun q hq => entry?_put_of_ne e (hne q hq)) (ih.files.put_both place e)
  | @erase w w' h place hplace ih =>
    have hne : ∀ q ∈ area base, ¬(q = place ∧ place ≠ []) := fun q hq heq => hplace (heq.1 ▸ hq)
    exact ih.edit rfl rfl (fun q hq => by rw [entry?_erase, if_neg (hne q hq)])
      (fun q hq => by rw [entry?_erase, if_neg (hne q hq)]) (ih.files.erase_both place)
  | pass h clock ih => exact ⟨ih.hosts, ih.hosts', ih.files, ih.refuses_eq, rfl⟩
  | build h hy hother hrun ih => exact ih.leavesAlone (hy ▸ leavesAlone_build hother hrun)
  | @rebuild w w' w'' h y hy other root outcome hplain hne hrun ih =>
    have hkeeps : y.directory.LeavesAlone base id w' _ := leavesAlone_rebuild hplain hne root w'
    rw [hrun] at hkeeps
    exact ih.leavesAlone (hy ▸ hkeeps)
  | process h hy hplain hne hrun ih =>
    exact ih.leavesAlone (hy ▸ leavesAlone_processPending hplain hne hrun)
  | force h hy hplain hne hrun ih =>
    exact ih.leavesAlone (hy ▸ leavesAlone_forceUpdate hplain hne hrun)

/-! ### What is done to the project -/

/-- Two workspaces that differ in what is kept of other projects in an index directory. -/
structure Beside (base : Place) (id : String) (w w' : Workspace) : Prop where
  files : IndexDirectory.Beside base id w.files w'.files
  refuses_eq : w'.documents.refuses = w.documents.refuses
  clock_eq : w'.clock = w.clock

namespace Beside

/-- What the store does alike to the files it does alike to the workspaces. -/
lemma alike_storage {a : StorageAction α} (h : Beside base id w w')
    (ha : Alike (IndexDirectory.Beside base id) a a w.files w'.files) :
    Alike (Beside base id) (Workspace.storage a) (Workspace.storage a) w w' :=
  (ha.adapt _).within fun _ _ ht => ⟨ht, h.refuses_eq, h.clock_eq⟩

/-- The store behind the document service is of no account. -/
lemma withStore (h : Beside base id w w') (store store' : DocumentStore) :
    Beside base id (Indexer.withStore w store) (Indexer.withStore w' store') :=
  ⟨h.files, h.refuses_eq, h.clock_eq⟩

/-- The description that makes a build superfluous is the same. -/
lemma alike_cached? (h : Beside base id w w') (hd : x.directory.IsAt base w.files)
    (hid : Path.IsPlainName id) : Alike (Beside base id) (x.cached? id) (x.cached? id) w w' := by
  unfold cached?
  refine .get_bind ?_
  rw [h.files.exists?_eq hd hid]
  split_ifs
  · exact h.alike_storage (h.files.alike_get? hd hid)
  · exact .pure h none

/-- The same index is read from disk. -/
lemma alike_loadProject (h : Beside base id w w') (hd : x.directory.IsAt base w.files)
    (hid : Path.IsPlainName id) (root : String) :
    Alike (Beside base id) (x.loadProject id root) (x.loadProject id root) w w' := by
  unfold loadProject
  refine .get_bind ?_
  rw [h.files.exists?_eq hd hid]
  split_ifs
  · exact (h.alike_storage (h.files.alike_load hd hid)).bind fun _ _ _ _ _ hread => .pure hread _
  · exact .pure h none

/-- An index of the project is written to disk alike. -/
lemma alike_persist {index : ProjectIndex} {change : IndexMetadata → IndexMetadata}
    (h : Beside base index.projectId w w') (hhosts : x.directory.Hosts base w.files)
    (hid : Path.IsPlainName index.projectId) (hchange : ∀ m, (change m).projectId = m.projectId) :
    Alike (Beside base index.projectId) (x.persist index change) (x.persist index change) w w' := by
  have hd := hhosts.toIsAt
  unfold persist
  refine .get_bind ?_
  rw [h.clock_eq]
  refine (h.alike_storage (h.files.alike_save_snapshots hd hid _ _)).bind
    fun _ u u' hsave _ hsaved => ?_
  rw [Workspace.storage, runOn_within_eq_ok_iff] at hsave
  obtain ⟨t, hsave, rfl⟩ := hsave
  rw [runOn_adapt_eq_ok_iff] at hsave
  obtain ⟨hgrows, -, -⟩ := (hhosts.liesAt.leadsTo hid).stands_of_save hsave
  have hd' := hd.grows hgrows
  refine (hsaved.alike_storage (hsaved.files.alike_get? hd' hid)).bind
    fun old v v' hget _ hfound => ?_
  rw [Workspace.storage, runOn_within_eq_ok_iff] at hget
  obtain ⟨_, hget, rfl⟩ := hget
  rw [runOn_adapt_eq_ok_iff] at hget
  obtain ⟨rfl, hold⟩ := get?_cases hget
  -- What is brought up to date is the description of the project, also if there was one before.
  have hown : (change (describe index old w.clock.now)).projectId = index.projectId := by
    rw [hchange]
    cases old with
    | none => rfl
    | some m =>
      obtain ⟨text, htext, hm⟩ := hold m rfl
      exact hhosts.describesOwn hid hgrows text m htext hm
  exact (hfound.alike_storage (hfound.files.alike_save hd' hid hown)).bind
    fun _ _ _ _ _ hwritten => .pure hwritten _

/-- The same index is made in memory, if the same is merged of the files. -/
lemma alike_assemble (h : Beside base id w w')
    (hmerge : w'.files.merge x.measurer x.sources id canonical
        (w'.files.walk x.settings.indexing canonical) =
      w.files.merge x.measurer x.sources id canonical
        (w.files.walk x.settings.indexing canonical)) :
    Alike (Beside base id) (x.assemble id canonical) (x.assemble id canonical) w w' := by
  rw [Alike, runOn_assemble, runOn_assemble, hmerge, h.refuses_eq]
  split
  · exact ⟨rfl, h⟩
  · split
    · exact ⟨rfl, h⟩
    · split
      · exact ⟨rfl, h.withStore _ _⟩
      · exact ⟨rfl, h.withStore _ _⟩

/-- The project is built alike, if the same is merged of the files. -/
lemma alike_rebuildWithMetadata (h : Beside base id w w') (hhosts : x.directory.Hosts base w.files)
    (hid : Path.IsPlainName id)
    (hmerge : w'.files.merge x.measurer x.sources id canonical
        (w'.files.walk x.settings.indexing canonical) =
      w.files.merge x.measurer x.sources id canonical
        (w.files.walk x.settings.indexing canonical)) :
    Alike (Beside base id) (x.rebuildWithMetadata id canonical) (x.rebuildWithMetadata id canonical)
      w w' := by
  unfold rebuildWithMetadata
  refine (h.alike_assemble hmerge).bind fun made u u' hu _ hmade => ?_
  obtain ⟨index, origins⟩ := made
  obtain ⟨⟨merged, -, rfl⟩, rfl⟩ := exists_merge_of_assemble hu
  refine .get_bind ?_
  dsimp only
  rw [hmade.clock_eq]
  let index := ProjectIndex.ofMerged id canonical merged
  let between := Indexer.withStore w ((w.documents.store.clear id).upsert index.documents)
  let change (m : IndexMetadata) : IndexMetadata :=
    { m with origins := origins.map Origin.name, buildMs := between.clock.elapsedMs }
  have hwrite :
      Alike (Beside base index.projectId) (x.persist index change) (x.persist index change)
      between u' := hmade.alike_persist hhosts hid fun _ => rfl
  exact hwrite.bind fun _ _ _ _ _ hwritten => .pure hwritten _

/-- A root that is identified in both workspaces is built alike, if the same is merged of the
files. -/
lemma alike_tryBuild (h : Beside base id w w') (hhosts : x.directory.Hosts base w.files)
    (hroot : (identify root).runOn w = (.ok (id, canonical), w))
    (hroot' : (identify root).runOn w' = (.ok (id, canonical), w'))
    (hmerge : w'.files.merge x.measurer x.sources id canonical
        (w'.files.walk x.settings.indexing canonical) =
      w.files.merge x.measurer x.sources id canonical
        (w.files.walk x.settings.indexing canonical)) (force : Bool) :
    Alike (Beside base id) (x.tryBuild root force) (x.tryBuild root force) w w' := by
  obtain ⟨-, -, hid, -⟩ := identify_cases hroot
  have hbuild := h.alike_rebuildWithMetadata hhosts hid hmerge
  have hrest : ∀ known, Alike (Beside base id) (x.buildUnlessKnown id canonical known)
      (x.buildUnlessKnown id canonical known) w w' := by
    intro known
    cases known with
    | some metadata => exact .pure h _
    | none => exact hbuild.bind fun _ _ _ _ _ hbuilt => .pure hbuilt _
  rw [tryBuild_eq]
  refine (Alike.of_runOn hroot hroot' h).bind fun found u u' hu hu' _ => ?_
  obtain ⟨houtcome, rfl⟩ := Prod.mk.inj (hroot.symm.trans hu)
  obtain ⟨-, rfl⟩ := Prod.mk.inj (hroot'.symm.trans hu')
  obtain rfl := Except.ok.inj houtcome
  have hknown : Alike (Beside base id) (if force then pure none else x.cached? id)
      (if force then pure none else x.cached? id) w w' := by
    split_ifs
    · exact .pure h none
    · exact h.alike_cached? hhosts.toIsAt hid
  have hsame := x.keeps_known force id
  refine hknown.bind fun known u u' hu hu' _ => ?_
  obtain rfl : w = u := by simpa only [hu] using hsame w
  obtain rfl : w' = u' := by simpa only [hu'] using hsame w'
  exact hrest known

end Beside

/-! ### Answers -/

namespace DiffersInOthers

/-- What is known of the project is the same as far as files are concerned, if the first tree is
well formed. -/
lemma beside (h : DiffersInOthers d base id w w') (hwf : w.files.WellFormed) :
    Beside base id w w' :=
  ⟨⟨h.files, hwf.parent, h.hosts.ne_link⟩, h.refuses_eq, h.clock_eq⟩

/-- The documents of other projects are documents. -/
lemma addsDocuments (h : DiffersInOthers d base id w w') : w.files.AddsDocuments w'.files := by
  refine h.files.addsDocuments ?_
  have hdocument : ∀ (above : Place) (stem : String), '/' ∉ (stem ++ ".json").toList →
      IsDocument (above ++ [stem ++ ".json"]) := fun above stem hslash =>
    ⟨_, List.getLast?_concat, ⟨stem, rfl⟩, hslash⟩
  rintro q ⟨other, hplain, -, rfl | rfl | rfl⟩
  · have hplace := hdocument (base ++ ["projects", other]) "symbols" (by decide)
    rwa [List.append_assoc] at hplace
  · have hplace := hdocument (base ++ ["projects", other]) "call_graph" (by decide)
    rwa [List.append_assoc] at hplace
  · have hplace := hdocument (base ++ ["meta"]) other (isPlainName_metadata hplain).2.2.2
    rwa [List.append_assoc] at hplace

/-- A directory has the same source files in it, if documents are no source files or the directory
is neither in the index directory nor around it. -/
lemma sameSources (h : DiffersInOthers d base id w w')
    (hapart : (∀ ext ∈ x.settings.indexing.extensions, Text.lowerAscii ext ≠ "json") ∨
      place ∉ area base) : SameSources x.settings.indexing place w.files w'.files := by
  rcases hapart with hjson | hapart
  · exact h.addsDocuments.sameSources hjson place
  · intro names _ _
    refine h.files.fileAt?_eq _ fun ⟨other, _, _, hin⟩ => hapart ?_
    exact area_of_append (all_subset_area base other hin)

end DiffersInOthers

/-- Work on other projects in an index directory does not show in the answers about a project: in
what is loaded, in what comes of a build, whether or not it is forced, and in the description.

The answers are those of the course of events in which the work was not done.  Ignore files must be
no links there, and if documents count as source files, the root of the project must be neither in
the index directory nor around it. -/
theorem answers_eq_of_workedBeside (h : WorkedBeside x.directory base id w w')
    (hwf : w.files.WellFormed) (hignore : w.files.PlainIgnoreFiles)
    (hroot : (identify root).runOn w = (.ok (id, canonical), w))
    (hfind : w.files.find? root = .ok (place, .directory))
    (hapart : (∀ ext ∈ x.settings.indexing.extensions, Text.lowerAscii ext ≠ "json") ∨
      place ∉ area base) :
    ((x.load root).runOn w').1 = ((x.load root).runOn w).1 ∧
    (∀ force, ((x.build root force : IndexAction BuildOutcome).runOn w').1 =
      ((x.build root force : IndexAction BuildOutcome).runOn w).1) ∧
    ((x.directory.get? id).runOn w'.files).1 = ((x.directory.get? id).runOn w.files).1 := by
  have hdiffers := h.differsInOthers
  have hbeside := hdiffers.beside hwf
  have hd := hdiffers.hosts.toIsAt
  obtain ⟨-, -, hid, -⟩ := identify_cases hroot
  -- The root is identified as before.
  have hfound := (runOn_identify hfind).symm.trans hroot
  obtain ⟨hname, rfl⟩ := Prod.mk.inj (Except.ok.inj (Prod.mk.inj hfound).1)
  have hroot' := runOn_identify (hdiffers.files.find?_directory hfind)
  rw [hname] at hroot'
  -- The same source files are found and merged.
  have hmerge := hdiffers.addsDocuments.merge_eq hwf hignore (hdiffers.sameSources hapart)
    (find?_eq_ok_iff.mp hfind).2 x.measurer x.sources id
  refine ⟨?_, fun force => ?_, (hbeside.files.alike_get? hd hid).1.symm⟩
  · have hload : Alike (Beside base id) (x.load root) (x.load root) w w' := by
      refine (Alike.of_runOn hroot hroot' hbeside).bind fun found u u' hu hu' _ => ?_
      obtain ⟨houtcome, rfl⟩ := Prod.mk.inj (hroot.symm.trans hu)
      obtain ⟨-, rfl⟩ := Prod.mk.inj (hroot'.symm.trans hu')
      obtain rfl := Except.ok.inj houtcome
      exact hbeside.alike_loadProject hd hid _
    exact hload.1.symm
  · rw [runOn_build_eq, runOn_build_eq,
      (hbeside.alike_tryBuild hdiffers.hosts hroot hroot' hmerge force).1]

/-! ### Two roots beside each other, and two of one name -/

section

open ProjectChange

/-- A project, the directory of its index, and another root. -/
def withRoot (place : Place) : FileTree := oneFile.put place .directory

/-- A root beside the project, and one in it that goes by the same name. -/
def otherRoots : List Place := [["q"], ["p", "p"]]

/-- Nothing stood in the place of the other root. -/
lemma entry?_oneFile_eq_none (h : place ∈ otherRoots) : oneFile.entry? place = none := by
  simp only [otherRoots, List.mem_cons, List.not_mem_nil, or_false] at h
  rcases h with rfl | rfl <;> rfl

/-- What was there is there, and the other root is a directory. -/
lemma entry?_withRoot {q : Place} {e : FileEntry}
    (h : FileTree.entry? (withRoot place) q = some e) :
    e = .directory ∨ q = ["p", "a.c"] ∧ e = .file oneDefinition := by
  rw [withRoot, entry?_put] at h
  split_ifs at h
  · exact Or.inl (Option.some.inj h).symm
  · rcases entry?_addition (mem_addition .empty).1 h with hdir | hfile | ⟨rfl, -⟩
    · exact Or.inl hdir
    · exact Or.inr hfile
    · cases h

/-- The tree is well formed. -/
lemma wellFormed_withRoot (h : place ∈ otherRoots) : (withRoot place).WellFormed := by
  have hbefore := wellFormed_addition (mem_addition .empty).1
  have hbeside : WellFormed (FileTree.put _ ([] ++ ["q"]) .directory) :=
    hbefore.put .directory rfl rfl (by decide)
  have hinside : WellFormed (FileTree.put _ (["p"] ++ ["p"]) .directory) :=
    hbefore.put .directory rfl rfl (by decide)
  simp only [otherRoots, List.mem_cons, List.not_mem_nil, or_false] at h
  rcases h with rfl | rfl
  · exact hbeside
  · exact hinside

/-- There are no links. -/
lemma ne_link_withRoot (place q : Place) (target : String) :
    FileTree.entry? (withRoot place) q ≠ some (.link target) := by
  intro h
  rcases entry?_withRoot h with hdir | ⟨-, hfile⟩
  · cases hdir
  · cases hfile

/-- No ignore file is a link. -/
lemma plain_ignoreFiles_withRoot (place : Place) : (withRoot place).PlainIgnoreFiles :=
  fun _ _ _ _ _ _ _ _ target => ne_link_withRoot place _ target

/-- No project has an index yet. -/
lemma fileAt?_metadata_withRoot (place : Place) (id : String) :
    (withRoot place).fileAt? (placesIn ["i"] id).metadata = none := by
  cases hfile : (withRoot place).fileAt? (placesIn ["i"] id).metadata with
  | none => rfl
  | some content =>
    rcases entry?_withRoot (fileAt?_eq_some_iff.mp hfile) with hdir | ⟨hplace, -⟩
    · cases hdir
    · simp [placesIn] at hplace

/-- The index directory hosts projects. -/
lemma hosts_withRoot (place : Place) : smallIndexer.directory.Hosts ["i"] (withRoot place) where
  toIsAt := .of_path rfl (by decide)
  ne_link q _ := ne_link_withRoot place q
  own id _ content m hcontent := by
    rw [fileAt?_metadata_withRoot] at hcontent
    cases hcontent

/-- The other root is a directory, and all that was there is there. -/
lemma mem_withRoot (h : place ∈ otherRoots) :
    FileTree.entry? (withRoot place) place = some .directory ∧
      ∀ q e, oneFile.entry? q = some e → FileTree.entry? (withRoot place) q = some e := by
  have hne : place ≠ [] := by
    rintro rfl
    simp [otherRoots] at h
  refine ⟨entry?_put_self hne, fun q e hq => ?_⟩
  rw [withRoot, entry?_put_of_ne]
  · exact hq
  · rintro rfl
    rw [entry?_oneFile_eq_none h] at hq
    cases hq

/-- The roots are identified by their names. -/
lemma identify_withRoot (h : place ∈ otherRoots) :
    (identify "/p").runOn { files := withRoot place } =
        (.ok ("p", pathOf ["p"]), { files := withRoot place }) ∧
      (withRoot place).find? (pathOf place) = .ok (place, .directory) := by
  have hwf := wellFormed_withRoot h
  obtain ⟨hplace, hkept⟩ := mem_withRoot h
  exact ⟨identify_project hwf (hkept ["p"] .directory rfl), hwf.find?_pathOf hplace (by simp)⟩

/-- There is room for the index of the project. -/
lemma exists_acceptsIndex_withRoot (h : place ∈ otherRoots) (merged : MergedExtraction) :
    ∃ between, smallIndexer.directory.AcceptsIndex ["i"] (.ofMerged "p" (pathOf ["p"]) merged)
      (withRoot place) between := by
  have hadds : oneFile.AddsDocuments (withRoot place) :=
    AddsDocuments.put_directory (entry?_oneFile_eq_none h)
  have htakes : ∀ {names name}, oneFile.Takes (["i"] ++ names) name →
      (withRoot place).Takes (["i"] ++ names) name := by
    intro names name htakes
    refine ⟨hadds.reaches htakes.reaches, ?_, htakes.writable⟩
    rw [withRoot, entry?_put_of_ne]
    · exact htakes.entry
    · rintro rfl
      simp [otherRoots] at h
  have hhosts := hosts_withRoot place
  obtain ⟨-, hwf, hsymbols, hgraph, hmetadata⟩ := awaitsIndex_oneFile
  exact exists_acceptsIndex rfl hhosts.liesAt (htakes (hsymbols.takes hwf))
    (htakes (hgraph.takes hwf)) (htakes (hmetadata.takes hwf)) (hhosts.own "p" (by decide))

/-- The project can be built, and then it is loaded for every root of its name. -/
lemma exists_build_withRoot (h : place ∈ otherRoots) : ∃ files symbols callEdges origins w',
    (smallIndexer.build "/p" true : IndexAction BuildOutcome).runOn { files := withRoot place } =
      (.ok (.success "p" files symbols callEdges origins 0), w') ∧
    ∀ root canonical, (identify root).runOn { files := withRoot place } =
        (.ok ("p", canonical), { files := withRoot place }) →
      ∃ loaded, (smallIndexer.load root).runOn w' = (.ok (some loaded), w') := by
  have hadds : oneFile.AddsDocuments (withRoot place) :=
    AddsDocuments.put_directory (entry?_oneFile_eq_none h)
  obtain ⟨merged, hmerged⟩ := exists_merge_oneFile hadds
  obtain ⟨between, haccepts⟩ := exists_acceptsIndex_withRoot h merged
  have hreadable : ∀ content,
      (withRoot place).fileAt? (placesIn ["i"] "p").metadata = some content →
        ∃ m, content.description? = some m ∧ Path.IsPlainName m.projectId := by
    intro content hcontent
    rw [fileAt?_metadata_withRoot] at hcontent
    cases hcontent
  obtain ⟨w', hbuild, hthere, hsymbols, hgraph, hsame⟩ := exists_build (identify_withRoot h).1
    (hosts_withRoot place).liesAt hmerged haccepts hreadable rfl rfl
  refine ⟨_, _, _, _, w', hbuild, fun root canonical hfound => ?_⟩
  obtain ⟨-, hcanonical, -, hidentify⟩ := identify_cases hfound
  obtain ⟨loaded, hload, -⟩ := exists_load (p := placesIn ["i"] "p")
    (ProjectIndex.sound_ofMerged "p" (pathOf ["p"]) merged)
    (hidentify w' (hsame root canonical hcanonical)) hthere hsymbols hgraph
  exact ⟨loaded, hload⟩

/-- A build of the project does not show in the answers about the root beside it. -/
theorem answers_eq_besideRoot : ∃ files symbols callEdges origins w',
    (smallIndexer.build "/p" true : IndexAction BuildOutcome).runOn { files := withRoot ["q"] } =
      (.ok (.success "p" files symbols callEdges origins 0), w') ∧
    ((smallIndexer.load "/q").runOn w').1 =
      ((smallIndexer.load "/q").runOn { files := withRoot ["q"] }).1 ∧
    (∀ force, ((smallIndexer.build "/q" force : IndexAction BuildOutcome).runOn w').1 =
      ((smallIndexer.build "/q" force : IndexAction BuildOutcome).runOn
        { files := withRoot ["q"] }).1) ∧
    ((smallIndexer.directory.get? "q").runOn w'.files).1 =
      ((smallIndexer.directory.get? "q").runOn (withRoot ["q"])).1 := by
  have hroots : ["q"] ∈ otherRoots := by decide
  obtain ⟨hproject, hfind⟩ := identify_withRoot hroots
  obtain ⟨files, symbols, callEdges, origins, w', hbuild, -⟩ := exists_build_withRoot hroots
  have hother : ∀ found, (identify "/p").runOn { files := withRoot ["q"] } =
      (.ok found, { files := withRoot ["q"] }) → found.1 ≠ "q" := by
    intro found hfound
    obtain rfl := Except.ok.inj (Prod.mk.inj (hproject.symm.trans hfound)).1
    decide
  have hworked : WorkedBeside smallIndexer.directory ["i"] "q" { files := withRoot ["q"] } w' :=
    .build (.start (hosts_withRoot ["q"])) rfl hother hbuild
  have hpath : pathOf ["q"] = "/q" := by decide
  rw [hpath] at hfind
  exact ⟨files, symbols, callEdges, origins, w', hbuild,
    answers_eq_of_workedBeside hworked (wellFormed_withRoot hroots)
      (plain_ignoreFiles_withRoot ["q"]) (runOn_identify (w := { files := withRoot ["q"] }) hfind)
      hfind (Or.inl (by decide))⟩

/-- A build shows in what is loaded for another root if both have the same name. -/
theorem not_answers_eq_of_ne_root :
    ¬∀ (x : Indexer) (w w' : Workspace) (base place : Place)
      (first second id id' canonical canonical' : String)
      (outcome : Except IndexError BuildOutcome),
      x.directory.Hosts base w.files → w.files.WellFormed → w.files.PlainIgnoreFiles →
      (∀ ext ∈ x.settings.indexing.extensions, Text.lowerAscii ext ≠ "json") →
      (identify first).runOn w = (.ok (id, canonical), w) →
      (identify second).runOn w = (.ok (id', canonical'), w) → canonical ≠ canonical' →
      w.files.find? second = .ok (place, .directory) →
      (x.build first true).runOn w = (outcome, w') →
      ((x.load second).runOn w').1 = ((x.load second).runOn w).1 := by
  intro hclaim
  have hroots : ["p", "p"] ∈ otherRoots := by decide
  obtain ⟨hproject, hfind⟩ := identify_withRoot hroots
  have hinside := runOn_identify (w := { files := withRoot ["p", "p"] }) hfind
  obtain ⟨files, symbols, callEdges, origins, w', hbuild, hloads⟩ := exists_build_withRoot hroots
  obtain ⟨loaded, hload⟩ := hloads _ _ hinside
  have hsame := hclaim smallIndexer { files := withRoot ["p", "p"] } w' ["i"] ["p", "p"] "/p" _ "p"
    _ _ _ _ (hosts_withRoot _) (wellFormed_withRoot hroots) (plain_ignoreFiles_withRoot _)
    (by decide) hproject hinside (by decide) hfind hbuild
  -- There was no index before.
  have hnothing : (smallIndexer.load (pathOf ["p", "p"])).runOn { files := withRoot ["p", "p"] } =
      (.ok none, { files := withRoot ["p", "p"] }) := by
    unfold load
    refine (runOn_bind_of_ok hinside).trans (runOn_loadProject_of_not_isFile ?_ _)
    have hplain : Path.IsPlainName "p" := by decide
    exact (hosts_withRoot ["p", "p"]).liesAt.isFile_metadataPath hplain rfl
  rw [hload, hnothing] at hsame
  cases Except.ok.inj hsame

end

end Indexer

end CodeAtlas
