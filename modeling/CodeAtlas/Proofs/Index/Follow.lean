import CodeAtlas.Proofs.Index.Tracking

/-!
# A live index follows its project

The files of a project change, the changes are reported in any order and any spelling, and the live
index processes them batch by batch until nothing is pending.  Does it then show what a full build
of the changed files shows?

The answer is yes if the walk agrees with the reports, and without the help of a rebuild only then
(`ProjectChange.live_eq_rebuilt_iff`).  It need not agree: reports are taken up by extension and
hidden names alone, while the walk also obeys ignore patterns and ignore files and a limit of size.
So a file that is too large for the walk stays out of every full build, but once it is reported it
is in the live index (`live_ne_rebuilt_of_largeFile`).
-/

namespace CodeAtlas

open CodeAtlas.Action FileTree

namespace ProjectChange

variable {p : ProjectChange} {x : Indexer} {s : LiveWorkspace} {live : SourceFiles} {t : FileTree}
  {names : List String}

/-! ### Live and rebuilt index -/

section

variable {projectId : String} {built index rebuilt : ProjectIndex} {w w' : Workspace}
  {reports : List (Change × Nat)}

/-- An index that is built afterwards says what the walk sees then. -/
lemma Regular.indexes_rebuilt (hp : p.Regular x) (hw : w.files = p.after)
    (hrebuilt : (x.rebuild projectId (pathOf p.root)).runOn w = (.ok rebuilt, w')) :
    rebuilt.Indexes (x.sourceFiles p.after p.root) := by
  rw [← hw]
  exact (Indexer.indexes_of_rebuild hrebuilt (hw ▸ hp.readable_after) hp.sources_eq_nil
    (hw ▸ hp.wellFormed_sourceFiles_after)).1

/-- A live index of what was built before tracks the project when all changes of source files were
reported to it. -/
lemma Regular.tracks_queueAll (hp : p.Regular x) (hw : w.files = p.before)
    (hbuilt : (x.rebuild projectId (pathOf p.root)).runOn w = (.ok built, w'))
    (hindex : index = built ∨
      index = .ofSnapshot projectId (pathOf p.root) built.snapshot built.graph)
    (hreports : ∀ r ∈ reports, ∃ names, p.Reports (p.absolute r.1) names)
    (hall : ∀ names, p.IsChanged names →
      x.settings.indexing.accepts (pathOf (p.root ++ names)) = true →
      ∃ r ∈ reports, p.Reports (p.absolute r.1) names)
    {now : Workspace} (hnow : now.files = p.after) :
    p.Tracks x ⟨queueAll x (.ofIndex x.settings.watch index) reports, now⟩
      (x.sourceFiles p.before p.root) := by
  obtain ⟨hindexes, -, hroot⟩ := Indexer.indexes_of_rebuild hbuilt (hw ▸ hp.readable_before)
    hp.sources_eq_nil (hw ▸ hp.wellFormed_sourceFiles_before)
  rw [hw] at hindexes
  have hindex' : index.Indexes (x.sourceFiles p.before p.root) ∧ index.root = pathOf p.root := by
    rcases hindex with rfl | rfl
    · exact ⟨hindexes, hroot⟩
    · exact ⟨hindexes.ofSnapshot hp.wellFormed_sourceFiles_before _ _, rfl⟩
  have hqueued := queued_queueAll hp (l := .ofIndex x.settings.watch index) hindex'.2
    (ChangeQueue.entries_ofWindow _) reports hreports
  refine ⟨hnow ▸ AddsDocuments.refl p.after, ?_, ?_, ?_, hqueued.pending, fun file => ?_⟩
  · exact (congrArg ProjectIndex.root hqueued.index).trans hindex'.2
  · change 0 < (queueAll x (.ofIndex x.settings.watch index) reports).batchSize
    rw [hqueued.batchSize]
    exact Nat.lt_of_lt_of_le Nat.zero_lt_one (Nat.le_max_right _ 1)
  · change (queueAll x (.ofIndex x.settings.watch index) reports).index.Indexes _
    rw [hqueued.index]
    exact hindex'.1
  · by_cases hwatched : p.IsChanged (Path.pieces file) ∧ p.watches x (Path.pieces file) = true
    · obtain ⟨r, hr, hnames⟩ := hall _ hwatched.1 (Bool.and_eq_true _ _ ▸ hwatched.2).1
      obtain ⟨e, he, he'⟩ := hqueued.reported _ ⟨hwatched.2, r, hr, hnames⟩
      exact Or.inr ⟨rfl, e, he, _, he', Path.intercalate_pieces file⟩
    · left
      rw [followed, if_neg hwatched]

/-- An index that holds everything as in the end shows the files that a full build shows only if the
walk agrees with the reports. -/
lemma Regular.walkFollows_of_files_eq (hp : p.Regular x) (hapart : p.UnwatchedApart x)
    (hindex : index.Indexes live) (hlive : ∀ file : String, live[file]? = p.followed x file)
    (hrebuilt : rebuilt.Indexes (x.sourceFiles p.after p.root))
    (hfiles : index.snapshot.files = rebuilt.snapshot.files) : p.WalkFollows x := by
  refine hp.walkFollows_of_isSome_iff hapart fun file => ?_
  have hmem : file ∈ index.files ↔ file ∈ rebuilt.files := by
    rw [← Std.ExtTreeSet.mem_toList, ← Std.ExtTreeSet.mem_toList]
    exact iff_of_eq (congrArg (file ∈ ·) hfiles)
  rw [hindex.mem_files, hrebuilt.mem_files, Std.ExtTreeMap.mem_iff_isSome_getElem?,
    Std.ExtTreeMap.mem_iff_isSome_getElem?, hlive] at hmem
  exact hmem

/-- A project is built, some of its files change, every change of a source file is reported to a
live index of what was built, in any order, spelling and number, and all reports are processed.  If
the walk agrees with the reports, the live index shows what a full build of the changed files shows:
the same symbols, calls and files, and the same graph.  Without the help of a rebuild, and if no
unwatched file is listed before and after its change, it shows that only then. -/
theorem live_eq_rebuilt_iff (hp : p.Regular x) {w₀ w₀' w₁ w₁' : Workspace}
    (hw₀ : w₀.files = p.before)
    (hbuilt : (x.rebuild projectId (pathOf p.root)).runOn w₀ = (.ok built, w₀'))
    (hindex : index = built ∨
      index = .ofSnapshot projectId (pathOf p.root) built.snapshot built.graph)
    (hreports : ∀ r ∈ reports, ∃ names, p.Reports (p.absolute r.1) names)
    (hall : ∀ names, p.IsChanged names →
      x.settings.indexing.accepts (pathOf (p.root ++ names)) = true →
      ∃ r ∈ reports, p.Reports (p.absolute r.1) names)
    (hw : w.files = p.after)
    (hrun : x.Drains ⟨queueAll x (.ofIndex x.settings.watch index) reports, w⟩ s)
    (hw₁ : w₁.files = p.after)
    (hrebuilt : (x.rebuild projectId (pathOf p.root)).runOn w₁ = (.ok rebuilt, w₁')) :
    (p.WalkFollows x →
      s.live.index.snapshot = rebuilt.snapshot ∧ s.live.index.graph = rebuilt.graph) ∧
    (s.live.fullRebuilds = 0 → p.UnwatchedApart x →
      (s.live.index.snapshot = rebuilt.snapshot ∧ s.live.index.graph = rebuilt.graph ↔
        p.WalkFollows x)) := by
  have htracks := hp.tracks_queueAll hw₀ hbuilt hindex hreports hall hw
  have hrebuilt' := hp.indexes_rebuilt hw₁ hrebuilt
  have hagrees : p.WalkFollows x →
      s.live.index.snapshot = rebuilt.snapshot ∧ s.live.index.graph = rebuilt.graph := by
    intro hfollows
    obtain ⟨live, hlive, hheld⟩ := exists_indexes_of_drains hp hrun htracks (Or.inl hfollows)
    have hsame : live = x.sourceFiles p.after p.root :=
      Std.ExtTreeMap.ext_getElem? fun file => (hheld file).trans (hp.followed_eq hfollows file)
    rw [hsame] at hlive
    exact ⟨hlive.snapshot_eq hrebuilt', hlive.graph_eq hrebuilt'⟩
  refine ⟨hagrees, fun hnone hapart => ⟨fun hsame => ?_, hagrees⟩⟩
  have hstart := fullRebuilds_queueAll x (.ofIndex x.settings.watch index) reports
  obtain ⟨live, hlive, hheld⟩ := exists_indexes_of_drains hp hrun htracks
    (Or.inr (hnone.trans hstart.symm))
  exact hp.walkFollows_of_files_eq hapart hlive hheld hrebuilt'
    (congrArg Snapshot.files hsame.1)

end

/-! ### A file that is added -/

section

/-- A source file that defines one name. -/
def oneDefinition : FileContent where
  bytes := .empty
  tree := some ⟨"preproc_def", true, none, ⟨0, 0⟩, 0,
    [⟨"identifier", true, some "name", ⟨0, 0⟩, 0, []⟩]⟩

/-- A source file that defines nothing. -/
def blankFile (bytes : ByteArray) : FileContent where
  bytes := bytes
  tree := some ⟨"translation_unit", true, none, ⟨0, 0⟩, 0, []⟩

/-- A project with one source file, beside the directory of its index. -/
def oneFile : FileTree :=
  FileTree.empty.put ["i"] .directory
    |>.put ["i", "meta"] .directory
    |>.put ["i", "projects"] .directory
    |>.put ["i", "projects", "p"] .directory
    |>.put ["p"] .directory
    |>.put ["p", "a.c"] (.file oneDefinition)

/-- A blank file is added to the project. -/
def addition (bytes : ByteArray) : ProjectChange where
  root := ["p"]
  before := oneFile
  after := oneFile.put ["p", "b.c"] (.file (blankFile bytes))

/-- The report of the addition. -/
def additionReport : Change := ⟨"/p/b.c", .created⟩

/-- An indexer of files of at most one byte. -/
def smallIndexer : Indexer where
  settings :=
    { indexPath := "/i"
      indexing :=
        { parallelThreads := 1, extensions := ["c"], ignorePatterns := [], maxFileSize := 1 }
      watch := { debounceMs := 0 } }

variable {bytes : ByteArray} {place : Place} {e : FileEntry}

/-- The project is there before and after the addition. -/
lemma mem_addition (bytes : ByteArray) :
    (addition bytes).before ∈ [(addition bytes).before, (addition bytes).after] ∧
      (addition bytes).after ∈ [(addition bytes).before, (addition bytes).after] :=
  ⟨List.mem_cons_self, List.mem_cons_of_mem _ List.mem_cons_self⟩

/-- What stands in the project before or after the addition. -/
lemma entry?_addition (ht : t ∈ [(addition bytes).before, (addition bytes).after])
    (h : t.entry? place = some e) :
    e = .directory ∨ (place = ["p", "a.c"] ∧ e = .file oneDefinition) ∨
      place = ["p", "b.c"] ∧ e = .file (blankFile bytes) := by
  have hafter : (addition bytes).after.entry? place = some e := by
    simp only [List.mem_cons, List.not_mem_nil, or_false] at ht
    rcases ht with rfl | rfl
    · have hne : place ≠ ["p", "b.c"] := by
        rintro rfl
        cases h
      have hput : (addition bytes).after.entry? place = (addition bytes).before.entry? place :=
        entry?_put_of_ne _ hne
      exact hput.trans h
    · exact h
  unfold entry? at hafter
  split_ifs at hafter with hroot
  · exact Or.inl (Option.some.inj hafter).symm
  · simp only [addition, oneFile, put, Std.ExtTreeMap.getElem?_insert,
      Std.LawfulEqCmp.compare_eq_iff_eq] at hafter
    split_ifs at hafter with hb ha
    · exact Or.inr (Or.inr ⟨hb.symm, (Option.some.inj hafter).symm⟩)
    · exact Or.inr (Or.inl ⟨ha.symm, (Option.some.inj hafter).symm⟩)
    all_goals first
      | exact Or.inl (Option.some.inj hafter).symm
      | simp [FileTree.empty] at hafter

/-- The trees of the project are well formed. -/
lemma wellFormed_addition (ht : t ∈ [(addition bytes).before, (addition bytes).after]) :
    t.WellFormed := by
  have h₁ : WellFormed (FileTree.empty.put ([] ++ ["i"]) .directory) :=
    wellFormed_empty.put .directory rfl rfl (by decide)
  have h₂ : WellFormed (FileTree.put _ (["i"] ++ ["meta"]) .directory) :=
    h₁.put .directory rfl rfl (by decide)
  have h₃ : WellFormed (FileTree.put _ (["i"] ++ ["projects"]) .directory) :=
    h₂.put .directory rfl rfl (by decide)
  have h₄ : WellFormed (FileTree.put _ (["i", "projects"] ++ ["p"]) .directory) :=
    h₃.put .directory rfl rfl (by decide)
  have h₅ : WellFormed (FileTree.put _ ([] ++ ["p"]) .directory) :=
    h₄.put .directory rfl rfl (by decide)
  have hbefore : WellFormed (FileTree.put _ (["p"] ++ ["a.c"]) (.file oneDefinition)) :=
    h₅.put _ rfl rfl (by decide)
  have hafter : WellFormed (FileTree.put _ (["p"] ++ ["b.c"]) (.file (blankFile bytes))) :=
    hbefore.put _ rfl rfl (by decide)
  simp only [List.mem_cons, List.not_mem_nil, or_false] at ht
  rcases ht with rfl | rfl
  · exact hbefore
  · exact hafter

/-- There are no links. -/
lemma plain_ignoreFiles_addition (ht : t ∈ [(addition bytes).before, (addition bytes).after]) :
    t.PlainIgnoreFiles := by
  intro directory _ names _ above below _ _ target htarget
  rcases entry?_addition ht htarget with h | ⟨-, h⟩ | ⟨-, h⟩ <;> cases h

/-- There are no ignore files. -/
lemma directoryRules_addition (ht : t ∈ [(addition bytes).before, (addition bytes).after])
    {directory : Place} (hdir : t.entry? directory = some .directory) :
    t.directoryRules directory = {} := by
  refine directoryRules_eq_empty (wellFormed_addition ht) (plain_ignoreFiles_addition ht) hdir
    fun names hnames => ?_
  have hlast : ∀ names ∈ ignoreFileNames,
      names ≠ [] ∧ names.getLast? ≠ some "a.c" ∧ names.getLast? ≠ some "b.c" := by decide
  obtain ⟨hne, ha, hb⟩ := hlast names hnames
  cases hfile : t.fileAt? (directory ++ names) with
  | none => rfl
  | some content =>
    have hname := List.getLast?_append_of_ne_nil directory hne
    rcases entry?_addition ht (fileAt?_eq_some_iff.mp hfile) with h | ⟨h, -⟩ | ⟨h, -⟩
    · cases h
    · rw [h] at hname
      exact absurd hname.symm ha
    · rw [h] at hname
      exact absurd hname.symm hb

/-- A file of the project that is small enough is listed. -/
lemma listed_addition (ht : t ∈ [(addition bytes).before, (addition bytes).after]) {name : String}
    {content : FileContent} (hname : name ∈ ["a.c", "b.c"])
    (hfile : t.entry? ["p", name] = some (.file content)) (hsize : content.bytes.size ≤ 1) :
    t.Listed smallIndexer.settings.indexing ["p"] [name] content := by
  have hnames : ∀ name ∈ ["a.c", "b.c"], WalkRules.isHiddenName name = false ∧
      smallIndexer.settings.indexing.accepts
        (Path.join (pathOf ["p"]) ("/".intercalate [name])) = true := by decide
  have hwf := wellFormed_addition ht
  have hroot := hwf.reaches hfile ["p"] [name] rfl (by simp)
  refine ⟨hfile, ?_, WalkRules.keeps_of_no_rules rfl (fun d rules hrules => ?_) fun n hn => ?_⟩
  · rw [isIndexed, (hnames name hname).2, Bool.true_and]
    exact decide_eq_true hsize
  · obtain ⟨hdir, rfl⟩ := eq_of_getElem?_directories (hwf.reaches hroot) hroot hrules
    exact directoryRules_addition ht hdir
  · exact List.mem_singleton.mp hn ▸ (hnames name hname).1

/-- The one symbol of the project is in its first file. -/
lemma versions_addition {v : String × Extraction}
    (hv : v ∈ (addition bytes).versions smallIndexer) :
    (v.1 = "a.c" ∧ v.2.symbols.length = 1) ∨ v.2.symbols = [] := by
  obtain ⟨t, ht, names, content, hfile, -, rfl⟩ := hv
  rcases entry?_addition ht (fileAt?_eq_some_iff.mp hfile) with h | ⟨hplace, h⟩ | ⟨hplace, h⟩
  · cases h
  · obtain rfl : names = ["a.c"] := List.append_cancel_left hplace
    obtain rfl := FileEntry.file.inj h
    exact Or.inl ⟨rfl, rfl⟩
  · obtain rfl : names = ["b.c"] := List.append_cancel_left hplace
    obtain rfl := FileEntry.file.inj h
    exact Or.inr rfl

/-- The addition is as regular as an indexer needs it. -/
lemma regular_addition (bytes : ByteArray) : (addition bytes).Regular smallIndexer where
  sources_eq_nil := rfl
  ne_json := by decide
  wellFormed_before := wellFormed_addition (mem_addition bytes).1
  wellFormed_after := wellFormed_addition (mem_addition bytes).2
  root_before := rfl
  root_after := rfl
  same_rules d hd hd' := (directoryRules_addition (mem_addition bytes).1 hd).trans
    (directoryRules_addition (mem_addition bytes).2 hd').symm
  plain_ignoreFiles := plain_ignoreFiles_addition (mem_addition bytes).2
  nodup_ids v hv := by
    rcases versions_addition hv with ⟨-, hone⟩ | hnil
    · obtain ⟨s, hs⟩ := List.length_eq_one_iff.mp hone
      simp [hs]
    · simp [hnil]
  id_ne v hv v' hv' hne s hs s' hs' := by
    rcases versions_addition hv with ⟨hfile, -⟩ | hnil
    · rcases versions_addition hv' with ⟨hfile', -⟩ | hnil'
      · exact absurd (hfile.trans hfile'.symm) hne
      · rw [hnil'] at hs'
        cases hs'
    · rw [hnil] at hs
      cases hs

/-- The added file is all that changed. -/
lemma isChanged_addition : (addition bytes).IsChanged names ↔ names = ["b.c"] := by
  constructor
  · intro hchanged
    by_contra hne
    have hother : ["p"] ++ names ≠ ["p", "b.c"] := fun h => hne (List.append_cancel_left h)
    have hsame : (addition bytes).after.entry? ((addition bytes).root ++ names) =
        (addition bytes).before.entry? ((addition bytes).root ++ names) :=
      entry?_put_of_ne _ hother
    exact hchanged (by rw [fileAt?, fileAt?, hsame])
  · rintro rfl hsame
    cases hsame

/-- The path of the report is that of the added file. -/
lemma path_additionReport (bytes : ByteArray) :
    ((addition bytes).absolute additionReport).path = pathOf ["p", "b.c"] := by
  have habsolute : ((addition bytes).absolute additionReport).path = additionReport.path := rfl
  have hpath : additionReport.path = pathOf ["p", "b.c"] := by decide
  exact habsolute.trans hpath

/-- The report is one of what changed, and it leads to the file. -/
lemma reports_addition (bytes : ByteArray) :
    (addition bytes).Reports ((addition bytes).absolute additionReport) ["b.c"] where
  changed := isChanged_addition.mpr rfl
  kind := rfl
  spelled := congrArg Path.components (path_additionReport bytes)
  leads _ := by
    have hwf := wellFormed_addition (mem_addition bytes).2
    have hentry : (addition bytes).after.entry? ["p", "b.c"] = some (.file (blankFile bytes)) := rfl
    rw [path_additionReport]
    exact locate_pathOf (hwf.writable _ _ hentry) (hwf.reaches hentry) (by simp [hentry])

/-- Nothing else is reported, and nothing is left out. -/
lemma mem_reports_addition (bytes : ByteArray) :
    (∀ r ∈ [(additionReport, 0)], ∃ names,
      (addition bytes).Reports ((addition bytes).absolute r.1) names) ∧
    ∀ names, (addition bytes).IsChanged names →
      ∃ r ∈ [(additionReport, 0)],
        (addition bytes).Reports ((addition bytes).absolute r.1) names := by
  refine ⟨fun r hr => ?_, fun names hchanged => ?_⟩
  · obtain rfl := List.mem_singleton.mp hr
    exact ⟨["b.c"], reports_addition bytes⟩
  · obtain rfl := isChanged_addition.mp hchanged
    exact ⟨_, List.mem_singleton_self _, reports_addition bytes⟩

/-- The report is taken up. -/
lemma watches_addition (bytes : ByteArray) :
    (addition bytes).watches smallIndexer ["b.c"] = true := by
  have hwatched : (smallIndexer.settings.indexing.accepts (pathOf ["p", "b.c"]) &&
      !Path.isHiddenBelow (pathOf ["p"]) (pathOf ["p", "b.c"])) = true := by decide
  exact hwatched

/-- The walk agrees with the report exactly if the added file is small enough. -/
lemma walkFollows_addition_iff :
    (addition bytes).WalkFollows smallIndexer ↔ bytes.size ≤ 1 := by
  have hentry : (addition bytes).after.entry? ["p", "b.c"] = some (.file (blankFile bytes)) := rfl
  constructor
  · intro hfollows
    have hlisted := (hfollows ["b.c"] (isChanged_addition.mpr rfl)).1 (watches_addition bytes)
      (blankFile bytes) (fileAt?_eq_some_iff.mpr hentry)
    exact of_decide_eq_true (Bool.and_eq_true _ _ ▸ hlisted.indexed).2
  · intro hsize names hchanged
    obtain rfl := isChanged_addition.mp hchanged
    refine ⟨fun _ content hcontent => ?_, fun hnot => ?_⟩
    · obtain rfl : blankFile bytes = content :=
        FileEntry.file.inj (Option.some.inj (fileAt?_eq_some_iff.mp hcontent))
      exact listed_addition (mem_addition bytes).2 (by decide) hentry hsize
    · rw [watches_addition] at hnot
      cases hnot

/-- There is room for the index of the project. -/
lemma awaitsIndex_addition (ht : t ∈ [(addition bytes).before, (addition bytes).after]) :
    smallIndexer.directory.AwaitsIndex t ["i"] "p" := by
  have hwf := wellFormed_addition ht
  simp only [List.mem_cons, List.not_mem_nil, or_false] at ht
  rcases ht with rfl | rfl
  · exact ⟨rfl, hwf, ⟨rfl, rfl, by decide⟩, ⟨rfl, rfl, by decide⟩, ⟨rfl, rfl, by decide⟩⟩
  · exact ⟨rfl, hwf, ⟨rfl, rfl, by decide⟩, ⟨rfl, rfl, by decide⟩, ⟨rfl, rfl, by decide⟩⟩

/-- The project can be built before and after the addition. -/
lemma exists_rebuild_addition (ht : t ∈ [(addition bytes).before, (addition bytes).after]) :
    ∃ built w, (smallIndexer.rebuild "p" (pathOf ["p"])).runOn { files := t } = (.ok built, w) := by
  have hfile : t.entry? ["p", "a.c"] = some (.file oneDefinition) := by
    simp only [List.mem_cons, List.not_mem_nil, or_false] at ht
    rcases ht with rfl | rfl <;> rfl
  have hwf := wellFormed_addition ht
  have hroot := hwf.reaches hfile ["p"] ["a.c"] rfl (by simp)
  obtain ⟨merged, hmerged⟩ : ∃ merged, t.merge smallIndexer.measurer smallIndexer.sources "p"
      (pathOf ["p"]) (t.walk smallIndexer.settings.indexing (pathOf ["p"])) = .ok merged :=
    Indexer.exists_merge (hwf.readableSources hroot)
      (listed_addition ht (by decide) hfile (by decide)) rfl (by decide)
  obtain ⟨w, hw⟩ := smallIndexer.exists_rebuild (w := { files := t }) hmerged (fun _ => rfl)
    (awaitsIndex_addition ht)
  exact ⟨_, w, hw⟩

/-- The report is processed in one batch. -/
lemma exists_drains_addition (bytes : ByteArray) {built : ProjectIndex}
    (hid : built.projectId = "p") (hroot : built.root = pathOf ["p"]) :
    ∃ s, smallIndexer.Drains
        ⟨queueAll smallIndexer (.ofIndex smallIndexer.settings.watch built) [(additionReport, 0)],
          { files := (addition bytes).after }⟩ s ∧ s.live.fullRebuilds = 0 := by
  have hentry : (addition bytes).after.entry? ["p", "b.c"] = some (.file (blankFile bytes)) := rfl
  have hwf := wellFormed_addition (mem_addition bytes).2
  have hqueue : queueAll smallIndexer (.ofIndex smallIndexer.settings.watch built)
      [(additionReport, 0)] =
        (LiveIndex.ofIndex smallIndexer.settings.watch built).record additionReport 0 := by
    have habsolute : (LiveIndex.ofIndex smallIndexer.settings.watch built).absolute
        additionReport.path = additionReport.path := rfl
    have haccepts : (LiveIndex.ofIndex smallIndexer.settings.watch built).accepts
        smallIndexer.settings.indexing additionReport.path = true := by
      rw [LiveIndex.accepts, LiveIndex.ofIndex, hroot]
      decide
    rw [queueAll, List.foldl_cons, List.foldl_nil, LiveIndex.queueChange]
    simp only [habsolute, haccepts, if_true]
  obtain ⟨u, hu⟩ : ∃ u, smallIndexer.updateOf (addition bytes).after (pathOf ["p"])
      additionReport = .ok u := by
    have hpath : additionReport.path = pathOf ["p", "b.c"] := by decide
    unfold Indexer.updateOf
    rw [hpath]
    simp only [hwf.isFile_pathOf hentry, extractFile, hwf.read_pathOf hentry]
    exact ⟨_, rfl⟩
  have hupdates : [additionReport].mapM
      (smallIndexer.updateOf (addition bytes).after (pathOf ["p"])) = .ok [u] := by
    rw [List.mapM_cons, hu]
    rfl
  have hbatch : ∃ between, (smallIndexer.applyBatch [additionReport]).runOn (Indexer.withoutBatch
      ⟨(LiveIndex.ofIndex smallIndexer.settings.watch built).record additionReport 0,
        { files := (addition bytes).after }⟩) = (.ok (), between) :=
    Indexer.exists_applyBatch (hroot ▸ hupdates) (fun _ => rfl)
      (hid ▸ awaitsIndex_addition (mem_addition bytes).2)
  have hentries : ((LiveIndex.ofIndex smallIndexer.settings.watch built).record
      additionReport 0).queue.entries = [⟨additionReport, 0, 0⟩] :=
    ChangeQueue.entries_record_ofWindow 0 additionReport.path additionReport.kind 0
  rw [hqueue]
  refine Indexer.exists_drains (fun e _ => decide_eq_true (Nat.zero_le _)) ?_ ?_ ?_
  · exact Nat.lt_of_lt_of_le Nat.zero_lt_one (Nat.le_max_right _ 1)
  · rw [hentries]
    exact Nat.le_max_right _ 1
  · rw [hentries]
    exact hbatch

/-- A small file that is added is in the live index as it is in a full build. -/
theorem live_eq_rebuilt_of_smallFile :
    ∃ (built rebuilt : ProjectIndex) (s : LiveWorkspace) (w₀ w₁ : Workspace),
      (smallIndexer.rebuild "p" (pathOf ["p"])).runOn { files := (addition .empty).before } =
        (.ok built, w₀) ∧
      smallIndexer.Drains
        ⟨queueAll smallIndexer (.ofIndex smallIndexer.settings.watch built) [(additionReport, 0)],
          { files := (addition .empty).after }⟩ s ∧
      (smallIndexer.rebuild "p" (pathOf ["p"])).runOn { files := (addition .empty).after } =
        (.ok rebuilt, w₁) ∧
      s.live.index.snapshot = rebuilt.snapshot ∧ s.live.index.graph = rebuilt.graph := by
  have hp := regular_addition .empty
  obtain ⟨built, w₀, hbuilt⟩ := exists_rebuild_addition (mem_addition .empty).1
  obtain ⟨rebuilt, w₁, hrebuilt⟩ := exists_rebuild_addition (mem_addition .empty).2
  obtain ⟨-, hid, hroot⟩ := Indexer.indexes_of_rebuild hbuilt hp.readable_before rfl
    hp.wellFormed_sourceFiles_before
  obtain ⟨s, hrun, -⟩ := exists_drains_addition .empty hid hroot
  obtain ⟨hreports, hall⟩ := mem_reports_addition .empty
  refine ⟨built, rebuilt, s, w₀, w₁, hbuilt, hrun, hrebuilt, ?_⟩
  exact (live_eq_rebuilt_iff hp rfl hbuilt (Or.inl rfl) hreports (fun names h _ => hall names h) rfl
    hrun rfl hrebuilt).1 (walkFollows_addition_iff.mpr (by decide))

/-- A file that is too large for the walk is in the live index once it was reported, and in no full
build. -/
theorem live_ne_rebuilt_of_largeFile :
    ¬∀ (p : ProjectChange) (x : Indexer) (projectId : String) (built rebuilt : ProjectIndex)
      (s : LiveWorkspace) (w₀ w₀' w w₁ w₁' : Workspace) (reports : List (Change × Nat)),
      p.Regular x → w₀.files = p.before →
      (x.rebuild projectId (pathOf p.root)).runOn w₀ = (.ok built, w₀') →
      (∀ r ∈ reports, ∃ names, p.Reports (p.absolute r.1) names) →
      (∀ names, p.IsChanged names →
        x.settings.indexing.accepts (pathOf (p.root ++ names)) = true →
        ∃ r ∈ reports, p.Reports (p.absolute r.1) names) →
      w.files = p.after →
      x.Drains ⟨queueAll x (.ofIndex x.settings.watch built) reports, w⟩ s →
      w₁.files = p.after →
      (x.rebuild projectId (pathOf p.root)).runOn w₁ = (.ok rebuilt, w₁') →
      s.live.index.snapshot = rebuilt.snapshot ∧ s.live.index.graph = rebuilt.graph := by
  intro hclaim
  have hp := regular_addition ⟨#[32, 32]⟩
  obtain ⟨built, w₀, hbuilt⟩ := exists_rebuild_addition (mem_addition ⟨#[32, 32]⟩).1
  obtain ⟨rebuilt, w₁, hrebuilt⟩ := exists_rebuild_addition (mem_addition ⟨#[32, 32]⟩).2
  obtain ⟨-, hid, hroot⟩ := Indexer.indexes_of_rebuild hbuilt hp.readable_before rfl
    hp.wellFormed_sourceFiles_before
  obtain ⟨s, hrun, hnone⟩ := exists_drains_addition ⟨#[32, 32]⟩ hid hroot
  obtain ⟨hreports, hall⟩ := mem_reports_addition ⟨#[32, 32]⟩
  have hnow : Workspace.files { files := (addition ⟨#[32, 32]⟩).after } =
      (addition ⟨#[32, 32]⟩).after := rfl
  have hsame := hclaim _ _ _ _ _ _ _ _ _ _ _ _ hp rfl hbuilt hreports
    (fun names h _ => hall names h) hnow hrun hnow hrebuilt
  -- No rebuild came to the help of the live index, so it holds the large file.
  have htracks :=
    hp.tracks_queueAll rfl hbuilt (Or.inl rfl) hreports (fun names h _ => hall names h)
    hnow
  have hstart := fullRebuilds_queueAll smallIndexer (.ofIndex smallIndexer.settings.watch built)
    [(additionReport, 0)]
  obtain ⟨live, hlive, hheld⟩ := exists_indexes_of_drains hp hrun htracks
    (Or.inr (hnone.trans hstart.symm))
  have hapart : (addition ⟨#[32, 32]⟩).UnwatchedApart smallIndexer := by
    intro names _ _ hchanged hnot
    rw [isChanged_addition.mp hchanged, watches_addition] at hnot
    cases hnot
  have hfollows := hp.walkFollows_of_files_eq hapart hlive hheld
    (hp.indexes_rebuilt hnow hrebuilt) (congrArg Snapshot.files hsame.1)
  exact absurd (walkFollows_addition_iff.mp hfollows) (by decide)

end

end ProjectChange

end CodeAtlas
