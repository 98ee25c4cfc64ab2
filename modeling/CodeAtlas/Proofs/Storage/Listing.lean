import CodeAtlas.Proofs.Files.Listing
import CodeAtlas.Proofs.Storage.Beside
import CodeAtlas.Proofs.Text.Search

/-!
# What is listed of an index directory

The projects of an index directory are found by the names in its two directories.  A data directory
has the name of its project.  The document of a description has the ending `.json` besides, and all
copies of the ending are taken off, so a project is found by its description exactly if its
identifier does not end in `.json` itself (`exists_runOn_metadataIds_of_not`,
`exists_runOn_metadataIds_notMem`).  Where all are found, every description that can be read is
listed once (`IsOrderly.listsExactly`).

This is said of index directories in which descriptions and data were saved, each description under
the name of its own project (`IndexDirectory.IsOrderly`).  Other files may lie beside them.
-/

namespace CodeAtlas

open CodeAtlas.Action CodeAtlas.FileTree

/-- The name of a document ends in `.json`. -/
lemma isDocumentName_iff {name : String} :
    IsDocumentName name ↔ ".json".toList <:+ name.toList := by
  constructor
  · rintro ⟨stem, rfl⟩
    exact ⟨stem.toList, by rw [String.toList_append]⟩
  · rintro ⟨stem, hstem⟩
    exact ⟨String.ofList stem, by rw [← String.toList_inj]; simp [← hstem]⟩

namespace Path

/-- A name has the extension `json` if it is that of a document and not the ending alone. -/
lemma extensionOfName?_eq_json_iff {name : String} :
    extensionOfName? name = some "json" ↔ ∃ stem, stem ≠ "" ∧ name = stem ++ ".json" := by
  constructor
  · intro h
    have hsplit := List.takeWhile_append_dropWhile (p := (· != '.')) (l := name.toList.reverse)
    simp only [extensionOfName?] at h
    cases hdrop : name.toList.reverse.dropWhile (· != '.') with
    | nil => simp [hdrop] at h
    | cons c rest =>
      cases rest with
      | nil => simp [hdrop] at h
      | cons c' rest =>
        have hdot : c = '.' := by
          have hhead := List.head?_dropWhile_not (· != '.') name.toList.reverse
          simpa [hdrop] using hhead
        have hext : (name.toList.reverse.takeWhile (· != '.')).reverse = ['j', 's', 'o', 'n'] := by
          simp only [hdrop, Option.some.injEq] at h
          simpa using congrArg String.toList h
        refine ⟨String.ofList (c' :: rest).reverse, ?_, ?_⟩
        · simp [← String.toList_inj]
        · rw [← String.toList_inj, ← List.reverse_reverse name.toList, ← hsplit, hdrop,
            List.reverse_append, hext, hdot]
          simp
  · rintro ⟨stem, hstem, rfl⟩
    have hchars : stem.toList.reverse ≠ [] := fun hnil =>
      hstem (String.toList_eq_nil_iff.mp (List.reverse_eq_nil_iff.mp hnil))
    obtain ⟨c, cs, hcs⟩ := List.exists_cons_of_ne_nil hchars
    simp [extensionOfName?, hcs]

/-- The extension of a path to which a name was joined is that of the name. -/
lemma extension?_join (p : String) {name : String} (h : IsPlainName name) :
    extension? (join p name) = extensionOfName? name := by
  rw [extension?, fileName?_join p h, Option.bind_some]

end Path

namespace IndexDirectory

variable {d : IndexDirectory} {base : Place} {t t' : FileTree} {id : String} {S : Set Place}

/-- One copy of the ending more makes no difference. -/
lemma withoutEnding_append (name : String) :
    withoutEnding extension (name ++ extension) = withoutEnding extension name := by
  unfold withoutEnding dropTrailingCopies
  rw [String.toList_append, List.reverse_append, dropLeadingCopies_append (by decide)]

/-- A name without the ending is left as it is. -/
lemma withoutEnding_of_not_isDocumentName {name : String} (h : ¬IsDocumentName name) :
    withoutEnding extension name = name := by
  rw [isDocumentName_iff, ← List.reverse_prefix] at h
  unfold withoutEnding dropTrailingCopies
  rw [extension, dropLeadingCopies_of_not_prefix h, List.reverse_reverse, String.ofList_toList]

/-- No ending is left. -/
lemma not_isDocumentName_withoutEnding (name : String) :
    ¬IsDocumentName (withoutEnding extension name) := by
  rw [isDocumentName_iff, ← List.reverse_prefix]
  simp only [withoutEnding, dropTrailingCopies, String.toList_ofList, List.reverse_reverse]
  exact not_prefix_dropCopiesFrom (by decide) 0 _

/-! ### What is there of the projects -/

/-- The projects that have a description. -/
def described (base : Place) (t : FileTree) : Set String :=
  {id | id ≠ "" ∧ ∃ content, t.fileAt? (placesIn base id).metadata = some content}

/-- The projects that have a data directory. -/
def stored (base : Place) (t : FileTree) : Set String :=
  {id | t.entry? (base ++ ["projects", id]) = some .directory}

/-- The description of a project, if it can be read. -/
def descriptionAt? (base : Place) (t : FileTree) (id : String) : Option IndexMetadata :=
  (t.fileAt? (placesIn base id).metadata).bind FileContent.description?

/-- A description is there where its place looks as it did. -/
lemma mem_described_of_entry?_eq
    (h : t'.entry? (placesIn base id).metadata = t.entry? (placesIn base id).metadata)
    (hid : id ∈ described base t) : id ∈ described base t' := by
  obtain ⟨hne, content, hcontent⟩ := hid
  refine ⟨hne, content, ?_⟩
  rw [fileAt?_eq_some_iff] at hcontent ⊢
  exact h.trans hcontent

/-- An index directory in which descriptions and data were saved: no links are around it, no path to
what is in it is refused for its length, what may be there of its two directories are directories,
and every description is one of its own project. -/
structure IsOrderly (d : IndexDirectory) (base : Place) (t : FileTree) : Prop where
  isAt : d.IsAt base t
  wellFormed : t.WellFormed
  addressable : ∀ names e, t.entry? (base ++ names) = some e →
    Path.IsAddressable (names.foldl Path.join d.path)
  ne_link : IsFreeOfLinks base t
  ne_file : ∀ name ∈ ["meta", "projects"], ∀ content,
    t.entry? (base ++ [name]) ≠ some (.file content)
  owns : ∀ id ∈ described base t, OwnsPlace base t id

namespace IsOrderly

/-- No links are on the way to anything in the directory. -/
lemma isStraight (h : d.IsOrderly base t) (names : List String) : t.IsStraight (base ++ names) := by
  intro above below hsplit
  exact h.ne_link above (area_of_append (hsplit ▸ Or.inr (List.prefix_append base names)))

/-- A directory in which things were removed, with all that was below them, is one of the kind. -/
lemma removed (h : d.IsOrderly base t) (hgone : t.Removed t' S)
    (hinside : ∀ place ∈ S, ¬place <+: base)
    (hbelow : ∀ place ∈ S, ∀ name, t.entry? (place ++ [name]) ≠ none → place ++ [name] ∈ S) :
    d.IsOrderly base t' where
  isAt := by
    have hstart : t'.startOf d.path = t.startOf d.path := by
      rw [startOf, startOf, hgone.restricts.workingDirectory_eq]
    refine ⟨h.isAt.toSpells.congr hstart ?_⟩
    rw [hgone.unchanged, h.isAt.start]
    exact fun hmem => hinside _ hmem h.isAt.start_isPrefix
  wellFormed := hgone.wellFormed h.wellFormed hbelow
  addressable names e he := h.addressable names e (hgone.restricts.entry?_eq _ _ he)
  ne_link q hq target htarget := h.ne_link q hq target (hgone.restricts.entry?_eq q _ htarget)
  ne_file name hname content hfile :=
    h.ne_file name hname content (hgone.restricts.entry?_eq _ _ hfile)
  owns id hid content m hcontent := by
    have hfile : ∀ c, t'.fileAt? (placesIn base id).metadata = some c →
        t.fileAt? (placesIn base id).metadata = some c := fun c hc =>
      fileAt?_eq_some_iff.mpr (hgone.restricts.entry?_eq _ _ (fileAt?_eq_some_iff.mp hc))
    obtain ⟨hne, c, hc⟩ := hid
    exact h.owns id ⟨hne, c, hfile c hc⟩ content m (hfile content hcontent)

/-- A path below the directory shows what stands there. -/
lemma lookup?_eq (h : d.IsOrderly base t) {names : List String} (hne : names ≠ [])
    (hplain : ∀ n ∈ names, Path.IsPlainName n) :
    t.lookup? (names.foldl Path.join d.path) = t.entry? (base ++ names) := by
  refine lookup?_of_isStraight h.wellFormed (h.isStraight names)
    (h.isAt.foldl_join hne hplain) fun hentry => ?_
  obtain ⟨e, he⟩ := Option.ne_none_iff_exists'.mp hentry
  exact h.addressable names e he

/-- The names of what stands below the directory are plain. -/
lemma plain (h : d.IsOrderly base t) {names : List String} {e : FileEntry}
    (he : t.entry? (base ++ names) = some e) : ∀ n ∈ names, Path.IsPlainName n := fun n hn =>
  (h.wellFormed.writable _ e he).plain n (List.mem_append_right base hn)

/-- What stands below the directory is named by the path on which the names are joined. -/
lemma names_of_entry? (h : d.IsOrderly base t) {names : List String} {e : FileEntry}
    (hne : names ≠ []) (he : t.entry? (base ++ names) = some e) :
    t.Names (names.foldl Path.join d.path) (base ++ names) :=
  h.isAt.foldl_join hne (h.plain he)

/-- What stands below the directory is found. -/
lemma find?_eq (h : d.IsOrderly base t) {names : List String} {e : FileEntry} (hne : names ≠ [])
    (he : t.entry? (base ++ names) = some e) :
    t.find? (names.foldl Path.join d.path) = .ok (base ++ names, e) := by
  refine (h.names_of_entry? hne he).find?_eq (h.addressable names e he) h.wellFormed he ?_
  rintro target rfl
  exact (h.isStraight names).ne_link target he

/-- A path to something in one of the directories shows what stands there. -/
lemma lookup?_join (h : d.IsOrderly base t) {directory name : String}
    (hplain : ∀ n ∈ [directory, name], Path.IsPlainName n) :
    t.lookup? (Path.join (Path.join d.path directory) name) =
      t.entry? (base ++ [directory, name]) := by
  have hlookup := h.lookup?_eq (List.cons_ne_nil directory [name]) hplain
  rwa [List.foldl_cons, List.foldl_cons, List.foldl_nil] at hlookup

/-- What stands in one of the directories is found. -/
lemma find?_join (h : d.IsOrderly base t) {directory name : String} {e : FileEntry}
    (he : t.entry? (base ++ [directory, name]) = some e) :
    t.find? (Path.join (Path.join d.path directory) name) = .ok (base ++ [directory, name], e) := by
  have hfind := h.find?_eq (List.cons_ne_nil directory [name]) he
  rwa [List.foldl_cons, List.foldl_cons, List.foldl_nil] at hfind

/-- The entries of one of the two directories are listed, those that are kept, each once. -/
lemma exists_runOn_namesIn (h : d.IsOrderly base t) {directory : String}
    (hdirectory : directory ∈ ["meta", "projects"]) (keep : FileTree → String → Bool) :
    ∃ names : List String, names.Nodup ∧
      (∀ name, name ∈ names ↔ (∃ e, t.entry? (base ++ [directory, name]) = some e) ∧
        keep t (Path.join (Path.join d.path directory) name) = true) ∧
      (namesIn (Path.join d.path directory) keep).runOn t = (.ok names, t) := by
  have hname : ∀ n ∈ [directory], Path.IsPlainName n := by
    have hboth : ∀ n ∈ ["meta", "projects"], Path.IsPlainName n := by decide
    simpa using hboth directory hdirectory
  refine ⟨(t.namesIn (base ++ [directory])).filter fun name =>
    keep t (Path.join (Path.join d.path directory) name), (nodup_namesIn t _).filter _, ?_, ?_⟩
  · intro name
    rw [List.mem_filter, mem_namesIn, List.append_assoc]
    rfl
  · have hlookup := h.lookup?_eq (List.cons_ne_nil directory []) hname
    rw [List.foldl_cons, List.foldl_nil] at hlookup
    unfold namesIn
    rw [runOn_bind_of_ok (runOn_get t), FileTree.exists?, hlookup]
    cases hentry : t.entry? (base ++ [directory]) with
    | none =>
      rw [h.wellFormed.namesIn_eq_nil (by simp [hentry])]
      rfl
    | some e =>
      cases e with
      | file content => exact absurd hentry (h.ne_file directory hdirectory content)
      | link target => exact absurd hentry ((h.isStraight [directory]).ne_link target)
      | directory =>
        have hfind := h.find?_eq (List.cons_ne_nil directory []) hentry
        rw [List.foldl_cons, List.foldl_nil] at hfind
        have hlist : (Action.read (StorageError.io (Path.join d.path directory))
            (FileTree.list · (Path.join d.path directory))).runOn t =
              (.ok (t.namesIn (base ++ [directory])), t) := by
          rw [runOn_read_eq_ok_iff]
          exact ⟨by rw [FileTree.list, hfind], rfl⟩
        rw [if_pos Option.isSome_some, runOn_bind_of_ok hlist]
        rfl

/-- The documents of the descriptions are listed, and the ending is taken off their names. -/
lemma exists_runOn_metadataIds (h : d.IsOrderly base t) :
    ∃ names : List String, names.Nodup ∧
      (∀ name, name ∈ names ↔ ∃ id ∈ described base t, name = id ++ extension) ∧
      d.metadataIds.runOn t = (.ok (names.map (withoutEnding extension)), t) := by
  obtain ⟨names, hnodup, hmem, hrun⟩ := h.exists_runOn_namesIn
    (show "meta" ∈ ["meta", "projects"] by simp)
    fun t path => t.isFile path && Path.extension? path == some "json"
  refine ⟨names, hnodup, fun name => ?_, ?_⟩
  · rw [hmem, Bool.and_eq_true, beq_iff_eq]
    constructor
    · rintro ⟨⟨e, he⟩, hfile, hextension⟩
      have hplain := h.plain he
      rw [Path.extension?_join _ (hplain name (by simp)), Path.extensionOfName?_eq_json_iff]
        at hextension
      obtain ⟨stem, hstem, rfl⟩ := hextension
      rw [FileTree.isFile, h.lookup?_join hplain] at hfile
      refine ⟨stem, ⟨hstem, ?_⟩, rfl⟩
      split at hfile
      · rename_i content hcontent
        exact ⟨content, fileAt?_eq_some_iff.mpr hcontent⟩
      · cases hfile
    · rintro ⟨id, ⟨hne, content, hcontent⟩, rfl⟩
      have he : t.entry? (base ++ ["meta", id ++ extension]) = some (.file content) :=
        fileAt?_eq_some_iff.mp hcontent
      refine ⟨⟨_, he⟩, by rw [isFile, lookup?, h.find?_join he], ?_⟩
      rw [Path.extension?_join _ (h.plain he _ (by simp))]
      exact Path.extensionOfName?_eq_json_iff.mpr ⟨id, hne, rfl⟩
  · have hdirectory : (namesIn d.metadataDirectory _).runOn t = (.ok names, t) := hrun
    unfold metadataIds
    rw [runOn_bind_of_ok hdirectory, runOn_pure]

/-- The data directories are listed. -/
lemma exists_runOn_dataIds (h : d.IsOrderly base t) :
    ∃ ids : List String, ids.Nodup ∧ (∀ id, id ∈ ids ↔ id ∈ stored base t) ∧
      d.dataIds.runOn t = (.ok ids, t) := by
  obtain ⟨ids, hnodup, hmem, hrun⟩ := h.exists_runOn_namesIn
    (show "projects" ∈ ["meta", "projects"] by simp) fun t path => t.isDirectory path
  refine ⟨ids, hnodup, fun id => (hmem id).trans ?_, hrun⟩
  constructor
  · rintro ⟨⟨e, he⟩, hdir⟩
    rw [isDirectory, h.lookup?_join (h.plain he)] at hdir
    split at hdir
    · assumption
    · cases hdir
  · intro hid
    refine ⟨⟨_, hid⟩, ?_⟩
    rw [isDirectory, lookup?, h.find?_join hid]

/-- A project whose identifier ends in `.json` is not found by its description. -/
lemma exists_runOn_metadataIds_notMem (h : d.IsOrderly base t) (hname : IsDocumentName id) :
    ∃ ids : List String, id ∉ ids ∧ d.metadataIds.runOn t = (.ok ids, t) := by
  obtain ⟨names, -, -, hrun⟩ := h.exists_runOn_metadataIds
  refine ⟨_, ?_, hrun⟩
  intro hid
  obtain ⟨name, -, rfl⟩ := List.mem_map.mp hid
  exact not_isDocumentName_withoutEnding name hname

/-- Descriptions whose identifiers do not end in `.json` are listed by their identifiers. -/
lemma exists_runOn_metadataIds_of_not (h : d.IsOrderly base t)
    (hids : ∀ id ∈ described base t, ¬IsDocumentName id) :
    ∃ ids : List String, ids.Nodup ∧ (∀ id, id ∈ ids ↔ id ∈ described base t) ∧
      d.metadataIds.runOn t = (.ok ids, t) := by
  obtain ⟨names, hnodup, hmem, hrun⟩ := h.exists_runOn_metadataIds
  have hrecovered : ∀ id ∈ described base t, withoutEnding extension (id ++ extension) = id := by
    intro id hid
    rw [withoutEnding_append, withoutEnding_of_not_isDocumentName (hids id hid)]
  refine ⟨names.map (withoutEnding extension), ?_, fun id => ?_, hrun⟩
  · refine hnodup.map_on fun name hname name' hname' heq => ?_
    obtain ⟨id, hid, rfl⟩ := (hmem name).mp hname
    obtain ⟨id', hid', rfl⟩ := (hmem name').mp hname'
    rw [hrecovered id hid, hrecovered id' hid'] at heq
    rw [heq]
  · rw [List.mem_map]
    constructor
    · rintro ⟨name, hname, rfl⟩
      obtain ⟨id, hid, rfl⟩ := (hmem name).mp hname
      rwa [hrecovered id hid]
    · intro hid
      exact ⟨id ++ extension, (hmem _).mpr ⟨id, hid, rfl⟩, hrecovered id hid⟩

/-! ### Listing -/

/-- A description is read if it can be. -/
lemma runOn_readable? (h : d.IsOrderly base t) (hid : id ∈ described base t) :
    (d.readable? id).runOn t = (.ok (descriptionAt? base t id), t) := by
  obtain ⟨-, content, hcontent⟩ := hid
  have hentry := fileAt?_eq_some_iff.mp hcontent
  have hfind : t.find? (d.metadataPath id) = _ := h.find?_join hentry
  have hread : t.read (d.metadataPath id) = .ok content := by rw [FileTree.read, hfind]
  have hattempt : ∀ outcome, (d.get? id).runOn t = (outcome, t) →
      Action.runOn (Action.attempt (d.get? id) : StorageAction _) t = (.ok outcome, t) := by
    intro outcome hrun
    rw [attempt, runOn_ofRun, hrun]
  unfold readable?
  rw [descriptionAt?, hcontent, Option.bind_some]
  cases hm : content.description? with
  | some m =>
    rw [runOn_bind_of_ok (hattempt _ (runOn_get?_of_description hread hm))]
    rfl
  | none =>
    obtain ⟨e, he⟩ := exists_runOn_get?_error hread hm
    rw [runOn_bind_of_ok (hattempt _ he)]
    rfl

end IsOrderly

/-- Every description that can be read is listed once, in the order of the projects. -/
def ListsExactly (d : IndexDirectory) (base : Place) (t : FileTree) : Prop :=
  ∃ ms, d.list.runOn t = (.ok ms, t) ∧
    ms.Pairwise (fun m m' => m.projectId < m'.projectId) ∧
    ∀ m, m ∈ ms ↔ ∃ id ∈ described base t, descriptionAt? base t id = some m

/-- Things sorted by texts that differ come in ascending order. -/
lemma pairwise_mergeSort_lt {α : Type} (text : α → String) {xs : List α}
    (hnodup : (xs.map text).Nodup) :
    (xs.mergeSort fun a b => decide (text a ≤ text b)).Pairwise fun a b => text a < text b := by
  have hsorted : (xs.mergeSort fun a b => decide (text a ≤ text b)).Pairwise
      fun a b => decide (text a ≤ text b) = true := by
    apply List.pairwise_mergeSort
    · intro a b c hab hbc
      exact decide_eq_true (String.le_trans (of_decide_eq_true hab) (of_decide_eq_true hbc))
    · intro a b
      rw [Bool.or_eq_true, decide_eq_true_iff, decide_eq_true_iff]
      exact String.le_total _ _
  have hdistinct : (xs.mergeSort fun a b => decide (text a ≤ text b)).Pairwise
      fun a b => text a ≠ text b := by
    rw [← List.pairwise_map]
    exact ((List.mergeSort_perm xs _).map text).nodup_iff.mpr hnodup
  refine (hsorted.and hdistinct).imp fun {a b} hab => ?_
  exact Std.lt_of_le_of_ne (of_decide_eq_true hab.1) hab.2

/-- Where no identifier ends in `.json` the listing is exact. -/
lemma IsOrderly.listsExactly (h : d.IsOrderly base t)
    (hids : ∀ id ∈ described base t, ¬IsDocumentName id) : d.ListsExactly base t := by
  obtain ⟨ids, hnodup, hmem, hrun⟩ := h.exists_runOn_metadataIds_of_not hids
  have hread : (ids.mapM d.readable?).runOn t = (.ok (ids.map (descriptionAt? base t)), t) :=
    runOn_mapM_of_ok fun id hid => h.runOn_readable? ((hmem id).mp hid)
  have hown : ∀ id ∈ ids, ∀ m, descriptionAt? base t id = some m → m.projectId = id := by
    intro id hid m hm
    obtain ⟨content, hcontent, hdescription⟩ := Option.bind_eq_some_iff.mp hm
    exact h.owns id ((hmem id).mp hid) content m hcontent hdescription
  have hnames : (ids.filterMap (descriptionAt? base t)).map IndexMetadata.projectId =
      ids.filter fun id => (descriptionAt? base t id).isSome := by
    rw [List.map_filterMap, ← List.filterMap_eq_filter]
    refine List.filterMap_congr fun id hid => ?_
    cases hm : descriptionAt? base t id with
    | none => simp [Option.guard, hm]
    | some m => simp [Option.guard, hm, hown id hid m hm]
  refine ⟨_, ?_, pairwise_mergeSort_lt IndexMetadata.projectId (hnames ▸ hnodup.filter _), ?_⟩
  · unfold list
    rw [runOn_bind_of_ok hrun, runOn_bind_of_ok hread, runOn_pure, List.filterMap_map]
    rfl
  · intro m
    simp only [List.mem_mergeSort, List.mem_filterMap, hmem]

/-! ### Descriptions and data that are saved -/

/-- The place of a description tells the project. -/
lemma eq_of_metadata_eq {other : String}
    (h : (placesIn base id).metadata = base ++ ["meta"] ++ [other ++ extension]) : id = other := by
  rw [List.append_assoc] at h
  simpa [placesIn, extension] using h

/-- Joined to the path of a place, names make the path of the place below it. -/
lemma foldl_join_pathOf {place : Place} {names : List String}
    (hplain : ∀ n ∈ place ++ names, Path.IsPlainName n) :
    names.foldl Path.join (pathOf place) = pathOf (place ++ names) := by
  induction names generalizing place with
  | nil => rw [List.append_nil, List.foldl_nil]
  | cons name names ih =>
    have hsplit : place ++ name :: names = place ++ [name] ++ names := by simp
    rw [hsplit] at hplain ⊢
    rw [List.foldl_cons, join_pathOf fun n hn => hplain n (List.mem_append_left names hn),
      ih hplain]

/-- No path to what stands in a tree is refused if it begins with the path of a place. -/
lemma isAddressable_of_path (hpath : d.path = pathOf base) (hwf : t.WellFormed)
    (names : List String) (e : FileEntry) (he : t.entry? (base ++ names) = some e) :
    Path.IsAddressable (names.foldl Path.join d.path) := by
  have hwritable := hwf.writable _ e he
  rw [hpath, foldl_join_pathOf hwritable.plain]
  exact hwritable.isAddressable

namespace IsOrderly

/-- Where nothing was saved the directory is orderly. -/
lemma empty (hpath : d.path = pathOf base) (hplain : ∀ name ∈ base, Path.IsPlainName name) :
    d.IsOrderly base FileTree.empty := by
  have hnone : ∀ place e, FileTree.empty.entry? place = some e → e = .directory := by
    intro place e he
    by_cases hroot : place = []
    · rw [hroot] at he
      exact (Option.some.inj he).symm
    · simp [FileTree.empty, entry?, hroot] at he
  refine ⟨.of_path hpath hplain, wellFormed_empty, isAddressable_of_path hpath wellFormed_empty, ?_,
    ?_, ?_⟩
  · intro q _ target htarget
    cases hnone q _ htarget
  · intro name _ content hfile
    cases hnone _ _ hfile
  · rintro id ⟨-, content, hcontent⟩
    cases hnone _ _ (fileAt?_eq_some_iff.mp hcontent)

/-- It stays so when something is put in that is neither a link nor in the place of one of the two
directories nor the description of another project. -/
lemma put (h : d.IsOrderly base t) (hpath : d.path = pathOf base) {place : Place} {name : String}
    {e : FileEntry} (hroom : t.HasRoom place name) (hlink : ∀ target, e ≠ .link target)
    (hfile : ∀ n ∈ ["meta", "projects"], base ++ [n] = place ++ [name] → e = .directory)
    (howns : ∀ id content m, (placesIn base id).metadata = place ++ [name] → e = .file content →
      content.description? = some m → m.projectId = id) :
    d.IsOrderly base (t.put (place ++ [name]) e) where
  isAt := by
    refine ⟨h.isAt.toSpells.congr rfl ?_⟩
    rw [entry?_put_of_ne, h.isAt.start]
    intro hplace
    cases hroom.vacant.symm.trans (hplace ▸ h.isAt.start)
  wellFormed := h.wellFormed.put e hroom.stands hroom.vacant hroom.writable
  addressable := isAddressable_of_path hpath
    (h.wellFormed.put e hroom.stands hroom.vacant hroom.writable)
  ne_link q hq target htarget := by
    rw [entry?_put] at htarget
    split_ifs at htarget
    · exact hlink target (Option.some.inj htarget)
    · exact h.ne_link q hq target htarget
  ne_file n hn content hcontent := by
    rw [entry?_put] at hcontent
    split_ifs at hcontent with hplace
    · rw [hfile n hn hplace.1] at hcontent
      cases hcontent
    · exact h.ne_file n hn content hcontent
  owns id hid content m hcontent hm := by
    rw [fileAt?_eq_some_iff, entry?_put] at hcontent
    split_ifs at hcontent with hplace
    · exact howns id content m hplace.1 (Option.some.inj hcontent) hm
    · have hbefore := fileAt?_eq_some_iff.mpr hcontent
      exact h.owns id ⟨hid.1, content, hbefore⟩ content m hbefore hm

/-- It stays so when a directory is made. -/
lemma putDirectory (h : d.IsOrderly base t) (hpath : d.path = pathOf base) {place : Place}
    {name : String} (hroom : t.HasRoom place name) :
    d.IsOrderly base (t.put (place ++ [name]) .directory) :=
  h.put hpath hroom (by simp) (fun _ _ _ => rfl) (by simp)

/-- It stays so when a description is saved. -/
lemma putDescription (h : d.IsOrderly base t) (hpath : d.path = pathOf base) (m : IndexMetadata)
    (hroom : t.HasRoom (base ++ ["meta"]) (m.projectId ++ extension)) :
    d.IsOrderly base
      (t.put (base ++ ["meta"] ++ [m.projectId ++ extension])
        (.file (Storage.fileOf m.toJson))) := by
  refine h.put hpath hroom (by simp) (by simp) ?_
  intro id content m' hplace hcontent hm
  obtain rfl := FileEntry.file.inj hcontent
  rw [IndexMetadata.projectId_of_description? hm]
  exact (eq_of_metadata_eq hplace).symm

end IsOrderly

/-- A description that stands in the tree after something was put in stood there before, or was put
in. -/
lemma mem_described_put {place : Place} {e : FileEntry}
    (hid : id ∈ described base (t.put place e)) :
    id ∈ described base t ∨ place = (placesIn base id).metadata ∧ ∃ content, e = .file content := by
  obtain ⟨hne, content, hcontent⟩ := hid
  rw [fileAt?_eq_some_iff, entry?_put] at hcontent
  split_ifs at hcontent with hplace
  · exact Or.inr ⟨hplace.1.symm, content, Option.some.inj hcontent⟩
  · exact Or.inl ⟨hne, content, fileAt?_eq_some_iff.mpr hcontent⟩

end IndexDirectory

end CodeAtlas
