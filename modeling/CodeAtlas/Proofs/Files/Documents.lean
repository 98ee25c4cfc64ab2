import CodeAtlas.Proofs.Files.Walk

/-!
# Trees to which documents were added

Writing an index changes the tree of files that the index is made from: directories are made, and
documents whose names end in `.json` come and are replaced.  `FileTree.AddsDocuments` says that
nothing else happened.

Source files and ignore files do not end in `.json`, so what a search lists is the same before and
after (`AddsDocuments.listed_iff`), and every file that it lists can still be read.  All that is
asked for is that the ignore files are no links, which could lead to a document.
-/

namespace CodeAtlas

/-- The name of a document. -/
def IsDocumentName (name : String) : Prop := ∃ stem : String, name = stem ++ ".json"

/-- A name with another last letter is not that of a document. -/
lemma not_isDocumentName {name : String} (h : name.toList.getLast? ≠ some 'n') :
    ¬IsDocumentName name := by
  rintro ⟨stem, rfl⟩
  refine h ?_
  rw [String.toList_append, List.getLast?_append_of_ne_nil _ (by decide)]
  decide

/-- The name of a document is plain if it is one piece. -/
lemma IsDocumentName.isPlainName {name : String} (h : IsDocumentName name)
    (hslash : '/' ∉ name.toList) : Path.IsPlainName name := by
  obtain ⟨stem, rfl⟩ := h
  have hlong : ∀ s : String, s.toList.length < 5 → stem ++ ".json" ≠ s := by
    rintro s hs rfl
    rw [String.toList_append, List.length_append] at hs
    exact absurd hs (by simp)
  exact ⟨hlong "" (by decide), hlong "." (by decide), hlong ".." (by decide), hslash⟩

/-- A document has the extension `json` or none. -/
lemma extensionOfName?_document {name ext : String} (h : IsDocumentName name)
    (hext : Path.extensionOfName? name = some ext) : ext = "json" := by
  obtain ⟨stem, rfl⟩ := h
  exact Path.extensionOfName?_json hext

namespace FileTree

variable {t t' t'' : FileTree} {settings : IndexingSettings} {start place : Place}
  {names : List String} {content : FileContent}

/-- The place of a document. -/
def IsDocument (place : Place) : Prop :=
  ∃ name, place.getLast? = some name ∧ IsDocumentName name ∧ '/' ∉ name.toList

/-- A tree in which directories and documents were put, and nothing else happened. -/
structure AddsDocuments (t t' : FileTree) : Prop where
  directory : ∀ place, t.entry? place = some .directory → t'.entry? place = some .directory
  kept : ∀ place e, ¬IsDocument place → t.entry? place = some e → t'.entry? place = some e
  added : ∀ place e, ¬IsDocument place → t'.entry? place = some e →
    t.entry? place = some e ∨ t.entry? place = none ∧ e = .directory
  link : ∀ place target, t'.entry? place = some (.link target) →
    t.entry? place = some (.link target)

namespace AddsDocuments

/-- Nothing needs to happen. -/
lemma refl (t : FileTree) : t.AddsDocuments t :=
  ⟨fun _ h => h, fun _ _ _ h => h, fun _ _ _ h => Or.inl h, fun _ _ h => h⟩

/-- Documents can be added again. -/
lemma trans (h : t.AddsDocuments t') (h' : t'.AddsDocuments t'') : t.AddsDocuments t'' where
  directory place hdir := h'.directory place (h.directory place hdir)
  kept place e hplace he := h'.kept place e hplace (h.kept place e hplace he)
  added place e hplace he := by
    rcases h'.added place e hplace he with he | ⟨hnone, rfl⟩
    · exact h.added place e hplace he
    · refine Or.inr ⟨?_, rfl⟩
      cases hentry : t.entry? place with
      | none => rfl
      | some e =>
        rw [h.kept place e hplace hentry] at hnone
        cases hnone
  link place target hlink := h.link place target (h'.link place target hlink)

instance : Std.Refl AddsDocuments := ⟨refl⟩

instance : IsTrans FileTree AddsDocuments := ⟨fun _ _ _ => trans⟩

/-- A directory can be made where nothing stands. -/
lemma put_directory (h : t.entry? place = none) : t.AddsDocuments (t.put place .directory) := by
  have hne : place ≠ [] := by
    rintro rfl
    cases h
  refine ⟨fun p hp => ?_, fun p e _ hp => ?_, fun p e _ hp => ?_, fun p target hp => ?_⟩
  · by_cases hpp : p = place
    · rw [hpp, entry?_put_self hne]
    · rwa [entry?_put_of_ne _ hpp]
  · rw [entry?_put_of_ne]
    · exact hp
    · rintro rfl
      rw [h] at hp
      cases hp
  · by_cases hpp : p = place
    · rw [hpp, entry?_put_self hne] at hp
      exact Or.inr ⟨hpp ▸ h, (Option.some.inj hp).symm⟩
    · rw [entry?_put_of_ne _ hpp] at hp
      exact Or.inl hp
  · by_cases hpp : p = place
    · rw [hpp, entry?_put_self hne] at hp
      cases hp
    · rwa [entry?_put_of_ne _ hpp] at hp

/-- A document can be put anywhere but in place of a directory. -/
lemma put_document (hplace : IsDocument place) (h : t.entry? place ≠ some .directory) :
    t.AddsDocuments (t.put place (.file content)) := by
  have hne : ∀ p, ¬IsDocument p → p ≠ place := fun p hp heq => hp (heq ▸ hplace)
  refine ⟨fun p hp => ?_, fun p e hdoc hp => ?_, fun p e hdoc hp => ?_, fun p target hp => ?_⟩
  · rw [entry?_put_of_ne]
    · exact hp
    · rintro rfl
      exact h hp
  · rwa [entry?_put_of_ne _ (hne p hdoc)]
  · rw [entry?_put_of_ne _ (hne p hdoc)] at hp
    exact Or.inl hp
  · by_cases hpp : p = place
    · obtain ⟨name, hlast, -⟩ := hplace
      have hnil : place ≠ [] := fun hnil => by rw [hnil] at hlast; cases hlast
      rw [hpp, entry?_put_self hnil] at hp
      cases hp
    · rwa [entry?_put_of_ne _ hpp] at hp

/-- The way to a place stays. -/
lemma reaches (h : t.AddsDocuments t') (hdirs : t.Reaches place) : t'.Reaches place :=
  fun above below hplace hne => h.directory above (hdirs above below hplace hne)

/-- The files that are no documents stay as they are, and there are no more of them. -/
lemma fileAt?_eq (h : t.AddsDocuments t') (hplace : ¬IsDocument place) :
    t'.fileAt? place = t.fileAt? place := by
  ext content
  rw [fileAt?_eq_some_iff, fileAt?_eq_some_iff]
  constructor
  · intro hfile
    rcases h.added place _ hplace hfile with hfile | ⟨-, hdir⟩
    · exact hfile
    · cases hdir
  · exact h.kept place _ hplace

end AddsDocuments

/-! ### Ignore files -/

/-- Where the ignore files of a directory lie in it. -/
def ignoreFileNames : List (List String) :=
  [[Settings.ignoreFileName], [".ignore"], [".gitignore"], [".git", "info", "exclude"]]

/-- No ignore file is a link or lies behind one. -/
def PlainIgnoreFiles (t : FileTree) : Prop :=
  ∀ directory, t.entry? directory = some .directory → ∀ names ∈ ignoreFileNames,
    ∀ above below, names = above ++ below → above ≠ [] →
      ∀ target, t.entry? (directory ++ above) ≠ some (.link target)

/-- The names of ignore files are plain, and none is that of a document. -/
lemma plain_of_mem_ignoreFileNames (h : names ∈ ignoreFileNames) :
    ∀ name ∈ names, Path.IsPlainName name ∧ ¬IsDocumentName name := by
  have hall : ∀ names ∈ ignoreFileNames, ∀ name ∈ names,
      Path.IsPlainName name ∧ name.toList.getLast? ≠ some 'n' := by decide
  exact fun name hname =>
    ⟨(hall names h name hname).1, not_isDocumentName (hall names h name hname).2⟩

/-- An ignore file on whose way there is no link gives the rules in it, and no rules if there is no
such file. -/
lemma ignoreFile_pathOf (hplain : ∀ name ∈ place, Path.IsPlainName name)
    (hlink : ∀ above below, place = above ++ below → above ≠ [] →
      ∀ target, t.entry? above ≠ some (.link target))
    (hfile : ∀ content, t.fileAt? place = some content → IsWritable place ∧ t.Reaches place) :
    t.ignoreFile (pathOf place) =
      ((t.fileAt? place).map fun content => IgnoreRules.ofBytes content.bytes).getD [] := by
  unfold ignoreFile
  cases hread : t.read (pathOf place) with
  | ok content =>
    rw [fileAt?_eq_some_iff.mpr (entry?_of_read_pathOf hplain hlink hread)]
    rfl
  | error e =>
    cases hat : t.fileAt? place with
    | none => rfl
    | some content =>
      obtain ⟨hplace, hdirs⟩ := hfile content hat
      rw [read_pathOf hplace hdirs (fileAt?_eq_some_iff.mp hat)] at hread
      cases hread

/-- What the ignore file of a directory says can be told from the file at its place, if no ignore
file is a link.  This holds in every tree that has the directories of a well-formed one. -/
lemma ignoreFile_eq (hwf : t.WellFormed) {directory : Place}
    (hdir : t.entry? directory = some .directory) (hnames : names ∈ ignoreFileNames)
    (hdirs : ∀ d, t.entry? d = some .directory → t'.entry? d = some .directory)
    (hlink : ∀ above below, names = above ++ below → above ≠ [] →
      ∀ target, t'.entry? (directory ++ above) ≠ some (.link target))
    (hfile : t'.fileAt? (directory ++ names) = t.fileAt? (directory ++ names)) :
    t'.ignoreFile (pathOf (directory ++ names)) =
      ((t.fileAt? (directory ++ names)).map fun content =>
        IgnoreRules.ofBytes content.bytes).getD [] := by
  rw [← hfile]
  refine ignoreFile_pathOf (fun name hname => ?_) ?_ fun content hcontent => ?_
  · rcases List.mem_append.mp hname with hname | hname
    · exact (hwf.writable directory _ hdir).plain name hname
    · exact (plain_of_mem_ignoreFileNames hnames name hname).1
  · -- A prefix of the place is a directory above, or stands for a part of the ignore file's names.
    intro above below hplace hne target htarget
    rcases List.append_eq_append_iff.mp hplace with ⟨ns, rfl, hns⟩ | ⟨ns, hns, -⟩
    · by_cases hnil : ns = []
      · rw [hnil, List.append_nil, hdirs directory hdir] at htarget
        cases htarget
      · exact hlink ns below hns hnil target htarget
    · have habove : t.entry? above = some .directory := by
        by_cases hnil : ns = []
        · rwa [hns, hnil, List.append_nil] at hdir
        · exact hwf.reaches hdir above ns hns hnil
      rw [hdirs above habove] at htarget
      cases htarget
  · rw [hfile] at hcontent
    have hentry := fileAt?_eq_some_iff.mp hcontent
    exact ⟨hwf.writable _ _ hentry, fun above below hplace hne =>
      hdirs above (hwf.reaches hentry above below hplace hne)⟩

/-- A directory without ignore files has no rules. -/
lemma directoryRules_eq_empty (hwf : t.WellFormed) (hignore : t.PlainIgnoreFiles)
    {directory : Place} (hdir : t.entry? directory = some .directory)
    (hnone : ∀ names ∈ ignoreFileNames, t.fileAt? (directory ++ names) = none) :
    t.directoryRules directory = {} := by
  have hrules : ∀ names ∈ ignoreFileNames, t.ignoreFile (pathOf (directory ++ names)) = [] := by
    intro names hnames
    rw [ignoreFile_eq hwf hdir hnames (fun _ hd => hd) (hignore directory hdir names hnames) rfl,
      hnone names hnames]
    rfl
  simp only [ignoreFileNames, List.forall_mem_cons] at hrules
  obtain ⟨hown, hplain, hgit, hexclude, -⟩ := hrules
  simp only [directoryRules, hown, hplain, hgit, hexclude]

namespace AddsDocuments

/-- The rules of a directory stay as they are. -/
lemma directoryRules_eq (h : t.AddsDocuments t') (hwf : t.WellFormed) (hignore : t.PlainIgnoreFiles)
    {directory : Place} (hdir : t.entry? directory = some .directory) :
    t'.directoryRules directory = t.directoryRules directory := by
  have hdoc : ∀ names ∈ ignoreFileNames, ∀ above below, names = above ++ below → above ≠ [] →
      ¬IsDocument (directory ++ above) := by
    rintro names hnames above below rfl hne ⟨name, hlast, hname, -⟩
    rw [List.getLast?_append_of_ne_nil _ hne] at hlast
    refine (plain_of_mem_ignoreFileNames hnames name ?_).2 hname
    exact List.mem_append_left below (List.mem_of_getLast? hlast)
  have hrules : ∀ names ∈ ignoreFileNames,
      t'.ignoreFile (pathOf (directory ++ names)) = t.ignoreFile (pathOf (directory ++ names)) := by
    intro names hnames
    have hne : names ≠ [] := by
      rintro rfl
      revert hnames
      decide
    have hfile := h.fileAt?_eq (hdoc names hnames names [] (by simp) hne)
    have hlink := hignore directory hdir names hnames
    rw [ignoreFile_eq hwf hdir hnames (fun _ hd => hd) hlink rfl,
      ignoreFile_eq hwf hdir hnames h.directory ?_ hfile]
    intro above below hsplit hne target htarget
    rcases h.added _ _ (hdoc names hnames above below hsplit hne) htarget with hold | ⟨-, hentry⟩
    · exact hlink above below hsplit hne target hold
    · cases hentry
  simp only [ignoreFileNames, List.forall_mem_cons] at hrules
  obtain ⟨hown, hplain, hgit, hexclude, -⟩ := hrules
  simp only [directoryRules, hown, hplain, hgit, hexclude]

end AddsDocuments

/-! ### Listed files -/

/-- No document has a source extension. -/
lemma accepts_document (hjson : ∀ ext ∈ settings.extensions, Text.lowerAscii ext ≠ "json")
    (hne : names ≠ []) (h : IsDocument (start ++ names)) :
    settings.accepts (Path.join (pathOf start) ("/".intercalate names)) = false := by
  obtain ⟨name, hlast, hname, hslash⟩ := h
  rw [List.getLast?_append_of_ne_nil _ hne] at hlast
  rw [IndexingSettings.accepts, Path.hasExtension, Path.extension?, pathOf,
    Path.fileName?_join_intercalate start hlast (hname.isPlainName hslash), Option.bind_some]
  cases hext : Path.extensionOfName? name with
  | none => rfl
  | some ext =>
    have hlower : Text.lowerAscii "json" = "json" := by decide
    rw [extensionOfName?_document hname hext]
    simpa [hlower] using hjson

/-- The files below a place that have source extensions are the same in two trees. -/
def SameSources (settings : IndexingSettings) (start : Place) (t t' : FileTree) : Prop :=
  ∀ names, names ≠ [] →
    settings.accepts (Path.join (pathOf start) ("/".intercalate names)) = true →
      t'.fileAt? (start ++ names) = t.fileAt? (start ++ names)

namespace AddsDocuments

/-- No source files are added with documents. -/
lemma sameSources (h : t.AddsDocuments t')
    (hjson : ∀ ext ∈ settings.extensions, Text.lowerAscii ext ≠ "json") (start : Place) :
    SameSources settings start t t' := by
  intro names hne haccepts
  refine h.fileAt?_eq fun hdoc => ?_
  rw [accepts_document hjson hne hdoc] at haccepts
  cases haccepts

/-- A search lists the same files before and after documents were added that are no source files. -/
lemma listed_iff_of_sameSources (h : t.AddsDocuments t') (hwf : t.WellFormed)
    (hignore : t.PlainIgnoreFiles) (hsame : SameSources settings start t t')
    (hstart : t.entry? start = some .directory) :
    t'.Listed settings start names content ↔ t.Listed settings start names content := by
  have hentry :
      isIndexed settings (Path.join (pathOf start) ("/".intercalate names)) content = true →
      (t'.entry? (start ++ names) = some (.file content) ↔
        t.entry? (start ++ names) = some (.file content)) := by
    intro hindexed
    rw [isIndexed, Bool.and_eq_true] at hindexed
    by_cases hne : names = []
    · rw [hne, List.append_nil, hstart, h.directory start hstart]
    · rw [← fileAt?_eq_some_iff, ← fileAt?_eq_some_iff, hsame names hne hindexed.1]
  have hkept : t.entry? (start ++ names) = some (.file content) →
      (t'.walkRules settings start).keeps names = (t.walkRules settings start).keeps names := by
    intro hfile
    have hdirs := hwf.reaches hfile
    exact keeps_walkRules_congr (h.reaches hdirs) hdirs fun d _ hd =>
      h.directoryRules_eq hwf hignore hd
  constructor
  · rintro ⟨hfile, hindexed, hkeeps⟩
    have hfile := (hentry hindexed).mp hfile
    exact ⟨hfile, hindexed, (hkept hfile).symm.trans hkeeps⟩
  · rintro ⟨hfile, hindexed, hkeeps⟩
    exact ⟨(hentry hindexed).mpr hfile, hindexed, (hkept hfile).trans hkeeps⟩

/-- A search lists the same files before and after documents were added. -/
lemma listed_iff (h : t.AddsDocuments t') (hwf : t.WellFormed) (hignore : t.PlainIgnoreFiles)
    (hjson : ∀ ext ∈ settings.extensions, Text.lowerAscii ext ≠ "json")
    (hstart : t.entry? start = some .directory) :
    t'.Listed settings start names content ↔ t.Listed settings start names content :=
  h.listed_iff_of_sameSources hwf hignore (h.sameSources hjson start) hstart

/-- A search meets the same files in the same order before and after documents were added that are
no source files. -/
lemma listedFiles_eq (h : t.AddsDocuments t') (hwf : t.WellFormed) (hignore : t.PlainIgnoreFiles)
    (hsame : SameSources settings start t t') (hstart : t.entry? start = some .directory) :
    t'.listedFiles settings start = t.listedFiles settings start := by
  have hmem : ∀ p, p ∈ t'.listedFiles settings start ↔ p ∈ t.listedFiles settings start := by
    rintro ⟨names, content⟩
    rw [mem_listedFiles (h.directory start hstart), mem_listedFiles hstart,
      h.listed_iff_of_sameSources hwf hignore hsame hstart]
  refine List.Perm.eq_of_pairwise (fun p q _ _ hpq hqp => ?_)
    (pairwise_listedFiles t' settings start)
    (pairwise_listedFiles t settings start) ?_
  · have hswap : compare (start ++ p.1) (start ++ q.1) =
        (compare (start ++ q.1) (start ++ p.1)).swap :=
      Std.OrientedCmp.eq_swap
    rw [hswap, hqp] at hpq
    cases hpq
  · exact (List.perm_ext_iff_of_nodup (nodup_listedFiles t' settings start).of_map
      (nodup_listedFiles t settings start).of_map).mpr hmem

/-- A search finds the same paths before and after documents were added that are no source files. -/
lemma walk_eq (h : t.AddsDocuments t') (hwf : t.WellFormed) (hignore : t.PlainIgnoreFiles)
    (hsame : SameSources settings start t t') (hstart : t.entry? start = some .directory) :
    t'.walk settings (pathOf start) = t.walk settings (pathOf start) := by
  have hwritable := hwf.writable start _ hstart
  have hdirs := hwf.reaches hstart
  have hfind' : t'.find? (pathOf start) = .ok (start, .directory) :=
    find?_pathOf hwritable (h.reaches hdirs) (h.directory start hstart) (by simp)
  rw [FileTree.walk_eq hfind', FileTree.walk_eq (find?_pathOf hwritable hdirs hstart (by simp)),
    h.listedFiles_eq hwf hignore hsame hstart]

/-- A file that is no document was there before documents were added. -/
lemma isFile_pathOf (h : t.AddsDocuments t') (hwf : t.WellFormed) (hplace : ¬IsDocument place)
    (hfile : t'.entry? place = some (.file content)) :
    (∀ name ∈ place, Path.IsPlainName name) ∧ t.isFile (pathOf place) = true := by
  rw [← fileAt?_eq_some_iff, h.fileAt?_eq hplace, fileAt?_eq_some_iff] at hfile
  exact ⟨(hwf.writable _ _ hfile).plain, hwf.isFile_pathOf hfile⟩

/-- A file below a place that is to be indexed was there before documents were added. -/
lemma isFile_join (h : t.AddsDocuments t') (hwf : t.WellFormed)
    (hjson : ∀ ext ∈ settings.extensions, Text.lowerAscii ext ≠ "json")
    (hstart : ∀ name ∈ start, Path.IsPlainName name) (hne : names ≠ [])
    (hfile : t'.entry? (start ++ names) = some (.file content))
    (hindexed :
      isIndexed settings (Path.join (pathOf start) ("/".intercalate names)) content = true) :
    t.isFile (Path.join (pathOf start) ("/".intercalate names)) = true := by
  have hplace : ¬IsDocument (start ++ names) := by
    intro hdoc
    rw [isIndexed, accepts_document hjson hne hdoc, Bool.false_and] at hindexed
    cases hindexed
  obtain ⟨hplain, hfound⟩ := h.isFile_pathOf hwf hplace hfile
  rwa [pathOf, Path.join_ofNames start hne hstart fun name hname =>
    hplain name (List.mem_append_right start hname)]

/-- A search from a place to which no link leads finds files alone that were there before documents
were added.  The place may be missing, and then a directory may have been made there. -/
lemma isFile_of_mem_walk (h : t.AddsDocuments t') (hwf : t.WellFormed)
    (hjson : ∀ ext ∈ settings.extensions, Text.lowerAscii ext ≠ "json") (hstart : IsWritable start)
    (hlink : ∀ above below, start = above ++ below →
      ∀ target, t.entry? above ≠ some (.link target))
    {path : String} (hpath : path ∈ t'.walk settings (pathOf start)) : t.isFile path = true := by
  unfold walk at hpath
  cases hfind : t'.find? (pathOf start) with
  | error cause =>
    rw [hfind] at hpath
    cases hpath
  | ok found =>
    obtain ⟨p, entry⟩ := found
    obtain ⟨hlocate, hentry⟩ := find?_eq_ok_iff.mp hfind
    rw [locate_pathOf_eq hstart] at hlocate
    have hp : p = start := eq_of_locatePieces_names hstart.plain
      (fun above below hsplit _ target htarget =>
        hlink above below hsplit target (h.link _ _ htarget)) hlocate
    rw [hp] at hfind hentry
    rw [hfind] at hpath
    cases entry with
    | file content =>
      -- The place is a file itself, which lies in the directory above it.
      simp only at hpath
      split_ifs at hpath with hindexed
      · have hne : start ≠ [] := fun hnil => by rw [hnil] at hentry; cases hentry
        have hsplit := List.dropLast_append_getLast hne
        have hplain : ∀ name ∈ start.dropLast, Path.IsPlainName name := fun name hname =>
          hstart.plain name (List.dropLast_subset start hname)
        have hjoin : Path.join (pathOf start.dropLast) ("/".intercalate [start.getLast hne]) =
            pathOf start := by
          rw [pathOf, Path.join_ofNames _ (List.cons_ne_nil _ []) hplain fun name hname =>
            List.mem_singleton.mp hname ▸ hstart.plain _ (List.getLast_mem hne), hsplit, pathOf]
        have hfile : t'.entry? (start.dropLast ++ [start.getLast hne]) = some (.file content) := by
          rw [hsplit, hentry]
        rw [← hjoin] at hindexed
        rw [List.mem_singleton.mp hpath, ← hjoin]
        exact h.isFile_join hwf hjson hplain (List.cons_ne_nil _ []) hfile hindexed
      · cases hpath
    | directory =>
      simp only [List.mem_mergeSort, List.mem_filterMap, Prod.exists, mem_below] at hpath
      obtain ⟨names, e, ⟨hne, he⟩, hfound⟩ := hpath
      split at hfound
      · split_ifs at hfound with hkept
        rw [← Option.some.inj hfound]
        exact h.isFile_join hwf hjson hstart.plain hne he (Bool.and_eq_true _ _ ▸ hkept).1
      · cases hfound
    | link target => exact absurd (h.link _ _ hentry) (hlink start [] (by simp) target)

end AddsDocuments

end FileTree

end CodeAtlas
