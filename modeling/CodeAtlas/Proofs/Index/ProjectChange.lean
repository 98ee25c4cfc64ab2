import CodeAtlas.Proofs.Index.Batch

/-!
# Changes of a project's files

A project is indexed, then some of its files change, and every changed file is reported to the live
index by its path and by what happened to it.  This module tells the two sides of that story apart.
The *walk* decides which files a full build sees; `ProjectChange.watches` decides which reports the
live index takes up, from the extension and the hidden names of the path alone.

What the live index makes of a reported file is `ProjectChange.followed`: whatever is extracted from
it now, without asking whether the walk lists it.  So it ends up with what a full build sees if and
as far as the two filters agree on the changed files, which is `ProjectChange.WalkFollows`.
-/

namespace CodeAtlas

open Std FileTree

/-- What happened to a file with the given contents before and after, if anything did. -/
def ChangeKind.between? : Option FileContent → Option FileContent → Option ChangeKind
  | none, none => none
  | none, some _ => some .created
  | some _, some _ => some .modified
  | some _, none => some .deleted

/-- A file is gone after its deletion and there after any other change. -/
lemma ChangeKind.eq_deleted_iff_of_between? {old new : Option FileContent} {kind : ChangeKind}
    (h : between? old new = some kind) : kind = .deleted ↔ new = none := by
  cases old <;> cases new <;> simp_all [between?, eq_comm]

/-- Two reports of one change add up to one of them. -/
lemma ChangeKind.coalesce_self (kind : ChangeKind) : kind.coalesce kind = kind := by
  cases kind <;> rfl

/-- The files of a project before and after some of them changed. -/
structure ProjectChange where
  /-- The root of the project. -/
  root : Place
  before : FileTree
  after : FileTree

namespace ProjectChange

variable {p : ProjectChange} {x : Indexer} {names names' : List String} {c c' : Change}
  {t : FileTree} {file : String} {e : Extraction}

/-- The file at some names below the root is another one afterwards, or there only then or
before. -/
def IsChanged (p : ProjectChange) (names : List String) : Prop :=
  p.before.fileAt? (p.root ++ names) ≠ p.after.fileAt? (p.root ++ names)

/-- Whether reports about a file are taken up. -/
def watches (p : ProjectChange) (x : Indexer) (names : List String) : Bool :=
  x.settings.indexing.accepts (pathOf (p.root ++ names)) &&
    !Path.isHiddenBelow (pathOf p.root) (pathOf (p.root ++ names))

/-- A change with its path seen from the root of the project. -/
def absolute (p : ProjectChange) (c : Change) : Change :=
  { c with
    path := if Path.isAbsolute c.path then c.path else Path.join (pathOf p.root) c.path }

/-- A change reports what happened to a changed file.  Its path may be spelled in any way that has
the components of the file's place, and it leads to the file if that is there. -/
structure Reports (p : ProjectChange) (c : Change) (names : List String) : Prop where
  changed : p.IsChanged names
  kind : ChangeKind.between? (p.before.fileAt? (p.root ++ names))
    (p.after.fileAt? (p.root ++ names)) = some c.kind
  spelled : Path.components c.path = Path.components (pathOf (p.root ++ names))
  leads : p.after.fileAt? (p.root ++ names) ≠ none →
    p.after.locate c.path = .ok (p.root ++ names)

/-- The extractions of the source files before and after the change, whether they are listed or not.
-/
def versions (p : ProjectChange) (x : Indexer) : Set (String × Extraction) :=
  {v | ∃ t ∈ [p.before, p.after], ∃ names content,
    t.fileAt? (p.root ++ names) = some content ∧
    x.settings.indexing.accepts (pathOf (p.root ++ names)) = true ∧
    v = ("/".intercalate names, x.extractionOf ("/".intercalate names) content)}

/-- What is taken for granted when an indexer follows a project: only syntax trees are asked, index
documents are no source files, the trees are such as stand on a disk, the rules of ignore files did
not change, and no two identifiers, which are digests, agree by accident. -/
structure Regular (p : ProjectChange) (x : Indexer) : Prop where
  sources_eq_nil : x.sources = []
  ne_json : ∀ ext ∈ x.settings.indexing.extensions, Text.lowerAscii ext ≠ "json"
  wellFormed_before : p.before.WellFormed
  wellFormed_after : p.after.WellFormed
  root_before : p.before.entry? p.root = some .directory
  root_after : p.after.entry? p.root = some .directory
  same_rules : ∀ d, p.before.entry? d = some .directory → p.after.entry? d = some .directory →
    p.before.directoryRules d = p.after.directoryRules d
  plain_ignoreFiles : p.after.PlainIgnoreFiles
  nodup_ids : ∀ v ∈ p.versions x, (v.2.symbols.map (·.id)).Nodup
  id_ne : ∀ v ∈ p.versions x, ∀ v' ∈ p.versions x, v.1 ≠ v'.1 →
    ∀ s ∈ v.2.symbols, ∀ s' ∈ v'.2.symbols, s.id ≠ s'.id

/-- The filter for reports and the walk agree on the changed files: one whose reports are taken up
is listed by the walk if it is there, and one whose reports are not is listed neither before nor
after.
-/
def WalkFollows (p : ProjectChange) (x : Indexer) : Prop :=
  ∀ names, p.IsChanged names →
    (p.watches x names = true → ∀ content, p.after.fileAt? (p.root ++ names) = some content →
      p.after.Listed x.settings.indexing p.root names content) ∧
    (p.watches x names = false → ∀ content,
      ¬p.before.Listed x.settings.indexing p.root names content ∧
      ¬p.after.Listed x.settings.indexing p.root names content)

/-- No file whose reports are not taken up is listed both before and after its change. -/
def UnwatchedApart (p : ProjectChange) (x : Indexer) : Prop :=
  ∀ names content content', p.IsChanged names → p.watches x names = false →
    p.before.Listed x.settings.indexing p.root names content →
    ¬p.after.Listed x.settings.indexing p.root names content'

open Classical in
/-- What the live index holds of a file when all reports were taken up: what is extracted from it
now if it changed and is watched, and else what it was built with. -/
noncomputable def followed (p : ProjectChange) (x : Indexer) (file : String) : Option Extraction :=
  if p.IsChanged (Path.pieces file) ∧ p.watches x (Path.pieces file) = true then
    (p.after.fileAt? (p.root ++ Path.pieces file)).map (x.extractionOf file)
  else (x.sourceFiles p.before p.root)[file]?

/-- A listed file is one of the source files. -/
lemma mem_versions_of_listed (ht : t ∈ [p.before, p.after])
    (hread : t.ReadableSources x.settings.indexing p.root) {content : FileContent}
    (hlisted : t.Listed x.settings.indexing p.root names content) :
    ("/".intercalate names, x.extractionOf ("/".intercalate names) content) ∈ p.versions x := by
  refine ⟨t, ht, names, content, fileAt?_eq_some_iff.mpr hlisted.entry, ?_, rfl⟩
  rw [← hread.join_eq hlisted]
  exact (Bool.and_eq_true _ _ ▸ hlisted.indexed).1

/-- Reports are taken up by what their paths spell. -/
lemma Reports.accepts_eq (hc : p.Reports c names) {l : LiveIndex}
    (hroot : l.index.root = pathOf p.root) :
    l.accepts x.settings.indexing c.path = p.watches x names := by
  rw [LiveIndex.accepts, watches, hroot, IndexingSettings.accepts, IndexingSettings.accepts,
    Path.hasExtension_congr _ hc.spelled, Path.isHiddenBelow, Path.isHiddenBelow, Path.below?,
    Path.below?, hc.spelled]

namespace Regular

/-! ### Places and their texts -/

/-- A file below the root has plain names, and there are some. -/
lemma plain_of_fileAt? (h : p.Regular x) {content : FileContent}
    (hfile : p.before.fileAt? (p.root ++ names) = some content ∨
      p.after.fileAt? (p.root ++ names) = some content) :
    (∀ name ∈ names, Path.IsPlainName name) ∧ names ≠ [] := by
  rw [fileAt?_eq_some_iff, fileAt?_eq_some_iff] at hfile
  constructor
  · intro name hname
    rcases hfile with hfile | hfile
    · exact (h.wellFormed_before.writable _ _ hfile).plain name (List.mem_append_right _ hname)
    · exact (h.wellFormed_after.writable _ _ hfile).plain name (List.mem_append_right _ hname)
  · rintro rfl
    rw [List.append_nil, h.root_before, h.root_after] at hfile
    rcases hfile with hfile | hfile <;> cases hfile

/-- A changed file has plain names, and there are some. -/
lemma plain_of_isChanged (h : p.Regular x) (hchanged : p.IsChanged names) :
    (∀ name ∈ names, Path.IsPlainName name) ∧ names ≠ [] := by
  cases hbefore : p.before.fileAt? (p.root ++ names) with
  | some content => exact h.plain_of_fileAt? (Or.inl hbefore)
  | none =>
    cases hafter : p.after.fileAt? (p.root ++ names) with
    | some content => exact h.plain_of_fileAt? (Or.inr hafter)
    | none => exact absurd (hbefore.trans hafter.symm) hchanged

/-- The names of the root are plain. -/
lemma plain_root (h : p.Regular x) : ∀ name ∈ p.root, Path.IsPlainName name :=
  (h.wellFormed_after.writable _ _ h.root_after).plain

/-- The text under which a changed file is filed gives its names. -/
lemma pieces_intercalate (h : p.Regular x) (hchanged : p.IsChanged names) :
    Path.pieces ("/".intercalate names) = names := by
  obtain ⟨hplain, hne⟩ := h.plain_of_isChanged hchanged
  exact Path.pieces_intercalate hne fun name hname => (hplain name hname).2.2.2

/-- The path that a search forms of the names of a changed file is that of its place. -/
lemma join_eq (h : p.Regular x) (hchanged : p.IsChanged names) :
    Path.join (pathOf p.root) ("/".intercalate names) = pathOf (p.root ++ names) := by
  obtain ⟨hplain, hne⟩ := h.plain_of_isChanged hchanged
  exact Path.join_ofNames p.root hne h.plain_root hplain

/-- Spellings of one path report about one file. -/
lemma names_eq (h : p.Regular x) (hc : p.Reports c names) (hc' : p.Reports c' names')
    (heq : Path.components c.path = Path.components c'.path) : names = names' := by
  rw [hc.spelled, hc'.spelled] at heq
  have hplain : ∀ {ns}, p.IsChanged ns → ∀ name ∈ p.root ++ ns, Path.IsPlainName name :=
    fun hchanged name hname => (List.mem_append.mp hname).elim (h.plain_root name)
      ((h.plain_of_isChanged hchanged).1 name)
  rw [pathOf, pathOf, Path.components_ofNames (hplain hc.changed),
    Path.components_ofNames (hplain hc'.changed)] at heq
  have hnames := (List.map_inj_right fun a b hab => Component.name.inj hab).mp (List.cons.inj heq).2
  exact List.append_cancel_left hnames

/-- A reported file is filed under its names. -/
lemma relative_eq (h : p.Regular x) (hc : p.Reports c names) :
    Path.relative (pathOf p.root) c.path = "/".intercalate names :=
  Path.relative_ofNames h.plain_root (h.plain_of_isChanged hc.changed).1 hc.spelled

/-- The place of a watched changed file is that of no document. -/
lemma not_isDocument (h : p.Regular x) (hchanged : p.IsChanged names)
    (hwatched : p.watches x names = true) : ¬IsDocument (p.root ++ names) := by
  intro hdoc
  have haccepts := accepts_document h.ne_json (h.plain_of_isChanged hchanged).2 hdoc
  rw [h.join_eq hchanged] at haccepts
  rw [watches, haccepts, Bool.false_and] at hwatched
  cases hwatched

/-! ### The source files before and after -/

/-- Extractions of source files may stand side by side. -/
lemma compatible (h : p.Regular x) : FileEdit.Compatible (p.versions x) where
  wellFormed := by
    rintro v hv
    have hids := h.nodup_ids v hv
    obtain ⟨t, -, names, content, -, -, rfl⟩ := hv
    unfold Indexer.extractionOf at hids ⊢
    cases hextract : content.extract x.measurer ("/".intercalate names) with
    | error cause => exact ⟨by simp [Except.toOption], by simp [Except.toOption],
        by simp [Except.toOption], by simp [Except.toOption]⟩
    | ok e =>
      rw [hextract] at hids
      exact (FileContent.speaksOf_of_extract hextract).wellFormed hids
  id_ne := h.id_ne

/-- The files that were listed before can be read. -/
lemma readable_before (h : p.Regular x) :
    p.before.ReadableSources x.settings.indexing p.root :=
  h.wellFormed_before.readableSources h.root_before

/-- The files that are listed afterwards can be read. -/
lemma readable_after (h : p.Regular x) : p.after.ReadableSources x.settings.indexing p.root :=
  h.wellFormed_after.readableSources h.root_after

/-- The source files before the change are versions of them. -/
lemma mem_versions_before (h : p.Regular x) (he : (x.sourceFiles p.before p.root)[file]? = some e) :
    (file, e) ∈ p.versions x := by
  obtain ⟨names, content, hlisted, rfl, rfl⟩ :=
    (Indexer.getElem?_sourceFiles_iff h.readable_before).mp he
  exact mem_versions_of_listed (by simp) h.readable_before hlisted

/-- The source files after the change are versions of them. -/
lemma mem_versions_after (h : p.Regular x) (he : (x.sourceFiles p.after p.root)[file]? = some e) :
    (file, e) ∈ p.versions x := by
  obtain ⟨names, content, hlisted, rfl, rfl⟩ :=
    (Indexer.getElem?_sourceFiles_iff h.readable_after).mp he
  exact mem_versions_of_listed (by simp) h.readable_after hlisted

/-- The source files before the change fit together. -/
lemma wellFormed_sourceFiles_before (h : p.Regular x) :
    (x.sourceFiles p.before p.root).WellFormed :=
  h.compatible.wellFormed_files fun _ _ => h.mem_versions_before

/-- The source files after the change fit together. -/
lemma wellFormed_sourceFiles_after (h : p.Regular x) :
    (x.sourceFiles p.after p.root).WellFormed :=
  h.compatible.wellFormed_files fun _ _ => h.mem_versions_after

/-- Documents that are added make no difference to the source files. -/
lemma sourceFiles_eq (h : p.Regular x) (ht : p.after.AddsDocuments t) :
    x.sourceFiles t p.root = x.sourceFiles p.after p.root := by
  have hread : t.ReadableSources x.settings.indexing p.root :=
    ht.readableSources h.wellFormed_after h.plain_ignoreFiles h.ne_json h.root_after
  refine ExtTreeMap.ext_getElem? fun file => Option.ext fun e => ?_
  rw [Indexer.getElem?_sourceFiles_iff hread, Indexer.getElem?_sourceFiles_iff h.readable_after]
  simp only [ht.listed_iff h.wellFormed_after h.plain_ignoreFiles h.ne_json h.root_after]

/-- A file that did not change is listed afterwards if it was listed before. -/
lemma listed_iff_of_not_isChanged (h : p.Regular x) (hsame : ¬p.IsChanged names)
    (content : FileContent) :
    p.before.Listed x.settings.indexing p.root names content ↔
      p.after.Listed x.settings.indexing p.root names content := by
  have hfile : p.before.entry? (p.root ++ names) = some (.file content) ↔
      p.after.entry? (p.root ++ names) = some (.file content) := by
    rw [← fileAt?_eq_some_iff, ← fileAt?_eq_some_iff, not_not.mp hsame]
  have hkept : p.before.entry? (p.root ++ names) = some (.file content) →
      (p.before.walkRules x.settings.indexing p.root).keeps names =
        (p.after.walkRules x.settings.indexing p.root).keeps names := fun hbefore =>
    keeps_walkRules_congr (h.wellFormed_before.reaches hbefore)
      (h.wellFormed_after.reaches (hfile.mp hbefore)) h.same_rules
  constructor
  · rintro ⟨hentry, hindexed, hkeeps⟩
    exact ⟨hfile.mp hentry, hindexed, (hkept hentry).symm.trans hkeeps⟩
  · rintro ⟨hentry, hindexed, hkeeps⟩
    exact ⟨hfile.mpr hentry, hindexed, (hkept (hfile.mpr hentry)).trans hkeeps⟩

/-! ### What the live index makes of the change -/

/-- What is held of a watched changed file is extracted from it now. -/
lemma followed_of_watches (h : p.Regular x) (hchanged : p.IsChanged names)
    (hwatched : p.watches x names = true) :
    p.followed x ("/".intercalate names) =
      (p.after.fileAt? (p.root ++ names)).map (x.extractionOf ("/".intercalate names)) := by
  rw [followed, h.pieces_intercalate hchanged, if_pos ⟨hchanged, hwatched⟩]

/-- What is held of any file is a version of it. -/
lemma mem_versions_followed (h : p.Regular x) (he : p.followed x file = some e) :
    (file, e) ∈ p.versions x := by
  unfold followed at he
  split_ifs at he with hwatched
  · obtain ⟨content, hcontent, rfl⟩ := Option.map_eq_some_iff.mp he
    refine ⟨p.after, by simp, Path.pieces file, content, hcontent, ?_, ?_⟩
    · exact (Bool.and_eq_true _ _ ▸ hwatched.2).1
    · rw [Path.intercalate_pieces]
  · exact h.mem_versions_before he

/-- If the two filters agree on the changed files, what is held is what a full build sees. -/
lemma followed_eq (h : p.Regular x) (hfollows : p.WalkFollows x) (file : String) :
    p.followed x file = (x.sourceFiles p.after p.root)[file]? := by
  ext e
  rw [Indexer.getElem?_sourceFiles_eq_some_iff h.readable_after]
  unfold followed
  split_ifs with hwatched
  · simp only [Option.map_eq_some_iff]
    constructor
    · rintro ⟨content, hcontent, rfl⟩
      exact ⟨content, (hfollows _ hwatched.1).1 hwatched.2 content hcontent, rfl⟩
    · rintro ⟨content, hlisted, rfl⟩
      exact ⟨content, fileAt?_eq_some_iff.mpr hlisted.entry, rfl⟩
  · rw [Indexer.getElem?_sourceFiles_eq_some_iff h.readable_before]
    refine exists_congr fun content => and_congr_left fun _ => ?_
    by_cases hchanged : p.IsChanged (Path.pieces file)
    · have hnot : p.watches x (Path.pieces file) = false :=
        Bool.eq_false_iff.mpr fun htrue => hwatched ⟨hchanged, htrue⟩
      have hneither := (hfollows _ hchanged).2 hnot content
      exact iff_of_false hneither.1 hneither.2
    · exact h.listed_iff_of_not_isChanged hchanged content

/-- A changed file is listed exactly if it is among the source files. -/
lemma isSome_sourceFiles_iff (h : p.Regular x) (hchanged : p.IsChanged names)
    (hread : t.ReadableSources x.settings.indexing p.root) :
    ((x.sourceFiles t p.root)["/".intercalate names]?).isSome ↔
      ∃ content, t.Listed x.settings.indexing p.root names content := by
  rw [Option.isSome_iff_exists]
  simp only [Indexer.getElem?_sourceFiles_eq_some_iff hread, h.pieces_intercalate hchanged]
  constructor
  · rintro ⟨e, content, hlisted, -⟩
    exact ⟨content, hlisted⟩
  · rintro ⟨content, hlisted⟩
    exact ⟨_, content, hlisted, rfl⟩

/-- If the live index holds the files that a full build sees, the two filters agree on the changed
files, as far as no file was listed all the time and yet not watched. -/
lemma walkFollows_of_isSome_iff (h : p.Regular x) (hapart : p.UnwatchedApart x)
    (hsame : ∀ file, (p.followed x file).isSome ↔
      ((x.sourceFiles p.after p.root)[file]?).isSome) : p.WalkFollows x := by
  intro names hchanged
  have hnames := hsame ("/".intercalate names)
  rw [h.isSome_sourceFiles_iff hchanged h.readable_after] at hnames
  constructor
  · intro hwatched content hcontent
    rw [h.followed_of_watches hchanged hwatched, hcontent] at hnames
    obtain ⟨content', hlisted⟩ := hnames.mp rfl
    have hcontent' := fileAt?_eq_some_iff.mpr hlisted.entry
    rw [hcontent] at hcontent'
    rwa [Option.some.inj hcontent']
  · intro hnot content
    have hfollowed : p.followed x ("/".intercalate names) =
        (x.sourceFiles p.before p.root)["/".intercalate names]? := by
      rw [followed, h.pieces_intercalate hchanged,
        if_neg fun hwatched => by simp [hnot] at hwatched]
    rw [hfollowed, h.isSome_sourceFiles_iff hchanged h.readable_before] at hnames
    constructor
    · intro hbefore
      obtain ⟨content', hafter⟩ := hnames.mp ⟨content, hbefore⟩
      exact hapart names content content' hchanged hnot hbefore hafter
    · intro hafter
      obtain ⟨content', hbefore⟩ := hnames.mpr ⟨content, hafter⟩
      exact hapart names content' content hchanged hnot hbefore hafter

end Regular

end ProjectChange

end CodeAtlas
