import CodeAtlas.Proofs.Storage.Interruption

/-!
# The description that is there already

Bringing a description up to date begins with reading the one that is there, and what comes of it
depends on the bytes in its place alone: there are none, they are a description
(`FileContent.description?`), or they are something else.
-/

namespace CodeAtlas

open CodeAtlas.Action CodeAtlas.FileTree

/-- The description that the bytes of a file make. -/
def FileContent.description? (content : FileContent) : Option IndexMetadata :=
  (String.fromUTF8? content.bytes).bind fun text =>
    (Json.parse? text).bind IndexMetadata.ofJson?

/-- The description in a written document is what its text is read as. -/
lemma IndexMetadata.description?_fileOf (m : IndexMetadata) :
    (Storage.fileOf m.toJson).description? = (Json.parse? m.toJson.pretty).bind ofJson? := by
  rw [FileContent.description?, Storage.fileOf, fromUTF8?_toUTF8, Option.bind_some]

/-- A written description that can be read back is one of the same project. -/
lemma IndexMetadata.projectId_of_description? {m m' : IndexMetadata}
    (h : (Storage.fileOf m.toJson).description? = some m') : m'.projectId = m.projectId :=
  projectId_of_parse?_pretty (m.description?_fileOf ▸ h)

namespace IndexDirectory

variable {d : IndexDirectory} {id : String} {base : Place} {t t' : FileTree}
  {content : FileContent} {m : IndexMetadata}

/-! ### Looking for a description -/

/-- What can be read is a file. -/
lemma isFile_of_read {path : String} (h : t.read path = .ok content) : t.isFile path = true := by
  rw [FileTree.read] at h
  cases hfind : t.find? path with
  | error e =>
    rw [hfind] at h
    cases h
  | ok found =>
    obtain ⟨place, e⟩ := found
    rw [hfind] at h
    rw [FileTree.isFile, lookup?, hfind]
    cases e with
    | file c => rfl
    | directory => cases h
    | link target => cases h

/-- What is read as a text is a file that is read. -/
lemma exists_read_of_readText {path text : String} (h : t.readText path = .ok text) :
    ∃ content, t.read path = .ok content := by
  rw [readText] at h
  cases hread : t.read path with
  | error e =>
    rw [hread] at h
    cases h
  | ok content => exact ⟨content, rfl⟩

/-- A file is there. -/
lemma exists?_of_isFile {path : String} (h : t.isFile path = true) : t.exists? path = true := by
  rw [FileTree.isFile] at h
  rw [FileTree.exists?]
  cases hlookup : t.lookup? path with
  | none => simp [hlookup] at h
  | some e => rfl

/-- Nothing is found where nothing is. -/
lemma runOn_get?_of_not_exists (h : t.exists? (d.metadataPath id) = false) :
    (d.get? id).runOn t = (.ok none, t) := by
  unfold get?
  rw [runOn_bind_of_ok (runOn_get t), h]
  rfl

/-- A description is found. -/
lemma runOn_get?_of_description (h : t.read (d.metadataPath id) = .ok content)
    (hm : content.description? = some m) : (d.get? id).runOn t = (.ok (some m), t) := by
  obtain ⟨text, htext, hparse⟩ := Option.bind_eq_some_iff.mp hm
  have hread : t.readText (d.metadataPath id) = .ok text := by
    rw [readText, h]
    simp only [htext]
  have hfirst : (Action.read (StorageError.io (d.metadataPath id))
      fun t => t.readText (d.metadataPath id)).runOn t = (.ok text, t) :=
    runOn_read_eq_ok_iff.mpr ⟨hread, rfl⟩
  have hdocument : (Storage.readDocument (d.metadataPath id) IndexMetadata.ofJson?).runOn t =
      (.ok m, t) := by
    unfold Storage.readDocument
    rw [runOn_bind_of_ok hfirst]
    simp only [hparse, runOn_pure]
  unfold get?
  rw [runOn_bind_of_ok (runOn_get t), if_pos (exists?_of_isFile (isFile_of_read h)),
    runOn_bind_of_ok hdocument]
  rfl

/-- Bytes that make no description are an obstacle. -/
lemma exists_runOn_get?_error (h : t.read (d.metadataPath id) = .ok content)
    (hm : content.description? = none) : ∃ e, (d.get? id).runOn t = (.error e, t) := by
  rcases hrun : (d.get? id).runOn t with ⟨outcome, between⟩
  obtain ⟨rfl, hfound⟩ := get?_cases hrun
  cases outcome with
  | error e => exact ⟨e, rfl⟩
  | ok found =>
    exfalso
    cases found with
    | none =>
      unfold get? at hrun
      rw [runOn_bind_of_ok (runOn_get between), if_pos (exists?_of_isFile (isFile_of_read h)),
        runOn_bind_eq_ok_iff] at hrun
      obtain ⟨m, _, -, hnone⟩ := hrun
      cases Except.ok.inj (Prod.mk.inj hnone).1
    | some m =>
      obtain ⟨text, htext, hparse⟩ := hfound m rfl
      rw [readText, h] at htext
      cases hutf8 : String.fromUTF8? content.bytes with
      | none => simp [hutf8] at htext
      | some s =>
        simp only [hutf8, Except.ok.injEq] at htext
        rw [FileContent.description?, hutf8, Option.bind_some, htext, hparse] at hm
        cases hm

/-! ### The place of a description -/

/-- What is read as the description of a project stands in its place. -/
lemma LiesAt.fileAt?_of_read (h : d.LiesAt base t) (hid : Path.IsPlainName id)
    (hread : t.read (d.metadataPath id) = .ok content) :
    t.fileAt? (placesIn base id).metadata = some content := by
  rw [FileTree.read] at hread
  cases hfind : t.find? (d.metadataPath id) with
  | error e =>
    rw [hfind] at hread
    cases hread
  | ok found =>
    obtain ⟨q, e⟩ := found
    rw [hfind] at hread
    have hentry := (find?_eq_ok_iff.mp hfind).2
    rw [h.eq_of_find? hid hfind] at hentry
    cases e with
    | file c =>
      obtain rfl : c = content := Except.ok.inj hread
      exact fileAt?_eq_some_iff.mpr hentry
    | directory => cases hread
    | link target => cases hread

/-- Where nothing stands in the place of a description there is none. -/
lemma LiesAt.exists?_eq_false (h : d.LiesAt base t) (hid : Path.IsPlainName id)
    (hnone : t.entry? (placesIn base id).metadata = none) :
    t.exists? (d.metadataPath id) = false := by
  rw [FileTree.exists?, lookup?]
  cases hfind : t.find? (d.metadataPath id) with
  | error e => rfl
  | ok found =>
    obtain ⟨q, e⟩ := found
    have hentry := (find?_eq_ok_iff.mp hfind).2
    rw [h.eq_of_find? hid hfind, hnone] at hentry
    cases hentry

/-- The description in the place of that of a project, if there is one, is its own. -/
def OwnsPlace (base : Place) (t : FileTree) (id : String) : Prop :=
  ∀ content m, t.fileAt? (placesIn base id).metadata = some content →
    content.description? = some m → m.projectId = id

/-- A description that is found is the own one of its project if the one in its place is. -/
lemma OwnsPlace.describesOwn (h : OwnsPlace base t id) (hlies : d.LiesAt base t)
    (hid : Path.IsPlainName id) : d.DescribesOwn t id := by
  intro text m htext hm
  cases hread : t.read (d.metadataPath id) with
  | error e =>
    rw [readText, hread] at htext
    cases htext
  | ok content =>
    refine h content m (hlies.fileAt?_of_read hid hread) ?_
    rw [readText, hread] at htext
    cases hutf8 : String.fromUTF8? content.bytes with
    | none => simp [hutf8] at htext
    | some s =>
      simp only [hutf8, Except.ok.injEq] at htext
      rw [FileContent.description?, hutf8, Option.bind_some, htext, hm]

end IndexDirectory

end CodeAtlas
