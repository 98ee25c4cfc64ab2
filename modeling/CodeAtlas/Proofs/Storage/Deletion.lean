import CodeAtlas.Proofs.Files.Removal
import CodeAtlas.Storage.IndexDirectory

/-!
# What deleting a project takes away

Deleting a project removes the document of its description and its data directory, both of which are
named by joining the identifier to a directory.  For an identifier that is a plain name these are
two entries of the index directory itself, and nothing else changes, not even where the removal
fails half-way.

An identifier need not be a plain name.  The empty one names the directory of all data directories,
and one with a `..` or a slash may name anything.  For those the frame is broken as soon as anything
but a description of that very name goes.
-/

namespace CodeAtlas.IndexDirectory

open FileTree

variable {d : IndexDirectory} {t : FileTree} {id : String}

/-- The document of a description has a plain name if the identifier has no slash. -/
lemma isPlainName_append_extension (h : '/' ∉ id.toList) : Path.IsPlainName (id ++ extension) := by
  have hchars : (id ++ extension).toList = id.toList ++ ['.', 'j', 's', 'o', 'n'] := by
    rw [String.toList_append]
    rfl
  have hlength : 5 ≤ (id ++ extension).toList.length := by simp [hchars]
  refine ⟨fun heq => ?_, fun heq => ?_, fun heq => ?_, by simp [hchars, h]⟩ <;>
    · rw [heq] at hlength
      revert hlength
      decide

/-- The tree after the data directory of a project was removed, if it was there. -/
def withoutData (d : IndexDirectory) (t : FileTree) (id : String) : FileTree :=
  if t.exists? (d.dataDirectory id) then ((removeDirectory (d.dataDirectory id)).runOn t).2 else t

/-- What a deletion leaves: it stops where the description cannot be removed, and else goes on to
the data directory. -/
lemma runOn_delete_snd (d : IndexDirectory) (t : FileTree) (id : String) :
    ((d.delete id).runOn t).2 =
      if t.exists? (d.metadataPath id) then
        match t.removeFile (d.metadataPath id) with
        | .ok t' => d.withoutData t' id
        | .error _ => t
      else d.withoutData t id := by
  have hdata : ∀ (t : FileTree) (answer : Bool → Bool),
      (Action.runOn (do
        let hadData := (← get).exists? (d.dataDirectory id)
        if hadData then Storage.removeDirectory (d.dataDirectory id)
        return answer hadData) t).2 = d.withoutData t id := by
    intro t answer
    simp only [Action.runOn_bind, Action.runOn_get, withoutData]
    by_cases hexists : t.exists? (d.dataDirectory id)
    · simp only [hexists, if_true, Action.runOn_bind, Storage.removeDirectory, Action.adapt,
        Action.runOn_ofRun]
      generalize (removeDirectory (d.dataDirectory id)).runOn t = result
      obtain ⟨outcome, t'⟩ := result
      cases outcome <;> rfl
    · simp only [hexists, Bool.false_eq_true, if_false, Action.runOn_pure]
  simp only [delete, Action.runOn_bind, Action.runOn_get]
  by_cases hmeta : t.exists? (d.metadataPath id)
  · simp only [hmeta, if_true, Action.runOn_bind, removeMetadata, Action.change,
      Action.runOn_ofRun]
    cases t.removeFile (d.metadataPath id) with
    | error e => rfl
    | ok t' => exact hdata t' (true || ·)
  · simp only [hmeta, Bool.false_eq_true, if_false]
    exact hdata t (false || ·)

/-- Removing the data directory takes away what its path leads to, whatever that is. -/
lemma removedOnly_withoutData (d : IndexDirectory) (t : FileTree) (id : String) :
    t.RemovedOnly (d.withoutData t id)
      {place | ∃ p, t.locate (d.dataDirectory id) false = .ok p ∧ p <+: place} := by
  unfold withoutData
  split_ifs
  · exact removedOnly_removeDirectory t (d.dataDirectory id)
  · exact .refl t _

/-- A deletion takes away what the two paths of the identifier lead to, whatever that is. -/
lemma removedOnly_delete (d : IndexDirectory) (t : FileTree) (id : String) :
    t.RemovedOnly ((d.delete id).runOn t).2
      ({place | t.locate (d.metadataPath id) false = .ok place} ∪
        {place | ∃ p, t.locate (d.dataDirectory id) false = .ok p ∧ p <+: place}) := by
  rw [runOn_delete_snd]
  split_ifs
  · cases hremove : t.removeFile (d.metadataPath id) with
    | error e => exact .refl t _
    | ok t' =>
      have hfirst := removedOnly_removeFile hremove
      -- The data directory is found where it was before the description went.
      refine (hfirst.trans (removedOnly_withoutData d t' id)).mono ?_
      refine Set.union_subset_union_right _ fun place hplace => ?_
      obtain ⟨p, hp, hbelow⟩ := hplace
      exact ⟨p, hfirst.restricts.locate_eq hp, hbelow⟩
  · exact (removedOnly_withoutData d t id).mono Set.subset_union_right

/-! ### The places of a project -/

/-- The place of a description in the index directory itself. -/
def descriptionPlaces (d : IndexDirectory) (t : FileTree) (id : String) : Set Place :=
  {place | ∃ base, t.placeOf d.path = .ok base ∧ place = base ++ ["meta", id ++ extension]}

/-- The data directory of a project in the index directory itself, and the places below it. -/
def dataPlaces (d : IndexDirectory) (t : FileTree) (id : String) : Set Place :=
  {place | ∃ base, t.placeOf d.path = .ok base ∧ base ++ ["projects", id] <+: place}

/-- Neither of the two directories in the index directory is a link to another one. -/
def KeepsInside (d : IndexDirectory) (t : FileTree) : Prop :=
  ∀ base, t.placeOf d.path = .ok base → ∀ name ∈ ["meta", "projects"], ∀ target,
    t.entry? (base ++ [name]) ≠ some (.link target)

/-- A description lies in the index directory itself if the identifier has no slash. -/
lemma mem_descriptionPlaces (hinside : d.KeepsInside t) (hid : '/' ∉ id.toList) {place : Place}
    (hplace : t.locate (d.metadataPath id) false = .ok place) :
    place ∈ d.descriptionPlaces t id := by
  obtain ⟨base', hbase', rfl⟩ := locate_join (isPlainName_append_extension hid) hplace
  obtain ⟨base, hbase, hdown⟩ := placeOf_join (by decide) hbase'
  have hmeta : base' = base ++ ["meta"] := hdown (hinside base hbase "meta" (by simp))
  exact ⟨base, hbase, by simp [hmeta]⟩

/-- The data directory lies in the index directory itself if the identifier is a plain name. -/
lemma mem_dataPlaces (hinside : d.KeepsInside t) (hid : Path.IsPlainName id) {p place : Place}
    (hp : t.locate (d.dataDirectory id) false = .ok p) (hplace : p <+: place) :
    place ∈ d.dataPlaces t id := by
  obtain ⟨base', hbase', rfl⟩ := locate_join hid hp
  obtain ⟨base, hbase, hdown⟩ := placeOf_join (by decide) hbase'
  have hprojects : base' = base ++ ["projects"] := hdown (hinside base hbase "projects" (by simp))
  exact ⟨base, hbase, by simpa [hprojects] using hplace⟩

/-- Deleting a project with a plain name takes away its own description and data alone. -/
lemma removedOnly_delete_of_plain (hinside : d.KeepsInside t) (hid : Path.IsPlainName id) :
    t.RemovedOnly ((d.delete id).runOn t).2 (d.descriptionPlaces t id ∪ d.dataPlaces t id) := by
  refine (removedOnly_delete d t id).mono (Set.union_subset_union ?_ ?_)
  · exact fun place hplace => mem_descriptionPlaces hinside hid.2.2.2 hplace
  · rintro place ⟨p, hp, hbelow⟩
    exact mem_dataPlaces hinside hid hp hbelow

/-- The description and the data of another project are not those of a project. -/
lemma notMem_places_of_ne {base : Place} (hbase : t.placeOf d.path = .ok base) {other : String}
    (hother : other ≠ id) :
    base ++ ["meta", other ++ extension] ∉ d.descriptionPlaces t id ∪ d.dataPlaces t id ∧
      ∀ names, base ++ "projects" :: other :: names ∉
        d.descriptionPlaces t id ∪ d.dataPlaces t id := by
  constructor
  · rintro (⟨base', hbase', heq⟩ | ⟨base', hbase', hbelow⟩)
    · rw [hbase] at hbase'
      obtain rfl := Except.ok.inj hbase'
      exact hother (by simpa using heq)
    · rw [hbase] at hbase'
      obtain rfl := Except.ok.inj hbase'
      simp at hbelow
  · rintro names (⟨base', hbase', heq⟩ | ⟨base', hbase', hbelow⟩)
    · rw [hbase] at hbase'
      obtain rfl := Except.ok.inj hbase'
      simp at heq
    · rw [hbase] at hbase'
      obtain rfl := Except.ok.inj hbase'
      exact hother (by simpa [eq_comm] using hbelow)

/-- A deletion changes nothing but the description and the data of its project exactly if the
identifier is a plain name, or nothing but the description goes anyway.  With a plain name nothing
outside the index directory changes, and nothing of any other project. -/
theorem delete_keeps_others_iff (d : IndexDirectory) (t : FileTree) (id : String)
    (hinside : d.KeepsInside t)
    (hnames : ∀ place e, t.entry? place = some e → ∀ name ∈ place, Path.IsPlainName name) :
    let t' := ((d.delete id).runOn t).2
    ((∀ place, place ∉ d.descriptionPlaces t id ∪ d.dataPlaces t id →
        t'.entry? place = t.entry? place) ↔
      Path.IsPlainName id ∨
        ∀ place, place ∉ d.descriptionPlaces t id → t'.entry? place = t.entry? place) ∧
    (Path.IsPlainName id → ∀ base, t.placeOf d.path = .ok base →
      (∀ place, ¬base <+: place → t'.entry? place = t.entry? place) ∧
      ∀ other, other ≠ id →
        t'.entry? (base ++ ["meta", other ++ extension]) =
          t.entry? (base ++ ["meta", other ++ extension]) ∧
        ∀ names, t'.entry? (base ++ "projects" :: other :: names) =
          t.entry? (base ++ "projects" :: other :: names)) := by
  intro t'
  refine ⟨⟨fun hkept => ?_, ?_⟩, fun hid base hbase => ⟨fun place hplace => ?_,
    fun other hother => ⟨?_, fun names => ?_⟩⟩⟩
  · -- An identifier that is no plain name is not among the names on the way to any entry.
    by_cases hid : Path.IsPlainName id
    · exact Or.inl hid
    · refine Or.inr fun place hplace => by_contra fun hne => ?_
      obtain ⟨e, he⟩ := (removedOnly_delete d t id).exists_of_ne hne
      refine hne (hkept place ?_)
      rintro (hown | ⟨base, -, hbelow⟩)
      · exact hplace hown
      · exact hid (hnames place e he id (hbelow.subset (by simp)))
  · rintro (hid | hkept) place hplace
    · exact (removedOnly_delete_of_plain hinside hid).unchanged place hplace
    · exact hkept place fun hown => hplace (Or.inl hown)
  · refine (removedOnly_delete_of_plain hinside hid).unchanged place ?_
    rintro (⟨base', hbase', rfl⟩ | ⟨base', hbase', hbelow⟩)
    · rw [hbase] at hbase'
      exact hplace (Except.ok.inj hbase' ▸ List.prefix_append base _)
    · rw [hbase] at hbase'
      exact hplace ((List.prefix_append base _).trans (Except.ok.inj hbase' ▸ hbelow))
  · exact (removedOnly_delete_of_plain hinside hid).unchanged _ (notMem_places_of_ne hbase hother).1
  · exact (removedOnly_delete_of_plain hinside hid).unchanged _
      ((notMem_places_of_ne hbase hother).2 names)

/-! ### An index directory with two projects -/

/-- A tree of an index directory with the data of two projects and a description without a name. -/
def twoProjects : FileTree :=
  FileTree.empty.put ["index"] .directory
    |>.put ["index", "meta"] .directory
    |>.put ["index", "meta", ".json"] (.file ⟨.empty, none⟩)
    |>.put ["index", "projects"] .directory
    |>.put ["index", "projects", "a"] .directory
    |>.put ["index", "projects", "a", "symbols.json"] (.file ⟨.empty, none⟩)
    |>.put ["index", "projects", "b"] .directory
    |>.put ["index", "projects", "b", "symbols.json"] (.file ⟨.empty, none⟩)

/-- The path of the index directory leads to its place. -/
lemma placeOf_twoProjects : twoProjects.placeOf "/index" = .ok ["index"] := by
  have hindex : twoProjects.entry? ["index"] = some .directory := by rfl
  have hpieces : Path.pieces "/index" = ["", "index"] := by decide
  have habs : Path.isAbsolute "/index" = true := by decide
  have hsize : "index".utf8ByteSize = 5 := by rfl
  simp [placeOf, hpieces, habs, locatePieces, hindex, hsize, maxNameBytes]

/-- Deleting one project by its plain name keeps the data of the other. -/
theorem delete_keeps_others_of_two :
    (∀ place e, twoProjects.entry? place = some e → ∀ name ∈ place, Path.IsPlainName name) ∧
    KeepsInside ⟨"/index"⟩ twoProjects ∧
    ∀ names, FileTree.entry? ((delete ⟨"/index"⟩ "a").runOn twoProjects).2
        (["index"] ++ "projects" :: "b" :: names) =
      twoProjects.entry? (["index"] ++ "projects" :: "b" :: names) := by
  have hnames : ∀ place e, twoProjects.entry? place = some e →
      ∀ name ∈ place, Path.IsPlainName name := by
    intro place e he
    unfold entry? at he
    split_ifs at he with hroot
    · simp [List.isEmpty_iff.mp hroot]
    · simp only [twoProjects, put, Std.ExtTreeMap.getElem?_insert,
        Std.LawfulEqCmp.compare_eq_iff_eq] at he
      split_ifs at he with h1 h2 h3 h4 h5 h6 h7 h8
      all_goals first | (subst_vars; decide) | simp [FileTree.empty] at he
  have hinside : KeepsInside ⟨"/index"⟩ twoProjects := by
    intro base hbase name hname target htarget
    rw [placeOf_twoProjects] at hbase
    obtain rfl := Except.ok.inj hbase
    simp only [List.mem_cons, List.not_mem_nil, or_false] at hname
    rcases hname with rfl | rfl <;> cases htarget
  refine ⟨hnames, hinside, ?_⟩
  exact (((delete_keeps_others_iff ⟨"/index"⟩ twoProjects "a" hinside hnames).2 (by decide)
    ["index"] placeOf_twoProjects).2 "b" (by decide)).2

/-- The empty identifier takes away the data of all projects. -/
theorem delete_empty_removes_others :
    ¬∀ (d : IndexDirectory) (t : FileTree) (id : String) (base : Place) (other : String)
      (names : List String), t.placeOf d.path = .ok base → other ≠ id →
      FileTree.entry? ((d.delete id).runOn t).2 (base ++ "projects" :: other :: names) =
        t.entry? (base ++ "projects" :: other :: names) := by
  intro hkept
  have hsize : "index".utf8ByteSize = 5 ∧ "meta".utf8ByteSize = 4 ∧ ".json".utf8ByteSize = 5 ∧
      "projects".utf8ByteSize = 8 ∧ "/index/meta/.json".utf8ByteSize = 17 ∧
      "/index/projects/".utf8ByteSize = 16 := ⟨by rfl, by rfl, by rfl, by rfl, by rfl, by rfl⟩
  -- The description of the empty identifier is found and goes.
  have hmeta : metadataPath ⟨"/index"⟩ "" = "/index/meta/.json" := by decide
  have hdescription : ∀ followLast, twoProjects.find? "/index/meta/.json" followLast =
      .ok (["index", "meta", ".json"], .file ⟨.empty, none⟩) := by
    intro followLast
    have hindex : twoProjects.entry? ["index"] = some .directory := by rfl
    have hdir : twoProjects.entry? ["index", "meta"] = some .directory := by rfl
    have hfile : twoProjects.entry? ["index", "meta", ".json"] =
        some (.file ⟨.empty, none⟩) := by rfl
    have hpieces : Path.pieces "/index/meta/.json" = ["", "index", "meta", ".json"] := by decide
    have habs : Path.isAbsolute "/index/meta/.json" = true := by decide
    refine find?_eq_ok_iff.mpr ⟨?_, hfile⟩
    simp [locate, hpieces, habs, locatePieces, hindex, hdir, hfile, hsize, maxNameBytes,
      maxPathBytes]
  -- Then its data directory is found: the directory of all data directories.
  have hprojects : dataDirectory ⟨"/index"⟩ "" = "/index/projects/" := by decide
  have hdata : ∀ followLast, (twoProjects.erase ["index", "meta", ".json"]).find?
      "/index/projects/" followLast = .ok (["index", "projects"], .directory) := by
    intro followLast
    have hindex : FileTree.entry? (twoProjects.erase ["index", "meta", ".json"]) ["index"] =
        some .directory := by rfl
    have hdir : FileTree.entry? (twoProjects.erase ["index", "meta", ".json"])
        ["index", "projects"] = some .directory := by rfl
    have hpieces : Path.pieces "/index/projects/" = ["", "index", "projects", ""] := by decide
    have habs : Path.isAbsolute "/index/projects/" = true := by decide
    refine find?_eq_ok_iff.mpr ⟨?_, hdir⟩
    simp [locate, hpieces, habs, locatePieces, hindex, hdir, hsize, maxNameBytes, maxPathBytes]
  have hgone := entry?_removeDirectory_append (hdata false) (List.cons_ne_nil "a" [])
  have hkept := hkept ⟨"/index"⟩ twoProjects "" ["index"] "a" [] placeOf_twoProjects (by decide)
  rw [runOn_delete_snd, hmeta] at hkept
  simp only [FileTree.exists?, FileTree.lookup?, hdescription, Option.isSome_some, if_true,
    removeFile, withoutData, hprojects, hdata] at hkept
  have hthere : twoProjects.entry? ["index", "projects", "a"] = some .directory := by rfl
  cases hgone.symm.trans (hkept.trans hthere)

end CodeAtlas.IndexDirectory
