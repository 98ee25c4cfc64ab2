import CodeAtlas.Proofs.Files.MakingDirectories
import CodeAtlas.Proofs.Storage.Description

/-!
# Index directories in which other projects are kept

Two trees of files are compared that differ in what is kept of other projects in an index directory
(`IndexDirectory.Beside`): in the second one directories of the index directory may have been made
that are missing in the first, and the documents of other projects may be there or say something
else.

Whatever is done to the documents of a project comes to the same in both trees, failures included,
and leaves trees that differ in this way alone.  The documents are reached through directories that
are made by whoever comes first, so most of the work is to see that it does not matter who did.

The index directory may be given by any text that spells its place (`IndexDirectory.IsAt`), from the
root or from the working directory.
-/

namespace CodeAtlas

open CodeAtlas.Action CodeAtlas.FileTree

namespace IndexDirectory

variable {base start : Place} {id : String} {t t' : FileTree} {q place : Place}
  {name path above : String} {paths : List String}

/-! ### The places of an index directory -/

/-- The places on the way to an index directory and in it. -/
def area (base : Place) : Set Place := {q | q <+: base ∨ base <+: q}

/-- The places where directories are made for indexes. -/
def directories (base : Place) : Set Place :=
  {q | q <+: base ++ ["meta"] ∨ ∃ id, q <+: base ++ ["projects", id]}

/-- The places of the documents of all projects but one. -/
def documentsOfOthers (base : Place) (id : String) : Set Place :=
  {q | ∃ id', Path.IsPlainName id' ∧ id' ≠ id ∧ q ∈ (placesIn base id').all}

/-- No links are around an index directory. -/
def IsFreeOfLinks (base : Place) (t : FileTree) : Prop :=
  ∀ q ∈ area base, ∀ target, t.entry? q ≠ some (.link target)

/-- A place above one around an index directory is one too. -/
lemma area_of_append {above below : Place} (h : above ++ below ∈ area base) :
    above ∈ area base := by
  have habove : above <+: above ++ below := List.prefix_append above below
  rcases h with h | h
  · exact Or.inl (habove.trans h)
  · exact List.prefix_or_prefix_of_prefix habove h

/-- A place above one where a directory is made is one too. -/
lemma directories_of_append {above below : Place} (h : above ++ below ∈ directories base) :
    above ∈ directories base := by
  have habove : above <+: above ++ below := List.prefix_append above below
  rcases h with h | ⟨id, h⟩
  · exact Or.inl (habove.trans h)
  · exact Or.inr ⟨id, habove.trans h⟩

/-- Directories are made around an index directory. -/
lemma directories_subset_area (base : Place) : directories base ⊆ area base := by
  rintro q (h | ⟨id, h⟩)
  · exact List.prefix_or_prefix_of_prefix h (List.prefix_append base _)
  · exact List.prefix_or_prefix_of_prefix h (List.prefix_append base _)

/-- Documents lie in an index directory. -/
lemma all_subset_area (base : Place) (id : String) : (placesIn base id).all ⊆ area base := by
  rintro q (rfl | rfl | rfl) <;> exact Or.inr (List.prefix_append base _)

/-- No directory is made in the place of a document. -/
lemma notMem_directories (h : q ∈ (placesIn base id).all) : q ∉ directories base := by
  rcases h with rfl | rfl | rfl <;>
    simp [directories, placesIn, List.prefix_append_right_inj, List.cons_prefix_cons]

/-- No document of another project lies where a directory is made. -/
lemma notMem_documentsOfOthers_of_directories (h : q ∈ directories base) :
    q ∉ documentsOfOthers base id := fun ⟨_, _, _, hq⟩ => notMem_directories hq h

/-- No document of another project is one of the project. -/
lemma notMem_documentsOfOthers (h : q ∈ (placesIn base id).all) : q ∉ documentsOfOthers base id :=
  fun ⟨_, _, hne, hq⟩ => notMem_placesIn base hne q hq h

/-- A document lies in a directory that is made for it. -/
lemma exists_directory (h : q ∈ (placesIn base id).all) :
    ∃ place name, q = place ++ [name] ∧ place ∈ directories base := by
  rcases h with rfl | rfl | rfl
  · exact ⟨base ++ ["projects", id], "symbols.json", by simp [placesIn],
      Or.inr ⟨id, List.prefix_rfl⟩⟩
  · exact ⟨base ++ ["projects", id], "call_graph.json", by simp [placesIn],
      Or.inr ⟨id, List.prefix_rfl⟩⟩
  · exact ⟨base ++ ["meta"], id ++ ".json", by simp [placesIn], Or.inl List.prefix_rfl⟩

/-- No document of another project is on the way to one of the project. -/
lemma notMem_documentsOfOthers_of_append {above below : Place}
    (h : above ++ below ∈ (placesIn base id).all) : above ∉ documentsOfOthers base id := by
  obtain ⟨place, name, hplace, hdirectory⟩ := exists_directory h
  rcases List.eq_nil_or_concat below with rfl | ⟨front, last, rfl⟩
  · rw [List.append_nil] at h
    exact notMem_documentsOfOthers h
  · rw [List.concat_eq_append, ← List.append_assoc] at hplace
    obtain ⟨rfl, -⟩ := List.append_inj' hplace rfl
    exact notMem_documentsOfOthers_of_directories (directories_of_append hdirectory)

/-! ### Trees that differ in other projects -/

/-- Two trees without links around an index directory that differ in what is kept of other projects
in it. -/
structure Beside (base : Place) (id : String) (t t' : FileTree) : Prop
    extends Extends (directories base) (documentsOfOthers base id) t t' where
  closed : t.IsClosed
  ne_link : IsFreeOfLinks base t

namespace Beside

/-- The ways around an index directory are free of links. -/
lemma isStraight (h : Beside base id t t') (hq : q ∈ area base) : t.IsStraight q := by
  rintro above below rfl target
  exact h.ne_link above (area_of_append hq) target

/-- The ways around an index directory are free of links in the other tree too. -/
lemma isStraight' (h : Beside base id t t') (hq : q ∈ area base) : t'.IsStraight q :=
  (h.isStraight hq).grows h.toGrows

/-- A directory or a file can be put into a directory of both trees. -/
lemma put_both (h : Beside base id t t') {e : FileEntry} (hdir : t.entry? place = some .directory)
    (hkind : t.entry? (place ++ [name]) = some .directory → e = .directory)
    (he : ∀ target, e ≠ .link target) :
    Beside base id (t.put (place ++ [name]) e) (t'.put (place ++ [name]) e) where
  toExtends := h.toExtends.put_both _ _
  closed := h.closed.put hdir hkind
  ne_link q hq target htarget := by
    rw [entry?_put] at htarget
    split_ifs at htarget
    · exact he target (Option.some.inj htarget)
    · exact h.ne_link q hq target htarget

/-- In a directory that is there a directory is made alike. -/
lemma alike_makeOne (h : Beside base id t t') (hpath : t.Names path (place ++ [name]))
    (hplace : place ++ [name] ∈ directories base) (hopen : t.IsOpen (t.startOf path) place)
    (hopen' : t'.IsOpen (t.startOf path) place) :
    Alike (Beside base id) (makeOne path) (makeOne path) t t' := by
  have hpath' := hpath.grows h.toGrows
  have hstraight := h.isStraight (directories_subset_area base hplace)
  have hstraight' := h.isStraight' (directories_subset_area base hplace)
  have hsame := locate_eq_of_isOpen hpath hpath' hopen hopen'
    hstraight.ne_link hstraight'.ne_link
  cases hlocate : t.locate path false with
  | error e =>
    exact .of_runOn (runOn_makeOne_of_locate hlocate (hstraight.locate_eq hpath false).symm)
      (runOn_makeOne_of_locate ((hsame false).trans hlocate)
        (hstraight'.locate_eq hpath' false).symm) h
  | ok p =>
    have htrue := (hstraight.locate_eq hpath false).symm.trans hlocate
    obtain rfl := hstraight.eq_of_locate hpath.toSpells hlocate
    have hlocate' := (hsame false).trans hlocate
    have htrue' := (hsame true).trans htrue
    rcases h.entry?_cases (notMem_documentsOfOthers_of_directories hplace) with
      hentry | ⟨-, hnone, hdir⟩
    · cases hnow : t.entry? (place ++ [name]) with
      | none =>
        exact .of_runOn (runOn_makeOne_of_none hlocate hnow)
          (runOn_makeOne_of_none hlocate' (hentry.trans hnow))
          (h.put_both hopen.directory (by simp) (by simp))
      | some e =>
        exact .of_runOn (runOn_makeOne_of_some hlocate htrue hnow)
          (runOn_makeOne_of_some hlocate' htrue' (hentry.trans hnow)) h
    · -- Somebody else has made the directory already.
      refine .of_runOn (runOn_makeOne_of_none hlocate hnone)
        (runOn_makeOne_of_some hlocate' htrue' hdir)
        ⟨h.toExtends.put_left hnone hdir, h.closed.put hopen.directory (by simp), ?_⟩
      intro q hq target htarget
      rw [entry?_put] at htarget
      split_ifs at htarget
      · cases htarget
      · exact h.ne_link q hq target htarget

/-- A directory of an index directory is made alike with all that are above it, whoever made some of
them before. -/
lemma alike_makeFirst (h : Beside base id t t') (hclimbs : t.Climbs start place paths)
    (hplace : place ∈ directories base) :
    Alike (Beside base id) (makeFirst paths) (makeFirst paths) t t' := by
  induction hclimbs with
  | @here paths hdir hpaths =>
    refine .of_runOn (runOn_makeFirst_here hdir hpaths)
      (runOn_makeFirst_here (h.directory _ hdir) fun path hpath => ?_) h
    rw [h.startOf_eq path]
    exact hpaths path hpath
  | @step place name path paths hclimbs hpath hstart haddressable ih =>
    subst hstart
    have habove := directories_of_append hplace
    have hpath' := hpath.grows h.toGrows
    have hclimbs' := hclimbs.grows h.toGrows
    have hstraight := h.isStraight (directories_subset_area base hplace)
    have hstraight' := h.isStraight' (directories_subset_area base hplace)
    have hwritten : ∀ first rest, place ++ [name] = first ++ rest →
        first ∉ documentsOfOthers base id := fun first rest hsplit =>
      notMem_documentsOfOthers_of_directories (directories_of_append (hsplit ▸ hplace))
    -- First the directories above, and then this one in a directory that is there.
    have hboth : Alike (Beside base id) (makeFirst paths >>= fun _ => makeOne path)
        (makeFirst paths >>= fun _ => makeOne path) t t' := by
      refine (ih habove).bind fun _ u u' hu hu' hbetween => ?_
      have hmakes : Keeps (Grows ∅) (makeFirst paths) :=
        keeps_makeFirst fun _ _ _ _ h => grows_makeDirectory h
      have hgrows := hmakes t
      rw [hu] at hgrows
      have hopen := hclimbs.isOpen_of_makeFirst hstraight.of_append hu
      have hopen' := hclimbs'.isOpen_of_makeFirst hstraight'.of_append hu'
      rw [← hgrows.startOf_eq path] at hopen hopen'
      exact hbetween.alike_makeOne (hpath.grows hgrows) hplace hopen hopen'
    -- Other obstacles than a missing directory stop both at once.
    have hstops : ∀ e, e ≠ .notFound → t.locate path false = .error e →
        t'.locate path false = .error e →
        Alike (Beside base id) (makeFirst (path :: paths)) (makeFirst (path :: paths)) t t' :=
      fun e hne he he' => .of_runOn
        (runOn_makeFirst_of_locate he hne (hstraight.locate_eq hpath false).symm)
        (runOn_makeFirst_of_locate he' hne (hstraight'.locate_eq hpath' false).symm) h
    by_cases hshort : Path.IsAddressable path
    · have hfirst := hclimbs.runOn_makeFirst_cons hpath hstraight hshort (haddressable hshort)
      rw [← h.startOf_eq path] at hclimbs'
      have hfirst' := hclimbs'.runOn_makeFirst_cons hpath' hstraight' hshort (haddressable hshort)
      rcases h.locate_cases h.closed hstraight hpath hwritten false with
        hsame | ⟨-, hnotFound, -, hfar⟩
      · cases hlocate : t.locate path false with
        | ok p =>
          obtain rfl := hstraight.eq_of_locate hpath.toSpells hlocate
          exact hboth.congr (hfirst (Or.inr (Or.inl hlocate)))
            (hfirst' (Or.inr (Or.inl (hsame.trans hlocate))))
        | error e =>
          by_cases hnotFound : e = .notFound
          · rw [hnotFound] at hlocate
            exact hboth.congr (hfirst (Or.inl hlocate)) (hfirst' (Or.inl (hsame.trans hlocate)))
          · exact hstops e hnotFound hlocate (hsame.trans hlocate)
      · exact hboth.congr (hfirst (Or.inl hnotFound)) (hfirst' (Or.inr hfar))
    · obtain ⟨e, hne, he⟩ := exists_locate_eq_error hshort
      exact hstops e hne (he t false) (he t' false)

/-- A directory of an index directory is made alike. -/
lemma alike_makeDirectories (h : Beside base id t t') (hpath : t.Names path place)
    (hplace : place ∈ directories base) :
    Alike (Beside base id) (Storage.makeDirectories path) (Storage.makeDirectories path) t t' :=
  (h.alike_makeFirst (climbs_pathsUpward hpath.toSpells) hplace).adapt _

/-- A directory that was made is open. -/
lemma isOpen_of_makeDirectories {s s' : FileTree} (hstraight : s.IsStraight place)
    (hpath : s.Names path place)
    (hrun : (Storage.makeDirectories path).runOn s = (.ok (), s')) :
    s'.IsOpen (s.startOf path) place := by
  rw [Storage.makeDirectories, runOn_adapt_eq_ok_iff] at hrun
  exact (climbs_pathsUpward hpath.toSpells).isOpen_of_makeFirst hstraight hrun

/-! ### Documents -/

/-- A document of the project is written alike into a directory that is there. -/
lemma alike_writeDocument (h : Beside base id t t') (habove : t.Names above place)
    (hname : Path.IsPlainName name) (hplace : place ++ [name] ∈ (placesIn base id).all)
    (hstart : t.startOf above = start) (hopen : t.IsOpen start place)
    (hopen' : t'.IsOpen start place) (document : Json) :
    Alike (Beside base id) (Storage.writeDocument (Path.join above name) document)
      (Storage.writeDocument (Path.join above name) document) t t' := by
  subst hstart
  have hpath := habove.toSpells.join hname
  have hpath' := hpath.grows h.toGrows
  have hstraight := h.isStraight (all_subset_area base id hplace)
  have hstraight' := h.isStraight' (all_subset_area base id hplace)
  have hsame := locate_eq_of_isOpen hpath hpath' (t.startOf_join above hname ▸ hopen)
    (t.startOf_join above hname ▸ hopen') hstraight.ne_link hstraight'.ne_link false
  have hentry := h.entry?_eq (notMem_directories hplace) (notMem_documentsOfOthers hplace)
  have hbeside : Storage.besideOf t above = Storage.besideOf t' above := by
    rw [Storage.besideOf, Storage.besideOf,
      find?_eq_of_isOpen habove (habove.grows h.toGrows) hopen hopen']
  unfold Storage.writeDocument
  rw [Path.parent?_join habove.endsInStep hname, Option.getD_some]
  refine (Alike.read h hbeside _).bind fun _ u u' hu hu' hbetween => ?_
  obtain ⟨-, rfl⟩ := runOn_read_eq_ok_iff.mp hu
  obtain ⟨-, rfl⟩ := runOn_read_eq_ok_iff.mp hu'
  refine Alike.change h ?_ _
  rw [replace, replace, hsame]
  cases hlocate : u.locate (Path.join above name) false with
  | error e => exact Or.inl ⟨e, rfl, rfl⟩
  | ok p =>
    obtain rfl := hstraight.eq_of_locate hpath.toSpells hlocate
    simp only [hentry]
    by_cases hdir : u.entry? (place ++ [name]) = some .directory
    · exact Or.inl ⟨.isADirectory, by simp only [hdir], by simp only [hdir]⟩
    · have hput : Beside base id (u.put (place ++ [name]) (.file (Storage.fileOf document)))
          (u'.put (place ++ [name]) (.file (Storage.fileOf document))) :=
        h.put_both hopen.directory (fun hd => absurd hd hdir) (by simp)
      refine Or.inr ⟨_, _, ?_, ?_, hput⟩
      · split
        · exact absurd ‹_› hdir
        · rfl
      · split
        · exact absurd ‹_› hdir
        · rfl

/-- A document of the project is there alike. -/
lemma lookup?_eq (h : Beside base id t t') (hpath : t.Names path place)
    (hplace : place ∈ (placesIn base id).all) : t'.lookup? path = t.lookup? path :=
  h.toExtends.lookup?_eq h.closed (h.isStraight (all_subset_area base id hplace)) hpath
    (fun _ _ hsplit => notMem_documentsOfOthers_of_append (hsplit ▸ hplace))
    (notMem_directories hplace)

/-- A document of the project that is there is read alike. -/
lemma alike_readDocument (h : Beside base id t t') (hpath : t.Names path place)
    (hplace : place ∈ (placesIn base id).all) (hthere : t.exists? path = true)
    (read : Json → Option α) :
    Alike (Beside base id) (Storage.readDocument path read) (Storage.readDocument path read)
      t t' := by
  have hfind := h.toExtends.find?_eq h.closed (h.isStraight (all_subset_area base id hplace)) hpath
    (fun _ _ hsplit => notMem_documentsOfOthers_of_append (hsplit ▸ hplace))
    (notMem_directories hplace) hthere
  have htext : t.readText path = t'.readText path := by
    rw [readText, readText, FileTree.read, FileTree.read, hfind]
  refine (Alike.read h htext _).bind fun text u u' _ _ hbetween => ?_
  split
  · exact .pure hbetween _
  · exact .throw hbetween _

end Beside

/-! ### The documents of a project -/

/-- An index directory is given by a text that spells its place: from the root or from the working
directory, by plain names. -/
structure IsAt (d : IndexDirectory) (base : Place) (t : FileTree) : Prop
    extends t.Spells d.path base

namespace IsAt

variable {d : IndexDirectory} {touched : Set Place}

/-- An index directory may be given by the path of its place. -/
lemma of_path (hpath : d.path = pathOf base) (hplain : ∀ name ∈ base, Path.IsPlainName name) :
    d.IsAt base t := ⟨hpath ▸ t.spells_pathOf hplain⟩

/-- The index directory of settings that do not name one is given from the working directory. -/
lemma of_default (indexing : IndexingSettings)
    (h : t.entry? t.workingDirectory = some .directory) :
    IsAt ⟨Settings.resolvedIndexPath { indexing }⟩
      (t.workingDirectory ++ [".symgraph", "index"]) t := by
  have hstart : t.startOf ".symgraph/index" = t.workingDirectory := if_neg (by decide)
  have hsteps : Path.steps ".symgraph/index" = [".symgraph", "index"] := by decide
  refine ⟨⟨hstart ▸ h, ?_, ?_⟩⟩
  · rw [Settings.resolvedIndexPath, hstart, hsteps]
  · rw [Settings.resolvedIndexPath, hsteps]
    decide

/-- An index directory is where it was when the tree has grown. -/
lemma grows (h : d.IsAt base t) (hgrows : Grows touched t t') : d.IsAt base t' :=
  ⟨h.toSpells.grows hgrows⟩

/-- The directory of the descriptions. -/
lemma names_metadataDirectory (h : d.IsAt base t) :
    t.Names d.metadataDirectory (base ++ ["meta"]) := h.toSpells.join (by decide)

/-- The description of a project. -/
lemma names_metadataPath (h : d.IsAt base t) (hid : Path.IsPlainName id) :
    t.Names (d.metadataPath id) (base ++ ["meta"] ++ [id ++ ".json"]) :=
  h.names_metadataDirectory.toSpells.join (isPlainName_metadata hid)

/-- The directory of the snapshots of a project. -/
lemma names_dataDirectory (h : d.IsAt base t) (hid : Path.IsPlainName id) :
    t.Names (d.dataDirectory id) (base ++ ["projects", id]) := by
  have hprojects : t.Names d.projectsDirectory (base ++ ["projects"]) := h.toSpells.join (by decide)
  have hdata := hprojects.toSpells.join hid
  rwa [List.append_assoc] at hdata

/-- The snapshot of a project. -/
lemma names_symbolsPath (h : d.IsAt base t) (hid : Path.IsPlainName id) :
    t.Names (d.snapshots id).symbolsPath (base ++ ["projects", id] ++ ["symbols.json"]) :=
  (h.names_dataDirectory hid).toSpells.join (by decide)

/-- The call graph of a project. -/
lemma names_graphPath (h : d.IsAt base t) (hid : Path.IsPlainName id) :
    t.Names (d.snapshots id).graphPath (base ++ ["projects", id] ++ ["call_graph.json"]) :=
  (h.names_dataDirectory hid).toSpells.join (by decide)

end IsAt

/-- The place of a snapshot is one of the places of a project. -/
lemma mem_all_symbols (base : Place) (id : String) :
    base ++ ["projects", id] ++ ["symbols.json"] ∈ (placesIn base id).all :=
  Or.inl (by simp [placesIn])

/-- So is the place of a call graph. -/
lemma mem_all_graph (base : Place) (id : String) :
    base ++ ["projects", id] ++ ["call_graph.json"] ∈ (placesIn base id).all :=
  Or.inr (Or.inl (by simp [placesIn]))

/-- So is the place of a description. -/
lemma mem_all_metadata (base : Place) (id : String) :
    base ++ ["meta"] ++ [id ++ ".json"] ∈ (placesIn base id).all :=
  Or.inr (Or.inr (by simp [placesIn]))

/-- Where no links are on the way, writing a document lets the tree grow by it. -/
lemma grows_of_writeDocument {s s' : FileTree} (hstraight : s.IsStraight place)
    (hpath : s.Spells path place) {document : Json}
    (hrun : (Storage.writeDocument path document).runOn s = (.ok (), s')) : Grows {place} s s' := by
  obtain ⟨p, hlocate, hgrows, -⟩ := Storage.stands_of_writeDocument hrun fun p target hp => by
    rw [hstraight.eq_of_locate hpath hp]
    exact hstraight.ne_link target
  rwa [hstraight.eq_of_locate hpath hlocate] at hgrows

namespace Beside

variable {d : IndexDirectory}

/-- The snapshots of the project are saved alike. -/
lemma alike_save_snapshots (h : Beside base id t t') (hd : d.IsAt base t)
    (hid : Path.IsPlainName id) (s : Snapshot) (g : CallGraph) :
    Alike (Beside base id) ((d.snapshots id).save s g) ((d.snapshots id).save s g) t t' := by
  have hdata := hd.names_dataDirectory hid
  have hdirectory : base ++ ["projects", id] ∈ directories base := Or.inr ⟨id, List.prefix_rfl⟩
  have harea := directories_subset_area base hdirectory
  have hin := mem_all_symbols base id
  have hdocument := all_subset_area base id hin
  unfold SnapshotDirectory.save
  refine (h.alike_makeDirectories hdata hdirectory).bind fun _ u u' hu hu' hmade => ?_
  have hgrows := Storage.grows_makeDirectories ∅ (d.dataDirectory id) t
  rw [hu] at hgrows
  have hopen := isOpen_of_makeDirectories (h.isStraight harea) hdata hu
  have hopen' := isOpen_of_makeDirectories (h.isStraight' harea) (hdata.grows h.toGrows) hu'
  rw [h.startOf_eq] at hopen'
  have hmadeAt := hd.grows hgrows
  have hsymbols := hmadeAt.names_symbolsPath hid
  refine (hmade.alike_writeDocument (hmadeAt.names_dataDirectory hid) (by decide) hin
    (hgrows.startOf_eq _) hopen hopen' _).bind fun _ v v' hv hv' hwritten => ?_
  have hwrote := grows_of_writeDocument (hmade.isStraight hdocument) hsymbols.toSpells hv
  have hwrote' := grows_of_writeDocument (hmade.isStraight' hdocument)
    (hsymbols.toSpells.grows hmade.toGrows) hv'
  exact hwritten.alike_writeDocument ((hmadeAt.grows hwrote).names_dataDirectory hid) (by decide)
    (mem_all_graph base id) ((hwrote.startOf_eq _).trans (hgrows.startOf_eq _))
    (hopen.grows hwrote) (hopen'.grows hwrote') _

/-- The description of the project is saved alike. -/
lemma alike_save (h : Beside base id t t') (hd : d.IsAt base t) (hid : Path.IsPlainName id)
    {m : IndexMetadata} (hm : m.projectId = id) :
    Alike (Beside base id) (d.save m) (d.save m) t t' := by
  have hmeta := hd.names_metadataDirectory
  have hdirectory : base ++ ["meta"] ∈ directories base := Or.inl List.prefix_rfl
  have harea := directories_subset_area base hdirectory
  unfold save
  rw [hm]
  refine (h.alike_makeDirectories hmeta hdirectory).bind fun _ u u' hu hu' hmade => ?_
  have hgrows := Storage.grows_makeDirectories ∅ d.metadataDirectory t
  rw [hu] at hgrows
  have hopen := isOpen_of_makeDirectories (h.isStraight harea) hmeta hu
  have hopen' := isOpen_of_makeDirectories (h.isStraight' harea) (hmeta.grows h.toGrows) hu'
  rw [h.startOf_eq] at hopen'
  exact hmade.alike_writeDocument (hd.grows hgrows).names_metadataDirectory
    (isPlainName_metadata hid) (mem_all_metadata base id) (hgrows.startOf_eq _) hopen hopen' _

/-- The description of the project is there alike. -/
lemma exists?_eq (h : Beside base id t t') (hd : d.IsAt base t) (hid : Path.IsPlainName id) :
    d.exists? t' id = d.exists? t id := by
  rw [exists?, exists?, isFile, isFile,
    h.lookup?_eq (hd.names_metadataPath hid) (mem_all_metadata base id)]

/-- The description of the project is read alike. -/
lemma alike_get? (h : Beside base id t t') (hd : d.IsAt base t) (hid : Path.IsPlainName id) :
    Alike (Beside base id) (d.get? id) (d.get? id) t t' := by
  have hpath := hd.names_metadataPath hid
  have hin := mem_all_metadata base id
  have hthere : t'.exists? (d.metadataPath id) = t.exists? (d.metadataPath id) := by
    rw [FileTree.exists?, FileTree.exists?, h.lookup?_eq hpath hin]
  unfold get?
  refine .get_bind ?_
  rw [hthere]
  split_ifs with hfound
  · exact (h.alike_readDocument hpath hin hfound _).bind fun m u u' _ _ hread => .pure hread _
  · exact .pure h _

/-- The snapshots of the project are loaded alike. -/
lemma alike_load (h : Beside base id t t') (hd : d.IsAt base t) (hid : Path.IsPlainName id) :
    Alike (Beside base id) (d.snapshots id).load (d.snapshots id).load t t' := by
  have hsymbols := hd.names_symbolsPath hid
  have hgraph := hd.names_graphPath hid
  have hin := mem_all_symbols base id
  have hin' := mem_all_graph base id
  have hboth : (d.snapshots id).exists? t' = (d.snapshots id).exists? t := by
    rw [SnapshotDirectory.exists?, SnapshotDirectory.exists?, isFile, isFile, isFile, isFile,
      h.lookup?_eq hsymbols hin, h.lookup?_eq hgraph hin']
  unfold SnapshotDirectory.load
  refine .get_bind ?_
  rw [hboth]
  split_ifs with hfound
  · rw [SnapshotDirectory.exists?, Bool.and_eq_true] at hfound
    unfold SnapshotDirectory.loadGraph
    refine (h.alike_readDocument hsymbols hin (exists?_of_isFile hfound.1) _).bind
      fun s u u' hu _ hread => ?_
    obtain ⟨rfl, -⟩ := Storage.readDocument_cases hu
    exact (hread.alike_readDocument hgraph hin' (exists?_of_isFile hfound.2) _).bind
      fun g v v' _ _ hread => .pure hread _
  · exact .pure h _

end Beside

end IndexDirectory

end CodeAtlas
