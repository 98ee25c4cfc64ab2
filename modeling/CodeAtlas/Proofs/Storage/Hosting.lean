import CodeAtlas.Proofs.Storage.Beside

/-!
# What writing an index leaves alone

In an index directory that hosts projects (`IndexDirectory.Hosts`), writing an index makes
directories where all projects have theirs and writes documents in the places of its own project,
whatever comes of it (`IndexDirectory.Hosts.persist`).

It takes the assumption that descriptions say what they stand for: one that stood in the place of a
project and named another would be brought up to date in the place of the other.
-/

namespace CodeAtlas

open CodeAtlas.Action CodeAtlas.FileTree

namespace IndexDirectory

variable {d : IndexDirectory} {base place : Place} {id path : String} {t t' : FileTree}

/-! ### Where directories are made -/

/-- An index directory stays where it is and free of links, and directories are made for indexes
alone. -/
def MakesInside (d : IndexDirectory) (base : Place) (t t' : FileTree) : Prop :=
  d.IsAt base t → IsFreeOfLinks base t → d.IsAt base t' ∧ IsFreeOfLinks base t' ∧
    ∀ place, t'.entry? place = some .directory →
      t.entry? place = some .directory ∨ place ∈ directories base

instance (d : IndexDirectory) (base : Place) : Std.Refl (MakesInside d base) :=
  ⟨fun _ h hfree => ⟨h, hfree, fun _ => Or.inl⟩⟩

instance (d : IndexDirectory) (base : Place) : IsTrans FileTree (MakesInside d base) where
  trans _ _ _ h h' hd hfree :=
    have hnext := h hd hfree
    have hlast := h' hnext.1 hnext.2.1
    ⟨hlast.1, hlast.2.1, fun place hdir =>
      (hlast.2.2 place hdir).elim (hnext.2.2 place) Or.inr⟩

/-- An entry that is put is no link, and a directory only where one is made; no directory is in its
place. -/
lemma makesInside_put {e : FileEntry} (he : ∀ target, e ≠ .link target)
    (hnot : t.entry? place ≠ some .directory)
    (hdir : d.IsAt base t → IsFreeOfLinks base t → e = .directory → place ∈ directories base) :
    MakesInside d base t (t.put place e) := by
  intro hd hfree
  refine ⟨⟨hd.toSpells.congr rfl ?_⟩, fun q hq target htarget => ?_, fun p hp => ?_⟩
  · rw [entry?_put_of_ne, hd.start]
    rintro heq
    exact hnot (heq ▸ hd.start)
  · rw [entry?_put] at htarget
    split_ifs at htarget
    · exact he target (Option.some.inj htarget)
    · exact hfree q hq target htarget
  · rw [entry?_put] at hp
    split_ifs at hp with hsame
    · exact Or.inr (hsame.1 ▸ hdir hd hfree (Option.some.inj hp))
    · exact Or.inl hp

/-- A directory for indexes is made among those for indexes. -/
lemma keeps_makeDirectories (hplace : place ∈ directories base)
    (hpath : ∀ {t}, d.IsAt base t → t.Names path place) :
    Keeps (MakesInside d base) (Storage.makeDirectories path) := by
  have hfirst : Keeps (MakesInside d base) (makeFirst (pathsUpward path)) := by
    refine keeps_makeFirst fun upward hupward t t' hmake => ?_
    unfold makeDirectory at hmake
    cases hlocate : t.locate upward false with
    | error e => simp [hlocate] at hmake
    | ok p =>
      cases hentry : t.entry? p with
      | some e => simp [hlocate, hentry] at hmake
      | none =>
        simp only [hlocate, hentry, Except.ok.injEq] at hmake
        rw [← hmake]
        refine makesInside_put (by simp) (by simp [hentry]) fun hd hfree _ => ?_
        -- What is tried is a text of a place on the way to the directory.
        obtain ⟨above, below, rfl, habove⟩ :=
          (climbs_pathsUpward (hpath hd).toSpells).exists_of_mem hupward
        have hdirectory := directories_of_append hplace
        have hstraight : t.IsStraight above := by
          rintro first rest rfl target
          exact hfree first (area_of_append (directories_subset_area base hdirectory)) target
        rwa [hstraight.eq_of_locate habove hlocate]
  exact hfirst.adapt _

/-- Writing a document makes no directory. -/
lemma keeps_writeDocument (d : IndexDirectory) (base : Place) (path : String) (document : Json) :
    Keeps (MakesInside d base) (Storage.writeDocument path document) := by
  intro t
  rcases hrun : (Storage.writeDocument path document).runOn t with ⟨outcome, t'⟩
  rcases Storage.writeDocument_cases hrun with ⟨e, -, rfl⟩ | ⟨-, place, -, hnot, rfl⟩
  · exact Std.Refl.refl _
  · exact makesInside_put (by simp) hnot (by simp)

/-- Looking for a description makes no directory. -/
lemma keeps_get?_makesInside (d : IndexDirectory) (base : Place) (id : String) :
    Keeps (MakesInside d base) (d.get? id) := by
  intro t
  rcases hrun : (d.get? id).runOn t with ⟨outcome, t'⟩
  obtain ⟨rfl, -⟩ := get?_cases hrun
  exact Std.Refl.refl _

variable {index : ProjectIndex} {change : IndexMetadata → IndexMetadata} {now : Timestamp}

/-- Writing an index makes directories among those for indexes. -/
lemma keeps_write (d : IndexDirectory) (base : Place) (hid : Path.IsPlainName index.projectId)
    (change : IndexMetadata → IndexMetadata) (now : Timestamp) :
    Keeps (MakesInside d base)
      ((d.snapshots index.projectId).save index.snapshot index.graph >>= fun _ =>
        d.describe index change now) := by
  have hprojects : Keeps (MakesInside d base)
      (Storage.makeDirectories (d.dataDirectory index.projectId)) :=
    keeps_makeDirectories (Or.inr ⟨_, List.prefix_rfl⟩) fun hd => hd.names_dataDirectory hid
  have hdescriptions : Keeps (MakesInside d base) (Storage.makeDirectories d.metadataDirectory) :=
    keeps_makeDirectories (Or.inl List.prefix_rfl) fun hd => hd.names_metadataDirectory
  refine Keeps.bind (Keeps.bind hprojects fun _ => ?_) fun _ => ?_
  · exact Keeps.bind (keeps_writeDocument d base _ _) fun _ => keeps_writeDocument d base _ _
  · refine Keeps.bind (keeps_get?_makesInside d base _) fun old => ?_
    exact Keeps.bind hdescriptions fun _ => keeps_writeDocument d base _ _

/-- An index directory that is given by a text of its place lies there if no links are around. -/
lemma IsAt.liesAt (h : d.IsAt base t) (hfree : IsFreeOfLinks base t) : d.LiesAt base t where
  leads {_ _ _} hgrows hq := by
    have hplace := h.place_eq
    rw [placeOf, ← startOf, hgrows.startOf_eq] at hq
    refine (eq_of_locatePieces_steps h.plain (fun above below hsplit _ target htarget => ?_)
      hq).trans hplace
    refine hfree (_ ++ above) (Or.inl ⟨below, ?_⟩) target ((hgrows.link_iff _ target).mp htarget)
    rw [List.append_assoc, ← hsplit, ← hplace]
    rfl
  ne_link names := hfree _ (Or.inr (List.prefix_append base names))

/-- An index directory is where it was if nothing happens around it, as long as it is looked for
from the same place. -/
lemma IsAt.congr (h : d.IsAt base t) (hstart : t'.startOf d.path = t.startOf d.path)
    (hsame : ∀ q ∈ area base, t'.entry? q = t.entry? q) : d.IsAt base t' :=
  ⟨h.toSpells.congr hstart ((hsame _ (Or.inl h.start_isPrefix)).trans h.start)⟩

/-! ### Index directories that host projects -/

/-- An index directory that is free of links and in which a description that can be read is one of
the project in whose place it stands. -/
structure Hosts (d : IndexDirectory) (base : Place) (t : FileTree) : Prop
    extends d.IsAt base t where
  ne_link : IsFreeOfLinks base t
  own : ∀ id, Path.IsPlainName id → OwnsPlace base t id

/-- No description stands in the place of a snapshot. -/
lemma metadata_notMem_snapshots (base : Place) (id id' : String) :
    (placesIn base id).metadata ∉ (placesIn base id').snapshots := by
  rintro (heq | heq) <;> simp [placesIn] at heq

namespace Hosts

/-- The index directory is where its path says. -/
lemma liesAt (h : d.Hosts base t) : d.LiesAt base t := h.toIsAt.liesAt h.ne_link

/-- What happens elsewhere does not matter, as long as the index directory is looked for from the
same place. -/
lemma congr (h : d.Hosts base t) (hstart : t'.startOf d.path = t.startOf d.path)
    (hsame : ∀ q ∈ area base, t'.entry? q = t.entry? q) : d.Hosts base t' where
  toIsAt := h.toIsAt.congr hstart hsame
  ne_link q hq target htarget := h.ne_link q hq target (hsame q hq ▸ htarget)
  own id hid content m hcontent := by
    rw [fileAt?, hsame _ (all_subset_area base id (Or.inr (Or.inr rfl))), ← fileAt?] at hcontent
    exact h.own id hid content m hcontent

/-- A description that is found once snapshots were written is one of its project. -/
lemma describesOwn (h : d.Hosts base t) (hid : Path.IsPlainName id)
    (hgrows : Grows (placesIn base id).snapshots t t') : d.DescribesOwn t' id := by
  have hown : OwnsPlace base t' id := by
    intro content m hcontent
    rw [hgrows.fileAt?_eq _ (metadata_notMem_snapshots base id id)] at hcontent
    exact h.own id hid content m hcontent
  exact hown.describesOwn (h.liesAt.grows hgrows) hid

/-- Wherever the writing of an index stops, no other documents than those of its project are
written, and descriptions say what they stand for. -/
lemma stopsAfter {n : Nat} (h : d.Hosts base t) (hid : Path.IsPlainName index.projectId)
    (hchange : ∀ m, (change m).projectId = m.projectId)
    (hstops : Storage.StopsAfter n (d.writeSteps index change now) t t') :
    Grows (placesIn base index.projectId).all t t' ∧
      ∀ id, Path.IsPlainName id → OwnsPlace base t' id := by
  -- Before the description is written all descriptions are as they were.
  have hbefore : ∀ {touched}, touched ⊆ (placesIn base index.projectId).snapshots →
      Grows touched t t' → Grows (placesIn base index.projectId).all t t' ∧
        ∀ id, Path.IsPlainName id → OwnsPlace base t' id := by
    refine fun hsub hgrows => ⟨hgrows.mono (hsub.trans (DocumentPlaces.snapshots_subset_all _)), ?_⟩
    intro id hplain content m hcontent
    rw [hgrows.fileAt?_eq _ fun hin => metadata_notMem_snapshots base id _ (hsub hin)] at hcontent
    exact h.own id hplain content m hcontent
  rcases (h.liesAt.leadsTo hid).stopsAfter (distinct_placesIn base _) (fun _ => h.describesOwn hid)
      hchange hstops with
    ⟨-, hgrows⟩ | ⟨-, hgrows, -⟩ | ⟨-, hgrows, -⟩ | ⟨-, hgrows, old, hnew, -, -, hstands⟩
  · exact hbefore (Set.empty_subset _) hgrows
  · exact hbefore (Set.singleton_subset_iff.mpr (Or.inl rfl)) hgrows
  · exact hbefore subset_rfl hgrows
  · refine ⟨hgrows, fun id hplain content m hcontent hm => ?_⟩
    by_cases hsame : id = index.projectId
    · rw [hsame, fileAt?_eq_some_iff, hstands.entry?_eq] at hcontent
      rw [← FileEntry.file.inj (Option.some.inj hcontent)] at hm
      rw [IndexMetadata.projectId_of_description? hm, hnew, hsame]
    · rw [hgrows.fileAt?_eq _ (notMem_placesIn base hsame _ (Or.inr (Or.inr rfl)))] at hcontent
      exact h.own id hplain content m hcontent hm

variable {x : Indexer} {w w' : Workspace} {outcome : Except IndexError IndexMetadata}

/-- Whatever comes of writing an index, nothing but the files has changed, and there in the places
of the project alone; and the index directory still hosts projects. -/
lemma persist (h : x.directory.Hosts base w.files) (hid : Path.IsPlainName index.projectId)
    (hchange : ∀ m, (change m).projectId = m.projectId)
    (hrun : (x.persist index change).runOn w = (outcome, w')) :
    ∃ t', w' = { w with files := t' } ∧ x.directory.Hosts base t' ∧
      Extends (directories base) (placesIn base index.projectId).all w.files t' := by
  obtain ⟨n, t', rfl, hstops, -⟩ := Indexer.stopsAfter_persist hrun
  obtain ⟨done, made, hwrite, hmade, -⟩ := Indexer.files_of_persist hrun
  obtain rfl : t' = made := congrArg Workspace.files hmade
  have hmakes := keeps_write x.directory base hid change w.clock.now w.files
  rw [hwrite] at hmakes
  obtain ⟨hd, hfree, hdirectories⟩ := hmakes h.toIsAt h.ne_link
  obtain ⟨hgrows, hown⟩ := h.stopsAfter hid hchange hstops
  exact ⟨t', rfl, ⟨hd, hfree, hown⟩, hgrows, hdirectories⟩

end Hosts

end IndexDirectory

end CodeAtlas
