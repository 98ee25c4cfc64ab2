import CodeAtlas.Proofs.Index.OtherProjects

/-!
# The index that stands on disk

After an index was written to the end, its snapshots stand in the index directory and its
description gives its counts (`IndexDirectory.Records`).  That stays so as long as nothing happens
in the index directory or on the way to it, and it is what loading finds.

The counts that a reader of the description is given are those that were written, because a number
that is read back as a count is the number that was written; one that is too large is not read back.
-/

namespace CodeAtlas

open CodeAtlas.Action CodeAtlas.FileTree

namespace FileTree

variable {t t' : FileTree} {place : Place} {path : String} {content : FileContent}

/-- A walk down along names depends on nothing but what stands on the way. -/
lemma locatePieces_eq_of_same {links : Nat} {names : List String}
    (hplain : ∀ name ∈ names, Path.IsPlainName name)
    (hlink : ∀ above below, names = above ++ below → ∀ target,
      t.entry? (place ++ above) ≠ some (.link target))
    (hsame : ∀ above below, names = above ++ below →
      t'.entry? (place ++ above) = t.entry? (place ++ above)) :
    t'.locatePieces false links place names = t.locatePieces false links place names := by
  induction names generalizing place with
  | nil => rw [locatePieces_nil, locatePieces_nil]
  | cons name names ih =>
    rw [List.forall_mem_cons] at hplain
    have hhere : t'.entry? place = t.entry? place := by simpa using hsame [] (name :: names) rfl
    by_cases hdir : t.entry? place = some .directory
    · have hdot : ¬(name = "" ∨ name = ".") := fun h => h.elim hplain.1.1 hplain.1.2.1
      have hfirst := hlink [name] names rfl
      have hfirst' : ∀ target, t'.entry? (place ++ [name]) ≠ some (.link target) :=
        fun target => hsame [name] names rfl ▸ hfirst target
      by_cases hlong : maxNameBytes < name.utf8ByteSize
      · rw [locatePieces_tooLong hdir hdot hplain.1.2.2.1 hlong,
          locatePieces_tooLong (hhere.trans hdir) hdot hplain.1.2.2.1 hlong]
      · rw [locatePieces_name hdir hdot hplain.1.2.2.1 hlong hfirst,
          locatePieces_name (hhere.trans hdir) hdot hplain.1.2.2.1 hlong hfirst']
        refine ih hplain.2 (fun above below heq target => ?_) fun above below heq => ?_
        · rw [List.append_assoc]
          exact hlink (name :: above) below (by rw [heq, List.cons_append]) target
        · rw [List.append_assoc]
          exact hsame (name :: above) below (by rw [heq, List.cons_append])
    · cases hentry : t.entry? place with
      | none => rw [locatePieces_of_none hentry, locatePieces_of_none (hhere.trans hentry)]
      | some e =>
        have he : e ≠ .directory := fun heq => hdir (heq ▸ hentry)
        rw [locatePieces_of_ne_directory hentry he,
          locatePieces_of_ne_directory (hhere.trans hentry) he]

/-- A document to which a way without links leads stands as long as nothing happens on the way and
its text names the same place. -/
lemma Stands.congr (h : t.Stands path place content) (hstraight : t.IsStraight place)
    (hpath : t.Names path place) (hpath' : t'.Names path place)
    (hsame : ∀ above below, place = above ++ below → t'.entry? above = t.entry? above) :
    t'.Stands path place content := by
  have hlocate := h.locate_eq
  have hsplit : ∀ {above below}, Path.steps path = above ++ below →
      place = t.startOf path ++ above ++ below := fun heq => by
    rw [← hpath.place_eq, heq, List.append_assoc]
  refine ⟨?_, (hsame place [] (List.append_nil place).symm).trans h.entry?_eq⟩
  by_cases haddressable : Path.IsAddressable path
  · rw [hpath.locate_eq haddressable] at hlocate
    rw [hpath'.locate_eq haddressable, hpath.toSpells.startOf_eq hpath'.toSpells, ← hlocate]
    exact locatePieces_eq_of_same hpath.plain (fun _ below heq => hstraight _ below (hsplit heq))
      fun _ below heq => hsame _ below (hsplit heq)
  · obtain ⟨e, -, he⟩ := exists_locate_eq_error haddressable
    rw [he] at hlocate
    cases hlocate

end FileTree

/-! ### Counts that are read back -/

/-- A number that is read back as a count is the number that was written; as a decimal it is no
count. -/
lemma Json.eq_of_count? {n k : Nat} {v : Json} (hv : reread? (.nat n) = some v)
    (hk : v.count? = some k) : k = n := by
  have hword : wordValue? (toString (n : Int)).toList = some v := hv
  rw [wordValue?_natural] at hword
  split_ifs at hword
  · rw [← Option.some.inj hword] at hk
    have hcount :
        (if 0 ≤ (n : Int) ∧ (n : Int) < wordValues 64 then some (n : Int).toNat else none) =
          some k := hk
    split_ifs at hcount
    exact (Option.some.inj hcount).symm
  · rw [← Option.some.inj hword] at hk
    cases hk

/-- What is read of a member is what its value is read back as. -/
lemma Json.exists_of_required? {ms vs : List (String × Json)} {name : String} {value : Json}
    {read : Json → Option α} {a : α} (hvs : rereadMembers? ms = some vs)
    (hms : ms.filter (fun m => m.1 == name) = [(name, value)])
    (ha : required? vs name read = some a) : ∃ v, reread? value = some v ∧ read v = some a := by
  have hfilter := filter_of_rereadMembers? hvs name
  rw [hms, rereadMembers?] at hfilter
  obtain ⟨v, hv, hrest⟩ := Option.bind_eq_some_iff.mp hfilter
  rw [rereadMembers?] at hrest
  refine ⟨v, hv, ?_⟩
  rw [required?, field?, ← Option.some.inj hrest] at ha
  exact ha

/-- A description that can be read back gives the counts that were written. -/
lemma IndexMetadata.counts_of_parse?_pretty {m m' : IndexMetadata}
    (h : (Json.parse? m.toJson.pretty).bind ofJson? = some m') :
    m'.symbolCount = m.symbolCount ∧ m'.fileCount = m.fileCount ∧
      m'.callEdgeCount = m.callEdgeCount := by
  rw [m.parse?_pretty] at h
  obtain ⟨j, hj, hm'⟩ := Option.bind_eq_some_iff.mp h
  obtain ⟨vs, hvs, rfl⟩ := Option.map_eq_some_iff.mp hj
  simp only [ofJson?, Json.record?, Option.bind_eq_bind, Option.bind_some,
    Option.bind_eq_some_iff] at hm'
  obtain ⟨_, -, _, -, _, -, symbols, hsymbols, files, hfiles, edges, hedges, _, -, _, -, _, -, _, -,
    heq⟩ := hm'
  rw [← Option.some.inj heq]
  obtain ⟨v, hv, hcount⟩ := Json.exists_of_required? hvs rfl hsymbols
  obtain ⟨v', hv', hcount'⟩ := Json.exists_of_required? hvs rfl hfiles
  obtain ⟨v'', hv'', hcount''⟩ := Json.exists_of_required? hvs rfl hedges
  exact ⟨Json.eq_of_count? hv hcount, Json.eq_of_count? hv' hcount',
    Json.eq_of_count? hv'' hcount''⟩

namespace IndexDirectory

variable {d : IndexDirectory} {base : Place} {id root : String} {t t' : FileTree}
  {index : ProjectIndex} {m : IndexMetadata}

/-- An index stands on disk as it was written: its snapshots, and a description that gives its
counts. -/
structure Records (d : IndexDirectory) (base : Place) (t : FileTree) (index : ProjectIndex) :
    Prop where
  sound : index.Sound
  documents : ∃ m, d.HasDocuments index.projectId (placesIn base index.projectId) t
    (Storage.fileOf index.snapshot.toJson) (Storage.fileOf index.graph.toJson) m ∧ Counts m index

/-- The documents of a project stand as long as nothing happens around the index directory. -/
lemma HasDocuments.congr {symbols graph : FileContent}
    (h : d.HasDocuments id (placesIn base id) t symbols graph m) (hhosts : d.Hosts base t)
    (hid : Path.IsPlainName id) (hstart : t'.startOf d.path = t.startOf d.path)
    (hsame : ∀ q ∈ area base, t'.entry? q = t.entry? q) :
    d.HasDocuments id (placesIn base id) t' symbols graph m := by
  have hd := hhosts.toIsAt
  have hd' := hd.congr hstart hsame
  have hstands : ∀ {path place content}, place ∈ (placesIn base id).all → t.Names path place →
      t'.Names path place → t.Stands path place content → t'.Stands path place content := by
    intro path place content hplace hpath hpath' hstood
    have harea := all_subset_area base id hplace
    refine hstood.congr ?_ hpath hpath' ?_
    · rintro above below rfl
      exact hhosts.ne_link above (area_of_append harea)
    · rintro above below rfl
      exact hsame above (area_of_append harea)
  refine ⟨?_, ?_, ?_, h.projectId_eq, h.distinct⟩
  · have hpath := hd.names_symbolsPath hid
    have hpath' := hd'.names_symbolsPath hid
    rw [List.append_assoc] at hpath hpath'
    exact hstands (Or.inl rfl) hpath hpath' h.symbols
  · have hpath := hd.names_graphPath hid
    have hpath' := hd'.names_graphPath hid
    rw [List.append_assoc] at hpath hpath'
    exact hstands (Or.inr (Or.inl rfl)) hpath hpath' h.graph
  · have hpath := hd.names_metadataPath hid
    have hpath' := hd'.names_metadataPath hid
    rw [List.append_assoc] at hpath hpath'
    exact hstands (Or.inr (Or.inr rfl)) hpath hpath' h.metadata

namespace Records

/-- An index stands on disk as long as nothing happens around the index directory. -/
lemma congr (h : d.Records base t index) (hhosts : d.Hosts base t)
    (hid : Path.IsPlainName index.projectId) (hstart : t'.startOf d.path = t.startOf d.path)
    (hsame : ∀ q ∈ area base, t'.entry? q = t.entry? q) : d.Records base t' index := by
  obtain ⟨m, hdocuments, hcounts⟩ := h.documents
  exact ⟨h.sound, m, hdocuments.congr hhosts hid hstart hsame, hcounts⟩

/-- Its snapshots are read as they were written. -/
lemma runOn_load (h : d.Records base t index) :
    (d.snapshots index.projectId).load.runOn t = (.ok (some (index.snapshot, index.graph)), t) := by
  obtain ⟨m, hdocuments, -⟩ := h.documents
  exact SnapshotDirectory.runOn_load hdocuments.symbols hdocuments.graph

/-- It is loaded as its snapshots say. -/
lemma runOn_loadProject {x : Indexer} {w : Workspace} (h : x.directory.Records base w.files index)
    (root : String) : (x.loadProject index.projectId root).runOn w =
      (.ok (some (.ofSnapshot index.projectId root index.snapshot index.graph)), w) := by
  obtain ⟨m, hdocuments, -⟩ := h.documents
  exact hdocuments.runOn_loadProject root

/-- A reader of the description is given the counts of the index. -/
lemma counts_of_get? (h : d.Records base t index)
    (hget : (d.get? index.projectId).runOn t = (.ok (some m), t')) : Counts m index := by
  obtain ⟨m₀, hdocuments, hcounts⟩ := h.documents
  obtain ⟨-, hread⟩ := get?_cases hget
  obtain ⟨text, htext, hparse⟩ := hread m rfl
  have hpretty : t.readText (d.metadataPath index.projectId) = .ok m₀.toJson.pretty :=
    hdocuments.metadata.readText rfl
  rw [htext] at hpretty
  rw [Except.ok.inj hpretty] at hparse
  obtain ⟨hsymbols, hfiles, hedges⟩ := IndexMetadata.counts_of_parse?_pretty hparse
  exact ⟨hsymbols.trans hcounts.1, hfiles.trans hcounts.2.1, hedges.trans hcounts.2.2⟩

end Records

/-! ### Writing -/

variable {x : Indexer} {w w' : Workspace} {change : IndexMetadata → IndexMetadata}

/-- The description that the writing of an index comes to gives its counts. -/
lemma counts_of_persist (hchange : Indexer.KeepsCounts change)
    (hrun : (x.persist index change).runOn w = (.ok m, w')) : Counts m index := by
  unfold Indexer.persist at hrun
  rw [runOn_bind_of_ok (runOn_get w)] at hrun
  obtain ⟨_, w₁, -, hrun⟩ := runOn_bind_eq_ok_iff.mp hrun
  obtain ⟨old, w₂, -, hrun⟩ := runOn_bind_eq_ok_iff.mp hrun
  obtain ⟨_, w₃, -, hrun⟩ := runOn_bind_eq_ok_iff.mp hrun
  obtain ⟨hm, -⟩ := Prod.mk.inj hrun
  rw [← Except.ok.inj hm]
  exact (hchange (Indexer.describe index old w.clock.now)).2

/-- An index that was written stands on disk. -/
lemma Hosts.records_of_persist (h : x.directory.Hosts base w.files)
    (hid : Path.IsPlainName index.projectId) (hsound : index.Sound)
    (hchange : Indexer.KeepsCounts change) (hrun : (x.persist index change).runOn w = (.ok m, w')) :
    x.directory.Hosts base w'.files ∧ x.directory.Records base w'.files index ∧ Counts m index := by
  obtain ⟨t', rfl, hhosts, -⟩ := h.persist hid (fun m => (hchange m).1) hrun
  obtain ⟨n, written, hw, hstops, hall⟩ := Indexer.stopsAfter_persist hrun
  obtain rfl : t' = written := congrArg Workspace.files hw
  obtain rfl := hall ⟨m, rfl⟩
  refine ⟨hhosts, ⟨hsound, ?_⟩, counts_of_persist hchange hrun⟩
  rcases (h.liesAt.leadsTo hid).stopsAfter (distinct_placesIn base _) (fun _ => h.describesOwn hid)
      (fun m => (hchange m).1) hstops with
    ⟨hn, -⟩ | ⟨hn, -⟩ | ⟨hn, -⟩ | ⟨-, -, old, hnew, hsymbols, hgraph, hmetadata⟩
  · omega
  · omega
  · omega
  · have hcounts := (hchange (Indexer.describe index old w.clock.now)).2
    exact ⟨_, ⟨hsymbols, hgraph, hmetadata, hnew, distinct_placesIn base _⟩, hcounts⟩

end IndexDirectory

end CodeAtlas
