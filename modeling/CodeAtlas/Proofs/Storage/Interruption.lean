import CodeAtlas.Proofs.Storage.Replacing
import Mathlib.Logic.Function.Basic

/-!
# What shows while an index is being written

Each document of an index is replaced in one step, but an index is three documents.  This file says
what shows of any project in an index directory in which the writing of an index has stopped
somewhere, when all that was written before was written to the end (`IndexDirectory.Written`).

The first index of a project does not show before it is complete, since the description comes last.
Later ones show as soon as their snapshot is there: between the two snapshots it is the new symbols
that show with the old graph.
-/

namespace CodeAtlas

open CodeAtlas.Action CodeAtlas.FileTree

namespace IndexDirectory

variable {d : IndexDirectory} {id : String} {base : Place} {t t' : FileTree} {touched : Set Place}

/-! ### Index directories without links -/

/-- An index directory lies at a place: however the tree grows, its path leads there, or nowhere as
long as directories are missing, and no links are at that place or below. -/
structure LiesAt (d : IndexDirectory) (base : Place) (t : FileTree) : Prop where
  leads : ∀ {touched : Set Place} {t₁ : FileTree} {q : Place}, Grows touched t t₁ →
    t₁.placeOf d.path = .ok q → q = base
  ne_link : ∀ names target, t.entry? (base ++ names) ≠ some (.link target)

/-- A directory that is there lies at its place. -/
lemma liesAt_of_placeOf (h : t.placeOf d.path = .ok base)
    (hlink : ∀ names target, t.entry? (base ++ names) ≠ some (.link target)) : d.LiesAt base t where
  leads hgrows hq := (Except.ok.inj ((hgrows.placeOf_eq h).symm.trans hq)).symm
  ne_link := hlink

/-- Where there is room for an index and no links are around, its directory lies. -/
lemma AwaitsIndex.liesAt (h : d.AwaitsIndex t base id)
    (hlink : ∀ names target, t.entry? (base ++ names) ≠ some (.link target)) : d.LiesAt base t := by
  have hdir : t.entry? base = some .directory :=
    h.wellFormed.reaches h.metadata.stands base ["meta"] rfl (by simp)
  have hwritable := h.wellFormed.writable base _ hdir
  have habs : Path.isAbsolute (pathOf base) = true := Path.isAbsolute_ofNames base
  refine liesAt_of_placeOf ?_ hlink
  rw [h.path, placeOf, if_pos habs]
  refine (locatePieces_pathOf hwritable.plain).trans ?_
  have hwalk : t.locatePieces true maxLinks [] base = .ok ([] ++ base) :=
    locatePieces_names hwritable.plain hwritable.shortNames (h.wellFormed.reaches hdir)
      (by simp [hdir])
  exact hwalk

/-- The index directory stays where it is when the tree grows. -/
lemma LiesAt.grows (h : d.LiesAt base t) (hgrows : Grows touched t t') : d.LiesAt base t' where
  leads h₁ hq := h.leads ((hgrows.mono Set.subset_union_left).trans
    (h₁.mono Set.subset_union_right)) hq
  ne_link names target htarget := h.ne_link names target ((hgrows.link_iff _ target).mp htarget)

/-- Where the documents of a project lie in an index directory. -/
def placesIn (base : Place) (id : String) : DocumentPlaces where
  symbols := base ++ ["projects", id, "symbols.json"]
  graph := base ++ ["projects", id, "call_graph.json"]
  metadata := base ++ ["meta", id ++ ".json"]

/-- The documents of a project lie apart. -/
lemma distinct_placesIn (base : Place) (id : String) : (placesIn base id).Distinct :=
  ⟨by simp [placesIn], by simp [placesIn], by simp [placesIn]⟩

/-- The documents of two projects lie apart. -/
lemma notMem_placesIn (base : Place) {id id' : String} (h : id ≠ id') :
    ∀ q ∈ (placesIn base id).all, q ∉ (placesIn base id').all := by
  have hmeta : id ++ ".json" ≠ id' ++ ".json" := fun heq => by
    rw [← String.toList_inj, String.toList_append, String.toList_append] at heq
    exact h (String.toList_inj.mp (List.append_cancel_right heq))
  rintro q (rfl | rfl | rfl) <;> simp [placesIn, DocumentPlaces.all, h, hmeta]

/-- A directory that is named below an index directory lies there. -/
lemma LiesAt.placeOf_join (h : d.LiesAt base t) {path name : String} (names : List String)
    (hname : Path.IsPlainName name) (hpath : ∀ q, t.placeOf path = .ok q → q = base ++ names)
    (q : Place) (hq : t.placeOf (Path.join path name) = .ok q) : q = base ++ (names ++ [name]) := by
  obtain ⟨above, habove, hplace⟩ := FileTree.placeOf_join hname hq
  obtain rfl := hpath above habove
  rw [hplace fun target htarget => ?_, List.append_assoc]
  rw [List.append_assoc] at htarget
  exact h.ne_link _ target htarget

/-- The index directory is where it lies. -/
lemma LiesAt.placeOf_path (h : d.LiesAt base t) (q : Place) (hq : t.placeOf d.path = .ok q) :
    q = base ++ [] := by
  rw [List.append_nil]
  exact h.leads (Grows.refl ∅ t) hq

/-- The directory of the descriptions lies in the index directory. -/
lemma LiesAt.placeOf_metadataDirectory (h : d.LiesAt base t) (q : Place)
    (hq : t.placeOf d.metadataDirectory = .ok q) : q = base ++ ["meta"] :=
  h.placeOf_join [] (by decide) h.placeOf_path q hq

/-- The data directory of a project lies below the index directory. -/
lemma LiesAt.placeOf_dataDirectory (h : d.LiesAt base t) (hid : Path.IsPlainName id) (q : Place)
    (hq : t.placeOf (d.dataDirectory id) = .ok q) : q = base ++ ["projects", id] :=
  h.placeOf_join ["projects"] hid (h.placeOf_join [] (by decide) h.placeOf_path) q hq

/-- The paths of the documents of a project lead to their places, or nowhere as long as directories
are missing. -/
lemma LiesAt.leadsTo (h : d.LiesAt base t) (hid : Path.IsPlainName id) :
    d.LeadsTo id (placesIn base id) t := by
  have hname : ∀ {name : String} {q : Place} {t₁ : FileTree} {touched : Set Place},
      Path.IsPlainName name → Grows touched t t₁ →
      t₁.locate (Path.join (d.dataDirectory id) name) false = .ok q →
      q = base ++ ["projects", id, name] := by
    intro name q t₁ touched hname hgrows hq
    obtain ⟨above, habove, rfl⟩ := locate_join hname hq
    rw [(h.grows hgrows).placeOf_dataDirectory hid above habove, List.append_assoc]
    rfl
  refine ⟨hname (by decide), hname (by decide), fun hgrows hq => ?_, fun q hq target => ?_⟩
  · obtain ⟨above, habove, rfl⟩ := locate_join (isPlainName_metadata hid) hq
    rw [(h.grows hgrows).placeOf_metadataDirectory above habove, List.append_assoc]
    rfl
  · rcases hq with rfl | rfl | rfl <;> exact h.ne_link _ target

/-- What the path of a description finds lies at its place. -/
lemma LiesAt.eq_of_find? (h : d.LiesAt base t) (hid : Path.IsPlainName id) {q : Place}
    {e : FileEntry} (hfind : t.find? (d.metadataPath id) = .ok (q, e)) :
    q = (placesIn base id).metadata :=
  h.placeOf_join ["meta"] (isPlainName_metadata hid) h.placeOf_metadataDirectory q
    (locatePieces_of_locate (find?_eq_ok_iff.mp hfind).1)

/-- Without a file at its place there is no description. -/
lemma LiesAt.isFile_metadataPath (h : d.LiesAt base t) (hid : Path.IsPlainName id)
    (hnone : t.fileAt? (placesIn base id).metadata = none) :
    t.isFile (d.metadataPath id) = false := by
  rw [FileTree.isFile, lookup?]
  cases hfind : t.find? (d.metadataPath id) with
  | error e => rfl
  | ok found =>
    obtain ⟨q, e⟩ := found
    have hentry := (find?_eq_ok_iff.mp hfind).2
    rw [h.eq_of_find? hid hfind] at hentry
    cases e with
    | file content =>
      rw [fileAt?_eq_some_iff.mpr hentry] at hnone
      cases hnone
    | directory => rfl
    | link target => rfl

/-- Without a file at its place there is no description to be read. -/
lemma LiesAt.describesOwn (h : d.LiesAt base t) (hid : Path.IsPlainName id)
    (hnone : t.fileAt? (placesIn base id).metadata = none) : d.DescribesOwn t id := by
  intro text m htext
  have hfile := h.isFile_metadataPath hid hnone
  rw [FileTree.isFile, lookup?] at hfile
  rw [readText, FileTree.read] at htext
  cases hfind : t.find? (d.metadataPath id) with
  | error e =>
    rw [hfind] at htext
    cases htext
  | ok found =>
    obtain ⟨q, e⟩ := found
    rw [hfind] at hfile htext
    cases e with
    | file content => cases hfile
    | directory => cases htext
    | link target => cases htext

/-! ### What shows of a project -/

/-- What shows of a project: nothing as long as there is no description, and then what the documents
say. -/
def Shows (d : IndexDirectory) (base : Place) (t : FileTree) (id : String) :
    Option (Snapshot × CallGraph) → Prop
  | none => t.fileAt? (placesIn base id).metadata = none
  | some (s, g) => ∃ m, d.HasDocuments id (placesIn base id) t (Storage.fileOf s.toJson)
      (Storage.fileOf g.toJson) m

/-- What shows of a project shows as long as its documents are left alone. -/
lemma Shows.grows {shown : Option (Snapshot × CallGraph)} (h : d.Shows base t id shown)
    (hgrows : Grows touched t t') (hp : ∀ q ∈ (placesIn base id).all, q ∉ touched) :
    d.Shows base t' id shown := by
  cases shown with
  | none => exact (hgrows.fileAt?_eq _ (hp _ (Or.inr (Or.inr rfl)))).trans h
  | some pair =>
    obtain ⟨m, hm⟩ := h
    exact ⟨m, hm.grows hgrows hp⟩

/-- Nobody else's description is found, as long as it is not written to. -/
lemma Shows.describesOwn {shown : Option (Snapshot × CallGraph)} (h : d.Shows base t id shown)
    (hlies : d.LiesAt base t) (hid : Path.IsPlainName id)
    (hgrows : Grows (placesIn base id).snapshots t t') : d.DescribesOwn t' id := by
  cases shown with
  | none =>
    refine (hlies.grows hgrows).describesOwn hid ((hgrows.fileAt?_eq _ ?_).trans h)
    rintro (heq | heq) <;> simp [placesIn] at heq
  | some pair =>
    obtain ⟨m, hm⟩ := h
    exact hm.describesOwn hgrows

/-- What shows of a project when the writing of an index of it has stopped, by the number of steps
that were done: before the first index is complete nothing, later on what the two snapshots say. -/
def shownAfter (n : Nat) (new : Snapshot × CallGraph) :
    Option (Snapshot × CallGraph) → Option (Snapshot × CallGraph)
  | none => if n < 4 then none else some new
  | some (s, g) => if n < 2 then some (s, g) else if n = 2 then some (new.1, g) else some new

/-- When all steps are done the new index shows. -/
lemma shownAfter_four (new : Snapshot × CallGraph) (shown : Option (Snapshot × CallGraph)) :
    shownAfter 4 new shown = some new := by
  cases shown <;> rfl

variable {index : ProjectIndex} {change : IndexMetadata → IndexMetadata} {now : Timestamp} {n : Nat}
  {shown : Option (Snapshot × CallGraph)}

/-- Where the writing of an index stops, the project shows as many of the documents as were
written. -/
lemma Shows.stopsAfter (h : d.Shows base t index.projectId shown) (hlies : d.LiesAt base t)
    (hid : Path.IsPlainName index.projectId) (hchange : ∀ m, (change m).projectId = m.projectId)
    (hstops : Storage.StopsAfter n (d.writeSteps index change now) t t') :
    d.Shows base t' index.projectId (shownAfter n (index.snapshot, index.graph) shown) ∧
      Grows (placesIn base index.projectId).all t t' := by
  have hcases := (hlies.leadsTo hid).stopsAfter (distinct_placesIn base _)
    (fun t₁ => h.describesOwn hlies hid) hchange hstops
  have hgrows : Grows (placesIn base index.projectId).all t t' := by
    rcases hcases with ⟨-, hgrows⟩ | ⟨-, hgrows, -⟩ | ⟨-, hgrows, -⟩ | ⟨-, hgrows, -⟩
    · exact hgrows.mono (Set.empty_subset _)
    · exact hgrows.mono (by simp [DocumentPlaces.all])
    · exact hgrows.mono (DocumentPlaces.snapshots_subset_all _)
    · exact hgrows
  refine ⟨?_, hgrows⟩
  cases shown with
  | none =>
    have hnone : ∀ {touched : Set Place}, Grows touched t t' →
        touched ⊆ (placesIn base index.projectId).snapshots → n < 4 →
        d.Shows base t' index.projectId (shownAfter n (index.snapshot, index.graph) none) := by
      intro touched hgrows hsub hn
      rw [shownAfter, if_pos hn]
      refine (hgrows.fileAt?_eq _ fun hin => ?_).trans h
      rcases hsub hin with heq | heq <;> simp [placesIn] at heq
    rcases hcases with ⟨hn, hgrows⟩ | ⟨hn, hgrows, -⟩ | ⟨hn, hgrows, -⟩ |
      ⟨hn, -, old, hproject, hsymbols, hgraph, hmetadata⟩
    · exact hnone hgrows (Set.empty_subset _) (by omega)
    · exact hnone hgrows (by simp [DocumentPlaces.snapshots]) (by omega)
    · exact hnone hgrows subset_rfl (by omega)
    · rw [shownAfter, if_neg (by omega)]
      exact ⟨_, hsymbols, hgraph, hmetadata, hproject, distinct_placesIn base _⟩
  | some pair =>
    obtain ⟨m, hm⟩ := h
    rcases hm.stopsAfter hchange hstops with ⟨hn, h'⟩ | ⟨hn, h'⟩ | ⟨hn, h'⟩ | ⟨hn, old, h'⟩
    · rw [shownAfter, if_pos hn]
      exact ⟨m, h'⟩
    · rw [shownAfter, if_neg (by omega), if_pos hn]
      exact ⟨m, h'⟩
    · rw [shownAfter, if_neg (by omega), if_neg (by omega)]
      exact ⟨m, h'⟩
    · rw [shownAfter, if_neg (by omega), if_neg (by omega)]
      exact ⟨_, h'⟩

/-! ### Index directories that were written to the end -/

/-- A tree with an index directory in which indexes of any projects were written, each to the end,
and what was written last of each project. -/
inductive Written (d : IndexDirectory) (base : Place) :
    FileTree → (String → Option (Snapshot × CallGraph)) → Prop where
  | empty {t : FileTree} (hlies : d.LiesAt base t)
      (hnone : ∀ id, Path.IsPlainName id → t.fileAt? (placesIn base id).metadata = none) :
      Written d base t fun _ => none
  | persist {x : Indexer} {index : ProjectIndex} {change : IndexMetadata → IndexMetadata}
      {w w' : Workspace} {m : IndexMetadata} {last : String → Option (Snapshot × CallGraph)}
      (hlast : Written d base w.files last) (hx : x.directory = d)
      (hid : Path.IsPlainName index.projectId) (hchange : ∀ m, (change m).projectId = m.projectId)
      (hrun : (x.persist index change).runOn w = (.ok m, w')) :
      Written d base w'.files
        (Function.update last index.projectId (some (index.snapshot, index.graph)))

/-- Where the writing of an index stops, its project shows as many of the documents as were written,
and the other projects show what they did. -/
lemma shows_of_stopsAfter {last : String → Option (Snapshot × CallGraph)}
    (hlies : d.LiesAt base t) (hlast : ∀ id, Path.IsPlainName id → d.Shows base t id (last id))
    (hid : Path.IsPlainName index.projectId) (hchange : ∀ m, (change m).projectId = m.projectId)
    (hstops : Storage.StopsAfter n (d.writeSteps index change now) t t') :
    d.LiesAt base t' ∧ ∀ id, Path.IsPlainName id → d.Shows base t' id
      (if id = index.projectId then shownAfter n (index.snapshot, index.graph) (last id)
        else last id) := by
  obtain ⟨hshows, hgrows⟩ := (hlast _ hid).stopsAfter hlies hid hchange hstops
  refine ⟨hlies.grows hgrows, fun id hplain => ?_⟩
  by_cases heq : id = index.projectId
  · rw [if_pos heq, heq]
    exact hshows
  · rw [if_neg heq]
    exact (hlast id hplain).grows hgrows (notMem_placesIn base heq)

/-- Every project shows what was written last of it. -/
lemma Written.shows {last : String → Option (Snapshot × CallGraph)} (h : d.Written base t last) :
    d.LiesAt base t ∧ ∀ id, Path.IsPlainName id → d.Shows base t id (last id) := by
  induction h with
  | empty hlies hnone => exact ⟨hlies, hnone⟩
  | @persist x index change w w' m last hlast hx hid hchange hrun ih =>
    obtain ⟨n, t', rfl, hstops, hn⟩ := Indexer.stopsAfter_persist hrun
    obtain rfl := hn ⟨_, rfl⟩
    obtain ⟨hlies, hshows⟩ := shows_of_stopsAfter ih.1 ih.2 hid hchange (hx ▸ hstops)
    refine ⟨hlies, fun id hplain => ?_⟩
    have hshown := hshows id hplain
    by_cases heq : id = index.projectId
    · rw [if_pos heq, shownAfter_four] at hshown
      rwa [heq, Function.update_self, ← heq]
    · rw [if_neg heq] at hshown
      rwa [Function.update_of_ne heq]

/-! ### A directory in which nothing was written -/

section

/-- The directories of an index. -/
def indexRoom : FileTree :=
  FileTree.empty.put ["i"] .directory
    |>.put ["i", "meta"] .directory
    |>.put ["i", "projects"] .directory
    |>.put ["i", "projects", "p"] .directory

/-- An indexer that keeps its indexes there. -/
def roomIndexer : Indexer where
  settings := { indexPath := "/i", indexing := { parallelThreads := 1 } }

/-- A function of the one source file of the project. -/
def oneFunction (name : String) : Symbol :=
  ⟨⟨name⟩, name, "a.c", 1, "", .syntaxTree, .unmeasured "void" []⟩

/-- The project whose one function calls itself. -/
def recursive : ProjectIndex :=
  (ProjectIndex.empty "p" "/p").insertFile "a.c"
    { symbols := [oneFunction "f"], calls := [⟨⟨"f"⟩, "f"⟩] }

/-- What stands in the directories. -/
lemma entry?_indexRoom {place : Place} {e : FileEntry} (h : indexRoom.entry? place = some e) :
    e = .directory := by
  unfold entry? at h
  split_ifs at h
  · exact (Option.some.inj h).symm
  · simp only [indexRoom, put, Std.ExtTreeMap.getElem?_insert,
      Std.LawfulEqCmp.compare_eq_iff_eq] at h
    split_ifs at h
    all_goals first
      | exact (Option.some.inj h).symm
      | simp [FileTree.empty] at h

/-- There is room for an index. -/
lemma awaitsIndex_indexRoom : roomIndexer.directory.AwaitsIndex indexRoom ["i"] "p" := by
  have h₁ : WellFormed (FileTree.empty.put ([] ++ ["i"]) .directory) :=
    wellFormed_empty.put .directory rfl rfl (by decide)
  have h₂ : WellFormed (FileTree.put _ (["i"] ++ ["meta"]) .directory) :=
    h₁.put .directory rfl rfl (by decide)
  have h₃ : WellFormed (FileTree.put _ (["i"] ++ ["projects"]) .directory) :=
    h₂.put .directory rfl rfl (by decide)
  have h₄ : WellFormed (FileTree.put _ (["i", "projects"] ++ ["p"]) .directory) :=
    h₃.put .directory rfl rfl (by decide)
  exact ⟨rfl, h₄, ⟨rfl, rfl, by decide⟩, ⟨rfl, rfl, by decide⟩, ⟨rfl, rfl, by decide⟩⟩

/-- The index directory lies there, and it is empty. -/
lemma written_indexRoom : roomIndexer.directory.Written ["i"] indexRoom fun _ => none := by
  refine .empty (awaitsIndex_indexRoom.liesAt fun names target h => ?_) fun id _ => ?_
  · cases entry?_indexRoom h
  · cases hfile : indexRoom.fileAt? (placesIn ["i"] id).metadata with
    | none => rfl
    | some content => cases entry?_indexRoom (fileAt?_eq_some_iff.mp hfile)

end

end IndexDirectory

end CodeAtlas
