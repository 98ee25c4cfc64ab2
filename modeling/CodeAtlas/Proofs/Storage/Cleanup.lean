import CodeAtlas.Proofs.Storage.Listing

/-!
# Cleaning up an index directory

Cleaning up compares the projects whose descriptions are listed with those whose data directories
are, and removes what has no counterpart.  Where every project is found by its description this is
exact: what is left over of projects is taken away and nothing else.

A project whose identifier ends in `.json` is never found by its description.  Cleaning up takes it
for one without a description, so its data is gone afterwards even if it was complete
(`entry?_cleanup_append`).
-/

namespace CodeAtlas

open CodeAtlas.Action CodeAtlas.FileTree

namespace IndexDirectory

variable {d : IndexDirectory} {base : Place} {t t' : FileTree} {id : String}

/-- The places of descriptions without data and of data without a description. -/
def orphans (base : Place) (t : FileTree) : Set Place :=
  {place | ∃ id ∈ described base t, id ∉ stored base t ∧ place = (placesIn base id).metadata} ∪
    {place | ∃ id ∈ stored base t, id ∉ described base t ∧ base ++ ["projects", id] <+: place}

/-- Cleaning up takes away what is left over of projects and says of which ones it was, in order;
projects that are complete keep what they have, and cleaning up once more finds nothing to do. -/
structure IsCleanedUp (d : IndexDirectory) (base : Place) (t t' : FileTree)
    (removed : List String) : Prop where
  sorted : removed.Pairwise (· < ·)
  mem_removed_iff : ∀ id, id ∈ removed ↔ Xor (id ∈ described base t) (id ∈ stored base t)
  gone : t.Removed t' (orphans base t)
  complete : ∀ id ∈ described base t, id ∈ stored base t →
    t'.entry? (placesIn base id).metadata = t.entry? (placesIn base id).metadata ∧
    ∀ names, t'.entry? (base ++ "projects" :: id :: names) =
      t.entry? (base ++ "projects" :: id :: names)
  done : d.cleanup.runOn t' = (.ok [], t')

/-- Cleaning up succeeds and is exact. -/
def CleansExactly (d : IndexDirectory) (base : Place) (t : FileTree) : Prop :=
  ∃ removed t', d.cleanup.runOn t = (.ok removed, t') ∧ d.IsCleanedUp base t t' removed

/-- Nothing is left over of a complete project. -/
lemma notMem_orphans (hdescribed : id ∈ described base t) (hstored : id ∈ stored base t) :
    (placesIn base id).metadata ∉ orphans base t ∧
      ∀ names, base ++ "projects" :: id :: names ∉ orphans base t := by
  constructor
  · rintro (⟨other, -, hother, heq⟩ | ⟨other, -, -, hbelow⟩)
    · obtain rfl : id = other := by simpa [placesIn] using heq
      exact hother hstored
    · simp [placesIn, List.prefix_append_right_inj, List.cons_prefix_cons] at hbelow
  · rintro names (⟨other, -, -, heq⟩ | ⟨other, -, hother, hbelow⟩)
    · simp [placesIn] at heq
    · rw [List.prefix_append_right_inj, List.cons_prefix_cons, List.cons_prefix_cons] at hbelow
      exact hother (hbelow.2.1 ▸ hdescribed)

/-- After a cleanup the complete projects have a description. -/
lemma mem_described_removed_iff (h : t.Removed t' (orphans base t)) :
    id ∈ described base t' ↔ id ∈ described base t ∧ id ∈ stored base t := by
  constructor
  · rintro ⟨hne, content, hcontent⟩
    have hentry := fileAt?_eq_some_iff.mp hcontent
    have hbefore : id ∈ described base t :=
      ⟨hne, content, fileAt?_eq_some_iff.mpr (h.restricts.entry?_eq _ _ hentry)⟩
    refine ⟨hbefore, by_contra fun hstored => ?_⟩
    rw [h.gone _ (Or.inl ⟨id, hbefore, hstored, rfl⟩)] at hentry
    cases hentry
  · rintro ⟨hdescribed, hstored⟩
    exact mem_described_of_entry?_eq (h.unchanged _ (notMem_orphans hdescribed hstored).1)
      hdescribed

/-- After a cleanup the complete projects have data. -/
lemma mem_stored_removed_iff (h : t.Removed t' (orphans base t)) :
    id ∈ stored base t' ↔ id ∈ described base t ∧ id ∈ stored base t := by
  constructor
  · intro hentry
    have hbefore : id ∈ stored base t := h.restricts.entry?_eq _ _ hentry
    refine ⟨by_contra fun hdescribed => ?_, hbefore⟩
    have hgone := h.gone _ (Or.inr ⟨id, hbefore, hdescribed, List.prefix_rfl⟩)
    cases hgone.symm.trans hentry
  · rintro ⟨hdescribed, hstored⟩
    exact (h.unchanged _ ((notMem_orphans hdescribed hstored).2 [])).trans hstored

namespace IsOrderly

/-- The data directory of a project is removed. -/
lemma exists_removeData (h : d.IsOrderly base t) (hid : id ∈ stored base t) :
    ∃ t', (Storage.removeDirectory (d.dataDirectory id)).runOn t = (.ok (), t') ∧
      d.IsOrderly base t' ∧ t.Removed t' {place | base ++ ["projects", id] <+: place} ∧
      ∀ other, other ≠ id → other ∈ stored base t → other ∈ stored base t' := by
  have hsplit : base ++ ["projects", id] = base ++ ["projects"] ++ [id] := by simp
  have hdir : t.entry? (base ++ ["projects"] ++ [id]) = some .directory := hsplit ▸ hid
  have hnames : t.Names (d.dataDirectory id) (base ++ ["projects"] ++ [id]) :=
    hsplit ▸ h.names_of_entry? (List.cons_ne_nil _ _) hid
  have haddressable : Path.IsAddressable (d.dataDirectory id) :=
    h.addressable ["projects", id] _ hid
  obtain ⟨t', hrun, hgone⟩ := exists_runOn_removeDirectory h.wellFormed hnames haddressable hdir
  rw [← hsplit] at hgone
  refine ⟨t', ?_, h.removed hgone ?_ ?_, hgone, ?_⟩
  · rw [Storage.removeDirectory, runOn_adapt_eq_ok_iff]
    exact hrun
  · intro place hbelow hprefix
    have hlength := (List.IsPrefix.trans hbelow hprefix).length_le
    rw [List.length_append, List.length_cons] at hlength
    omega
  · intro place hplace name _
    exact List.IsPrefix.trans hplace (List.prefix_append place [name])
  · intro other hother hstored
    refine (hgone.unchanged _ ?_).trans hstored
    intro hbelow
    simp [List.prefix_append_right_inj, List.cons_prefix_cons, Ne.symm hother] at hbelow

/-- The description of a project is removed. -/
lemma exists_removeMetadata (h : d.IsOrderly base t) (hid : id ∈ described base t) :
    ∃ t', (d.removeMetadata id).runOn t = (.ok (), t') ∧
      d.IsOrderly base t' ∧ t.Removed t' {(placesIn base id).metadata} ∧
      ∀ other, other ≠ id → other ∈ described base t → other ∈ described base t' := by
  obtain ⟨-, content, hcontent⟩ := hid
  have hentry := fileAt?_eq_some_iff.mp hcontent
  have hnames : t.Names (d.metadataPath id) (placesIn base id).metadata :=
    h.names_of_entry? (List.cons_ne_nil _ _) hentry
  have haddressable : Path.IsAddressable (d.metadataPath id) :=
    h.addressable ["meta", id ++ extension] _ hentry
  obtain ⟨t', hrun, hgone⟩ := exists_removeFile h.wellFormed hnames haddressable hentry
  refine ⟨t', ?_, h.removed hgone ?_ ?_, hgone, ?_⟩
  · rw [removeMetadata, runOn_change_eq_ok_iff]
    exact hrun
  · rintro _ rfl hprefix
    have hlength := hprefix.length_le
    rw [placesIn, List.length_append, List.length_cons] at hlength
    omega
  · intro place hplace name hbelow
    obtain ⟨e, he⟩ := Option.ne_none_iff_exists'.mp hbelow
    have hdir := h.wellFormed.parent place name e he
    rw [Set.mem_singleton_iff.mp hplace, hentry] at hdir
    cases hdir
  · intro other hother hdescribed
    refine mem_described_of_entry?_eq (hgone.unchanged _ ?_) hdescribed
    intro heq
    exact hother (by simpa [placesIn] using Set.mem_singleton_iff.mp heq)

/-- The data directories of projects are removed one by one. -/
lemma exists_forM_removeData (h : d.IsOrderly base t) {data : List String} (hnodup : data.Nodup)
    (hstored : ∀ id ∈ data, id ∈ stored base t) :
    ∃ t', Action.runOn (data.forM fun id => Storage.removeDirectory (d.dataDirectory id)) t =
        (.ok (), t') ∧
      d.IsOrderly base t' ∧
      t.Removed t' {place | ∃ id ∈ data, base ++ ["projects", id] <+: place} := by
  have hstep : ∀ t id, d.IsOrderly base t → id ∈ stored base t → _ := fun _ _ hkept hstands =>
    exists_removeData hkept hstands
  exact exists_forM_removed hstep hnodup h hstored

/-- The descriptions of projects are removed one by one. -/
lemma exists_forM_removeMetadata (h : d.IsOrderly base t) {metadata : List String}
    (hnodup : metadata.Nodup) (hdescribed : ∀ id ∈ metadata, id ∈ described base t) :
    ∃ t', Action.runOn (metadata.forM fun id => d.removeMetadata id) t = (.ok (), t') ∧
      d.IsOrderly base t' ∧
      t.Removed t' {place | ∃ id ∈ metadata, place = (placesIn base id).metadata} := by
  have hstep : ∀ t id, d.IsOrderly base t → id ∈ described base t → _ := fun _ _ hkept hstands =>
    exists_removeMetadata hkept hstands
  exact exists_forM_removed hstep hnodup h hdescribed

end IsOrderly

/-- What is left of a list without the elements of another. -/
lemma mem_removeAll_iff {xs ys : List String} : id ∈ xs.removeAll ys ↔ id ∈ xs ∧ id ∉ ys := by
  simp [List.removeAll]

/-- Nothing is left of a list without the elements of one that has them all. -/
lemma removeAll_eq_nil {xs ys : List String} (h : ∀ x ∈ xs, x ∈ ys) : xs.removeAll ys = [] := by
  rw [List.eq_nil_iff_forall_not_mem]
  intro x hx
  rw [mem_removeAll_iff] at hx
  exact hx.2 (h x hx.1)

/-- Cleaning up removes the projects that are found on one side only. -/
lemma runOn_cleanup {ids names : List String} (hids : d.metadataIds.runOn t = (.ok ids, t))
    (hnames : d.dataIds.runOn t = (.ok names, t)) :
    d.cleanup.runOn t =
      Action.runOn (do
        (names.removeAll ids).forM fun id => Storage.removeDirectory (d.dataDirectory id)
        (ids.removeAll names).forM fun id => d.removeMetadata id
        return (names.removeAll ids ++ ids.removeAll names).mergeSort
          fun a b => decide (a ≤ b)) t := by
  unfold cleanup
  rw [runOn_bind_of_ok hids, runOn_bind_of_ok hnames]
  rfl

namespace IsOrderly

/-- Where every project is complete there is nothing to clean up. -/
lemma runOn_cleanup_of_complete (h : d.IsOrderly base t)
    (hids : ∀ id ∈ described base t, ¬IsDocumentName id)
    (hcomplete : ∀ id, id ∈ described base t ↔ id ∈ stored base t) :
    d.cleanup.runOn t = (.ok [], t) := by
  obtain ⟨ids, -, hmem, hrun⟩ := h.exists_runOn_metadataIds_of_not hids
  obtain ⟨names, -, hmem', hrun'⟩ := h.exists_runOn_dataIds
  have hsame : ∀ id, id ∈ ids ↔ id ∈ names := by
    intro id
    rw [hmem, hmem', hcomplete]
  have hdata : names.removeAll ids = [] := removeAll_eq_nil fun id hid => (hsame id).mpr hid
  have hmetadata : ids.removeAll names = [] := removeAll_eq_nil fun id hid => (hsame id).mp hid
  rw [runOn_cleanup hrun hrun', hdata, hmetadata, List.append_nil, List.mergeSort_nil]
  rfl

/-- Data directories and then descriptions are removed, whichever are there. -/
lemma exists_runOn_removals (h : d.IsOrderly base t) {data metadata removed : List String}
    (hdata : data.Nodup) (hstored : ∀ id ∈ data, id ∈ stored base t)
    (hmetadata : metadata.Nodup) (hdescribed : ∀ id ∈ metadata, id ∈ described base t) :
    ∃ t', Action.runOn (do
        data.forM fun id => Storage.removeDirectory (d.dataDirectory id)
        metadata.forM fun id => d.removeMetadata id
        return removed) t = (.ok removed, t') ∧
      d.IsOrderly base t' ∧
      t.Removed t' ({place | ∃ id ∈ data, base ++ ["projects", id] <+: place} ∪
        {place | ∃ id ∈ metadata, place = (placesIn base id).metadata}) := by
  obtain ⟨t₁, hrun₁, h₁, hgone₁⟩ := h.exists_forM_removeData hdata hstored
  have hdescribed₁ : ∀ id ∈ metadata, id ∈ described base t₁ := by
    intro id hid
    refine mem_described_of_entry?_eq (hgone₁.unchanged _ ?_) (hdescribed id hid)
    rintro ⟨other, -, hbelow⟩
    simp [placesIn, List.prefix_append_right_inj, List.cons_prefix_cons] at hbelow
  obtain ⟨t₂, hrun₂, h₂, hgone₂⟩ := h₁.exists_forM_removeMetadata hmetadata hdescribed₁
  refine ⟨t₂, ?_, h₂, hgone₁.trans hgone₂⟩
  rw [runOn_bind_of_ok hrun₁, runOn_bind_of_ok hrun₂, runOn_pure]

/-- Where no identifier ends in `.json` the cleanup is exact. -/
lemma cleansExactly (h : d.IsOrderly base t)
    (hids : ∀ id ∈ described base t, ¬IsDocumentName id) : d.CleansExactly base t := by
  obtain ⟨ids, hnodup, hmem, hrun⟩ := h.exists_runOn_metadataIds_of_not hids
  obtain ⟨names, hnodup', hmem', hrun'⟩ := h.exists_runOn_dataIds
  have hdata : ∀ id, id ∈ names.removeAll ids ↔ id ∈ stored base t ∧ id ∉ described base t := by
    intro id
    rw [mem_removeAll_iff, hmem, hmem']
  have hmetadata : ∀ id, id ∈ ids.removeAll names ↔ id ∈ described base t ∧ id ∉ stored base t := by
    intro id
    rw [mem_removeAll_iff, hmem, hmem']
  have hdisjoint : (names.removeAll ids).Disjoint (ids.removeAll names) := by
    intro id hid hid'
    exact ((hmetadata id).mp hid').2 ((hdata id).mp hid).1
  obtain ⟨t', hremovals, h', hplaces⟩ := h.exists_runOn_removals (hnodup'.filter _)
    (fun id hid => ((hdata id).mp hid).1) (hnodup.filter _) fun id hid => ((hmetadata id).mp hid).1
  have hgone : t.Removed t' (orphans base t) := by
    refine hplaces.congr fun place => ?_
    constructor
    · rintro (⟨id, hid, hbelow⟩ | ⟨id, hid, hplace⟩)
      · exact Or.inr ⟨id, ((hdata id).mp hid).1, ((hdata id).mp hid).2, hbelow⟩
      · exact Or.inl ⟨id, ((hmetadata id).mp hid).1, ((hmetadata id).mp hid).2, hplace⟩
    · rintro (⟨id, hid, hother, hplace⟩ | ⟨id, hid, hother, hbelow⟩)
      · exact Or.inr ⟨id, (hmetadata id).mpr ⟨hid, hother⟩, hplace⟩
      · exact Or.inl ⟨id, (hdata id).mpr ⟨hid, hother⟩, hbelow⟩
  refine ⟨_, t', (runOn_cleanup hrun hrun').trans hremovals, ?_, fun id => ?_, hgone,
    fun id hid hid' => ?_, ?_⟩
  · apply pairwise_mergeSort_lt id
    rw [List.map_id]
    exact (hnodup'.filter _).append (hnodup.filter _) hdisjoint
  · rw [List.mem_mergeSort, List.mem_append, hdata, hmetadata, Xor, or_comm]
  · obtain ⟨hmetadataPlace, hdataPlaces⟩ := notMem_orphans hid hid'
    exact ⟨hgone.unchanged _ hmetadataPlace, fun ns => hgone.unchanged _ (hdataPlaces ns)⟩
  · apply h'.runOn_cleanup_of_complete
    · intro id hid
      exact hids id ((mem_described_removed_iff hgone).mp hid).1
    · intro id
      rw [mem_described_removed_iff hgone, mem_stored_removed_iff hgone]

/-- An identifier that ends in `.json` keeps the cleanup from being exact. -/
lemma not_cleansExactly (h : d.IsOrderly base t) (hid : id ∈ described base t)
    (hname : IsDocumentName id) : ¬d.CleansExactly base t := by
  rintro ⟨removed, t', hcleanup, hclean⟩
  obtain ⟨ids, hlost, hrun⟩ := h.exists_runOn_metadataIds_notMem hname
  obtain ⟨names, -, hmem, hrun'⟩ := h.exists_runOn_dataIds
  rw [runOn_cleanup hrun hrun', runOn_bind_eq_ok_iff] at hcleanup
  obtain ⟨-, _, -, hcleanup⟩ := hcleanup
  rw [runOn_bind_eq_ok_iff] at hcleanup
  obtain ⟨-, _, -, hcleanup⟩ := hcleanup
  obtain rfl := Except.ok.inj (Prod.mk.inj hcleanup).1
  have hexact := hclean.mem_removed_iff id
  rw [List.mem_mergeSort, List.mem_append, mem_removeAll_iff, mem_removeAll_iff, hmem] at hexact
  simp [hlost, hid, Xor] at hexact

end IsOrderly

/-- Nothing is put in where descriptions are removed, whether all of them can be or not. -/
lemma keeps_forM_removeMetadata {α : Type} (d : IndexDirectory) (ids : List String) (answer : α) :
    Keeps (fun s s' : FileTree => s'.Restricts s)
      (do ids.forM fun id => d.removeMetadata id; return answer) := by
  have : Std.Refl fun s s' : FileTree => s'.Restricts s := ⟨Restricts.refl⟩
  have : IsTrans FileTree fun s s' => s'.Restricts s := ⟨fun _ _ _ h h' => h'.trans h⟩
  have hremove : ∀ id, Keeps (fun s s' : FileTree => s'.Restricts s) (d.removeMetadata id) :=
    fun id => Keeps.change _ fun s s' hrun => (removedOnly_removeFile hrun).restricts
  exact (Keeps.forM hremove ids).bind fun _ => Keeps.pure answer

/-- The data of a project whose identifier ends in `.json` is gone after a cleanup, whether there is
a description of the project or not, and whatever else happened. -/
theorem entry?_cleanup_append (h : d.IsOrderly base t) (hid : id ∈ stored base t)
    (hname : IsDocumentName id) (below : List String) :
    FileTree.entry? (d.cleanup.runOn t).2 (base ++ "projects" :: id :: below) = none := by
  obtain ⟨ids, hlost, hrun⟩ := h.exists_runOn_metadataIds_notMem hname
  obtain ⟨names, hnodup, hmem, hrun'⟩ := h.exists_runOn_dataIds
  have hdata : (names.removeAll ids).Nodup := hnodup.filter _
  obtain ⟨t₁, hrun₁, -, hgone⟩ := h.exists_forM_removeData hdata
    fun id hid => (hmem id).mp (mem_removeAll_iff.mp hid).1
  have hempty : t₁.entry? (base ++ "projects" :: id :: below) = none := by
    refine hgone.gone _ ⟨id, ?_, ⟨below, by simp⟩⟩
    exact mem_removeAll_iff.mpr ⟨(hmem id).mpr hid, hlost⟩
  rw [runOn_cleanup hrun hrun', runOn_bind_of_ok hrun₁]
  -- What follows may fail, but it puts nothing back.
  have hrest := keeps_forM_removeMetadata d (ids.removeAll names)
    ((names.removeAll ids ++ ids.removeAll names).mergeSort fun a b => decide (a ≤ b)) t₁
  by_contra hne
  obtain ⟨e, he⟩ := Option.ne_none_iff_exists'.mp hne
  cases hempty.symm.trans (hrest.entry?_eq _ e he)

/-- Listing and cleaning up are exact if and only if no project with a description has an identifier
that ends in `.json`. -/
theorem listsExactly_and_cleansExactly_iff (h : d.IsOrderly base t) :
    d.ListsExactly base t ∧ d.CleansExactly base t ↔
      ∀ id ∈ described base t, ¬IsDocumentName id := by
  constructor
  · rintro ⟨-, hcleans⟩ id hid hname
    exact h.not_cleansExactly hid hname hcleans
  · intro hids
    exact ⟨h.listsExactly hids, h.cleansExactly hids⟩

/-! ### Projects with and without data -/

/-- The description of an index that holds nothing. -/
def emptyDescription (id : String) : IndexMetadata := .new id "/" ⟨0, 0⟩

/-- The directories of an index in which nothing was saved. -/
def noProjects : FileTree :=
  FileTree.empty.put ["index"] .directory
    |>.put (["index"] ++ ["meta"]) .directory
    |>.put (["index"] ++ ["projects"]) .directory

/-- They are those of an index directory. -/
lemma isOrderly_noProjects : IsOrderly ⟨"/index"⟩ ["index"] noProjects := by
  have h₀ : IsOrderly ⟨"/index"⟩ ["index"] FileTree.empty := .empty rfl (by decide)
  have h₁ : IsOrderly ⟨"/index"⟩ ["index"] (FileTree.empty.put ([] ++ ["index"]) .directory) :=
    h₀.putDirectory rfl ⟨rfl, rfl, by decide⟩
  have h₂ : IsOrderly ⟨"/index"⟩ ["index"] (FileTree.put _ (["index"] ++ ["meta"]) .directory) :=
    h₁.putDirectory rfl ⟨rfl, rfl, by decide⟩
  exact h₂.putDirectory rfl ⟨rfl, rfl, by decide⟩

/-- No project is described in them. -/
lemma notMem_described_noProjects : id ∉ described ["index"] noProjects := by
  intro hid
  have hnone : id ∉ described ["index"] FileTree.empty := by
    rintro ⟨-, content, hcontent⟩
    have hentry := fileAt?_eq_some_iff.mp hcontent
    simp [placesIn, FileTree.empty, entry?] at hentry
  rcases mem_described_put hid with hid | ⟨-, _, ⟨⟩⟩
  rcases mem_described_put hid with hid | ⟨-, _, ⟨⟩⟩
  rcases mem_described_put hid with hid | ⟨-, _, ⟨⟩⟩
  exact hnone hid

/-- One project with description and data, one with a description and one with data. -/
def threeProjects : FileTree :=
  noProjects
    |>.put (["index"] ++ ["meta"] ++ ["a" ++ extension])
      (.file (Storage.fileOf (emptyDescription "a").toJson))
    |>.put (["index"] ++ ["meta"] ++ ["b" ++ extension])
      (.file (Storage.fileOf (emptyDescription "b").toJson))
    |>.put (["index"] ++ ["projects"] ++ ["a"]) .directory
    |>.put (["index"] ++ ["projects"] ++ ["c"]) .directory

/-- The descriptions of two of them are listed, and what there is of the second and the third is
taken away. -/
theorem listsExactly_and_cleansExactly_threeProjects :
    IsOrderly ⟨"/index"⟩ ["index"] threeProjects ∧
    ListsExactly ⟨"/index"⟩ ["index"] threeProjects ∧
    CleansExactly ⟨"/index"⟩ ["index"] threeProjects := by
  have h₁ : IsOrderly ⟨"/index"⟩ ["index"]
      (FileTree.put _ (["index"] ++ ["meta"] ++ ["a" ++ extension]) _) :=
    isOrderly_noProjects.putDescription rfl (emptyDescription "a") ⟨rfl, rfl, by decide⟩
  have h₂ : IsOrderly ⟨"/index"⟩ ["index"]
      (FileTree.put _ (["index"] ++ ["meta"] ++ ["b" ++ extension]) _) :=
    h₁.putDescription rfl (emptyDescription "b") ⟨rfl, rfl, by decide⟩
  have h₃ : IsOrderly ⟨"/index"⟩ ["index"]
      (FileTree.put _ (["index"] ++ ["projects"] ++ ["a"]) .directory) :=
    h₂.putDirectory rfl ⟨rfl, rfl, by decide⟩
  have h : IsOrderly ⟨"/index"⟩ ["index"] threeProjects := h₃.putDirectory rfl ⟨rfl, rfl, by decide⟩
  refine ⟨h, (listsExactly_and_cleansExactly_iff h).mpr ?_⟩
  intro id hid
  rcases mem_described_put hid with hid | ⟨-, _, ⟨⟩⟩
  rcases mem_described_put hid with hid | ⟨-, _, ⟨⟩⟩
  rcases mem_described_put hid with hid | ⟨hplace, -⟩
  · rcases mem_described_put hid with hid | ⟨hplace, -⟩
    · exact absurd hid notMem_described_noProjects
    · rw [eq_of_metadata_eq hplace.symm]
      exact not_isDocumentName (by decide)
  · rw [eq_of_metadata_eq hplace.symm]
    exact not_isDocumentName (by decide)

/-- A project that is complete, and whose identifier ends in `.json`. -/
def documentProject : FileTree :=
  noProjects
    |>.put (["index"] ++ ["meta"] ++ ["a.json" ++ extension])
      (.file (Storage.fileOf (emptyDescription "a.json").toJson))
    |>.put (["index"] ++ ["projects"] ++ ["a.json"]) .directory

/-- The cleanup does not leave it alone. -/
theorem not_cleansExactly_documentProject :
    ¬∀ (d : IndexDirectory) (base : Place) (t : FileTree), d.IsOrderly base t →
      d.ListsExactly base t ∧ d.CleansExactly base t := by
  intro hclaim
  have h₁ : IsOrderly ⟨"/index"⟩ ["index"]
      (FileTree.put _ (["index"] ++ ["meta"] ++ ["a.json" ++ extension]) _) :=
    isOrderly_noProjects.putDescription rfl (emptyDescription "a.json") ⟨rfl, rfl, by decide⟩
  have h : IsOrderly ⟨"/index"⟩ ["index"] documentProject :=
    h₁.putDirectory rfl ⟨rfl, rfl, by decide⟩
  have hid : "a.json" ∈ described ["index"] documentProject := ⟨by decide, _, rfl⟩
  exact h.not_cleansExactly hid ⟨"a", rfl⟩ (hclaim _ _ _ h).2

end IndexDirectory

end CodeAtlas
