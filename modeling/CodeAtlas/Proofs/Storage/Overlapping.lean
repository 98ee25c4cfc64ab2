import CodeAtlas.Proofs.Storage.Interruption

/-!
# Readers that overlap the writing of an index

Loading an index looks at the files five times: whether there is a description, whether each of the
two snapshots is there, and into each snapshot.  Nothing keeps an index from being written
meanwhile, so every look may find a tree of its own (`Looks`).  A reader who comes after the writing
has stopped is one whose looks all find the same tree
(`Indexer.runOn_loadProject_eq_loadProjectOver`).

While one index is written over another there are two ways to load what was not written together.
The new symbols are loaded with the old graph if both looks fall between the two snapshots, and the
old symbols with the new graph if both snapshots are written between the looks.  There is no other
(`IndexDirectory.loadProjectOver_of_overlap`), and the first index of a project is never loaded in
part.
-/

namespace CodeAtlas

open CodeAtlas.Action CodeAtlas.FileTree

/-! ### The looks of a reader -/

/-- What belongs to each of the five looks at the files when an index is loaded. -/
structure Looks (α : Type) where
  description : α
  symbolsThere : α
  graphThere : α
  symbols : α
  graph : α

/-- The same belongs to all looks. -/
def Looks.all (a : α) : Looks α := ⟨a, a, a, a, a⟩

/-- What is loaded of both documents when every look finds a tree of its own. -/
def SnapshotDirectory.loadOver (d : SnapshotDirectory) (seen : Looks FileTree) :
    Except StorageError (Option (Snapshot × CallGraph)) :=
  if seen.symbolsThere.isFile d.symbolsPath && seen.graphThere.isFile d.graphPath then
    match ((Storage.readDocument d.symbolsPath Snapshot.ofJson?).runOn seen.symbols).1 with
    | .error e => .error e
    | .ok s => (d.loadGraph.runOn seen.graph).1.map fun g => some (s, g)
  else .ok none

/-- Loading both documents at once is looking at one tree. -/
lemma SnapshotDirectory.runOn_load_eq_loadOver (d : SnapshotDirectory) (t : FileTree) :
    d.load.runOn t = (d.loadOver (.all t), t) := by
  rw [runOn_load_eq]
  rfl

/-- What is loaded of a project when every look finds a tree of its own. -/
def Indexer.loadProjectOver (x : Indexer) (seen : Looks FileTree) (projectId root : String) :
    Except IndexError (Option ProjectIndex) :=
  if seen.description.isFile (x.directory.metadataPath projectId) then
    (((x.directory.snapshots projectId).loadOver seen).mapError .storage).map
      (Option.map fun p => .ofSnapshot projectId root p.1 p.2)
  else .ok none

/-- Loading at once is looking at one tree. -/
lemma Indexer.runOn_loadProject_eq_loadProjectOver (x : Indexer) (id root : String)
    (w : Workspace) :
    (x.loadProject id root).runOn w = (x.loadProjectOver (.all w.files) id root, w) := by
  rw [runOn_loadProject_eq, SnapshotDirectory.runOn_load_eq_loadOver, loadProjectOver, Looks.all]

/-- The looks of a reader while steps are done one after the other: each finds the tree as it is
after so many of them, and none finds fewer done than one before it. -/
structure Looks.Overlap (seen : Looks FileTree) (done : Looks Nat)
    (steps : List (StorageAction Unit)) (t : FileTree) : Prop where
  description : Storage.StopsAfter done.description steps t seen.description
  symbolsThere : Storage.StopsAfter done.symbolsThere steps t seen.symbolsThere
  graphThere : Storage.StopsAfter done.graphThere steps t seen.graphThere
  symbols : Storage.StopsAfter done.symbols steps t seen.symbols
  graph : Storage.StopsAfter done.graph steps t seen.graph
  description_le : done.description ≤ done.symbolsThere
  symbolsThere_le : done.symbolsThere ≤ done.graphThere
  graphThere_le : done.graphThere ≤ done.symbols
  symbols_le : done.symbols ≤ done.graph

/-- Where the steps have stopped, all looks find the same. -/
lemma Looks.overlap_all {n : Nat} {steps : List (StorageAction Unit)} {t t' : FileTree}
    (h : Storage.StopsAfter n steps t t') : (Looks.all t').Overlap (.all n) steps t :=
  ⟨h, h, h, h, h, le_rfl, le_rfl, le_rfl, le_rfl⟩

namespace IndexDirectory

variable {x : Indexer} {base : Place} {id q : String} {t : FileTree} {seen : Looks FileTree}
  {done : Looks Nat} {index : ProjectIndex} {change : IndexMetadata → IndexMetadata}
  {now : Timestamp} {last : String → Option (Snapshot × CallGraph)}

/-! ### What shows at the looks is loaded -/

/-- Nothing is loaded if no description shows at the first look. -/
lemma Shows.loadProjectOver_eq_none (h : x.directory.Shows base seen.description id none)
    (hlies : x.directory.LiesAt base seen.description) (hid : Path.IsPlainName id)
    (root : String) : x.loadProjectOver seen id root = .ok none := by
  unfold Indexer.loadProjectOver
  rw [hlies.isFile_metadataPath hid h]
  rfl

/-- If documents show at every look, the symbols of the fourth are loaded with the graph of the
fifth. -/
lemma loadProjectOver_eq_some {p₁ p₂ p₃ : Snapshot × CallGraph} {s s' : Snapshot}
    {g g' : CallGraph} (hdescription : x.directory.Shows base seen.description id (some p₁))
    (hsymbolsThere : x.directory.Shows base seen.symbolsThere id (some p₂))
    (hgraphThere : x.directory.Shows base seen.graphThere id (some p₃))
    (hsymbols : x.directory.Shows base seen.symbols id (some (s, g')))
    (hgraph : x.directory.Shows base seen.graph id (some (s', g))) (root : String) :
    x.loadProjectOver seen id root = .ok (some (.ofSnapshot id root s g)) := by
  obtain ⟨_, h₁⟩ := hdescription
  obtain ⟨_, h₂⟩ := hsymbolsThere
  obtain ⟨_, h₃⟩ := hgraphThere
  obtain ⟨_, h₄⟩ := hsymbols
  obtain ⟨_, h₅⟩ := hgraph
  have hthere : (seen.symbolsThere.isFile (x.directory.snapshots id).symbolsPath &&
      seen.graphThere.isFile (x.directory.snapshots id).graphPath) = true := by
    rw [h₂.symbols.isFile, h₃.graph.isFile]
    rfl
  unfold Indexer.loadProjectOver SnapshotDirectory.loadOver SnapshotDirectory.loadGraph
  rw [if_pos h₁.metadata.isFile, if_pos hthere,
    Storage.runOn_readDocument h₄.symbols s.parse?_pretty,
    Storage.runOn_readDocument h₅.graph g.parse?_pretty]
  rfl

/-- What is shown to a reader of a project that is being written: before the first index is complete
nothing, later on what stands at the looks into the snapshots. -/
def shownOver (done : Looks Nat) (new : Snapshot × CallGraph) :
    Option (Snapshot × CallGraph) → Option (Snapshot × CallGraph)
  | none => if done.description < 4 then none else some new
  | some (s, g) =>
    some (if done.symbols < 2 then s else new.1, if done.graph < 3 then g else new.2)

/-- Once an index was written, each of its snapshots shows until it is replaced. -/
lemma shownAfter_some (n : Nat) (new : Snapshot × CallGraph) (s : Snapshot) (g : CallGraph) :
    shownAfter n new (some (s, g)) =
      some (if n < 2 then s else new.1, if n < 3 then g else new.2) := by
  rw [shownAfter]
  split_ifs <;> first | rfl | omega

/-- What is loaded while an index is being written: of its project what stands at the looks, of any
other what was written last. -/
lemma Written.loadProjectOver (h : x.directory.Written base t last)
    (hid : Path.IsPlainName index.projectId) (hchange : ∀ m, (change m).projectId = m.projectId)
    (hseen : seen.Overlap done (x.directory.writeSteps index change now) t)
    (hq : Path.IsPlainName q) (root : String) :
    x.loadProjectOver seen q root =
      .ok ((if q = index.projectId then shownOver done (index.snapshot, index.graph) (last q)
        else last q).map fun p => .ofSnapshot q root p.1 p.2) := by
  have hshows : ∀ {n : Nat} {t' : FileTree},
      Storage.StopsAfter n (x.directory.writeSteps index change now) t t' →
      x.directory.LiesAt base t' ∧ x.directory.Shows base t' q
        (if q = index.projectId then shownAfter n (index.snapshot, index.graph) (last q)
          else last q) := fun hstops =>
    have hall := shows_of_stopsAfter h.shows.1 h.shows.2 hid hchange hstops
    ⟨hall.1, hall.2 q hq⟩
  obtain ⟨hlies, h₁⟩ := hshows hseen.description
  have h₂ := (hshows hseen.symbolsThere).2
  have h₃ := (hshows hseen.graphThere).2
  have h₄ := (hshows hseen.symbols).2
  have h₅ := (hshows hseen.graph).2
  by_cases heq : q = index.projectId
  · simp only [if_pos heq] at h₁ h₂ h₃ h₄ h₅ ⊢
    cases hlast : last q with
    | none =>
      rw [hlast] at h₁ h₂ h₃ h₄ h₅
      by_cases hfew : done.description < 4
      · rw [shownAfter, if_pos hfew] at h₁
        rw [shownOver, if_pos hfew]
        exact h₁.loadProjectOver_eq_none hlies hq root
      · -- The description is the last document, so from the first look on all of them are new.
        have := hseen.description_le
        have := hseen.symbolsThere_le
        have := hseen.graphThere_le
        have := hseen.symbols_le
        rw [shownAfter, if_neg (by omega)] at h₁ h₂ h₃ h₄ h₅
        rw [shownOver, if_neg hfew]
        exact loadProjectOver_eq_some h₁ h₂ h₃ h₄ h₅ root
    | some pair =>
      obtain ⟨s, g⟩ := pair
      rw [hlast, shownAfter_some] at h₁ h₂ h₃ h₄ h₅
      exact loadProjectOver_eq_some h₁ h₂ h₃ h₄ h₅ root
  · simp only [if_neg heq] at h₁ h₂ h₃ h₄ h₅ ⊢
    cases hlast : last q with
    | none => exact (hlast ▸ h₁).loadProjectOver_eq_none hlies hq root
    | some pair =>
      rw [hlast] at h₁ h₂ h₃ h₄ h₅
      exact loadProjectOver_eq_some h₁ h₂ h₃ h₄ h₅ root

/-! ### What was written together -/

/-- While an index is being written, a project is loaded as it was written last or as it is being
written now, or not at all: with two exceptions, both of them about the project that is being
written and was written before.  If both looks into the snapshots fall between the writing of the
two, the new symbols are loaded with the old graph.  If both snapshots are written between the two
looks, the old symbols are loaded with the new graph.

The looks may all find the same tree: then this is what is loaded where the writing has stopped. -/
theorem loadProjectOver_of_overlap (h : x.directory.Written base t last)
    (hid : Path.IsPlainName index.projectId) (hchange : ∀ m, (change m).projectId = m.projectId)
    (hseen : seen.Overlap done (x.directory.writeSteps index change now) t)
    (hq : Path.IsPlainName q) (root : String) :
    ∃ shown : Option (Snapshot × CallGraph),
      x.loadProjectOver seen q root = .ok (shown.map fun p => .ofSnapshot q root p.1 p.2) ∧
      (∀ w : Workspace, seen = .all w.files → (x.loadProject q root).runOn w =
        (.ok (shown.map fun p => .ofSnapshot q root p.1 p.2), w)) ∧
      ((∃ s g, q = index.projectId ∧ last q = some (s, g) ∧
          done.symbols = 2 ∧ done.graph = 2 ∧ shown = some (index.snapshot, g)) ∨
        (∃ s g, q = index.projectId ∧ last q = some (s, g) ∧
          done.symbols < 2 ∧ 3 ≤ done.graph ∧ shown = some (s, index.graph)) ∨
        ¬(q = index.projectId ∧ (last q).isSome ∧
            (done.symbols = 2 ∧ done.graph = 2 ∨ done.symbols < 2 ∧ 3 ≤ done.graph)) ∧
          ∀ p, shown = some p →
            last q = some p ∨ q = index.projectId ∧ p = (index.snapshot, index.graph)) := by
  have hload := h.loadProjectOver hid hchange hseen hq root
  refine ⟨_, hload, ?_, ?_⟩
  · rintro w rfl
    rw [x.runOn_loadProject_eq_loadProjectOver, hload]
  by_cases heq : q = index.projectId
  · rw [if_pos heq]
    cases hlast : last q with
    | none =>
      refine Or.inr (Or.inr ⟨by simp, fun p hp => Or.inr ⟨heq, ?_⟩⟩)
      rw [shownOver] at hp
      split_ifs at hp
      exact (Option.some.inj hp).symm
    | some pair =>
      obtain ⟨s, g⟩ := pair
      have hle := hseen.symbols_le
      rw [shownOver]
      by_cases hbetween : done.symbols = 2 ∧ done.graph = 2
      · refine Or.inl ⟨s, g, heq, rfl, hbetween.1, hbetween.2, ?_⟩
        rw [if_neg (by omega), if_pos (by omega)]
      by_cases haround : done.symbols < 2 ∧ 3 ≤ done.graph
      · refine Or.inr (Or.inl ⟨s, g, heq, rfl, haround.1, haround.2, ?_⟩)
        rw [if_pos haround.1, if_neg (by omega)]
      refine Or.inr (Or.inr ⟨fun hall => hall.2.2.elim hbetween haround, fun p hp => ?_⟩)
      by_cases hold : done.symbols < 2
      · rw [if_pos hold, if_pos (by omega)] at hp
        exact Or.inl hp
      · rw [if_neg hold, if_neg (by omega)] at hp
        exact Or.inr ⟨heq, (Option.some.inj hp).symm⟩
  · rw [if_neg heq]
    exact Or.inr (Or.inr ⟨fun hall => heq hall.1, fun p hp => Or.inl hp⟩)

/-! ### A function that is replaced -/

section

/-- The project after its function was replaced by another one, which calls nothing. -/
def replaced : ProjectIndex := recursive.replaceFile "a.c" { symbols := [oneFunction "g"] }

/-- The steps in which it is written. -/
def replacingSteps : List (StorageAction Unit) :=
  roomIndexer.directory.writeSteps replaced (fun m => m) ⟨0, 0⟩

/-- The index of the project was written, and the new one is being written over it: one reader comes
when its first snapshot is there, and one has read the old symbols and reads the new graph. -/
lemma exists_replacing : ∃ t between after,
    roomIndexer.directory.Written ["i"] t
      (Function.update (fun _ => none) "p" (some (recursive.snapshot, recursive.graph))) ∧
    (Looks.all between).Overlap (.all 2) replacingSteps t ∧
    Looks.Overlap ⟨t, t, t, t, after⟩ ⟨0, 0, 0, 0, 3⟩ replacingSteps t := by
  obtain ⟨m, t, hrun⟩ : ∃ m t, (roomIndexer.persist recursive fun m => m).runOn
      { files := indexRoom } = (.ok m, { files := t }) :=
    Indexer.exists_persist awaitsIndex_indexRoom fun _ => rfl
  have hplain : Path.IsPlainName recursive.projectId := by decide
  have hwritten := written_indexRoom.persist (w := { files := indexRoom }) rfl hplain
    (fun _ => rfl) hrun
  obtain ⟨n, between, hw, hstops, -⟩ := Indexer.stopsAfter_persist hrun
  obtain rfl : t = between := congrArg Workspace.files hw
  obtain ⟨-, hgrows⟩ := (written_indexRoom.shows.2 _ hplain).stopsAfter written_indexRoom.shows.1
    hplain (fun _ => rfl) hstops
  obtain ⟨m, hm⟩ := hwritten.shows.2 "p" hplain
  have hdocuments : roomIndexer.directory.HasDocuments replaced.projectId (placesIn ["i"] "p") t
      (Storage.fileOf recursive.snapshot.toJson) (Storage.fileOf recursive.graph.toJson) m := hm
  obtain ⟨after, hafter⟩ : ∃ after, Storage.StopsAfter 3 replacingSteps t after :=
    hdocuments.exists_stopsAfter_three awaitsIndex_indexRoom hgrows
  obtain ⟨between, hbetween⟩ := hafter.exists_of_le (show 2 ≤ 3 by decide)
  have hstart : Storage.StopsAfter 0 replacingSteps t t := .here _ t
  exact ⟨t, between, after, hwritten, Looks.overlap_all hbetween,
    ⟨hstart, hstart, hstart, hstart, hafter, le_rfl, le_rfl, le_rfl, by decide⟩⟩

/-- A reader who has read the old symbols before both snapshots are replaced reads the new graph. -/
theorem loadProjectOver_replaced : ∃ t after : FileTree,
    roomIndexer.directory.Written ["i"] t
      (Function.update (fun _ => none) "p" (some (recursive.snapshot, recursive.graph))) ∧
    Looks.Overlap ⟨t, t, t, t, after⟩ ⟨0, 0, 0, 0, 3⟩ replacingSteps t ∧
    ∃ shown : Option (Snapshot × CallGraph),
      roomIndexer.loadProjectOver ⟨t, t, t, t, after⟩ "p" "/p" =
        .ok (shown.map fun p => .ofSnapshot "p" "/p" p.1 p.2) ∧
      shown = some (recursive.snapshot, replaced.graph) := by
  obtain ⟨t, -, after, hwritten, -, hseen⟩ := exists_replacing
  obtain ⟨shown, hload, -, hshown⟩ := loadProjectOver_of_overlap hwritten
    (show Path.IsPlainName replaced.projectId by decide) (fun _ => rfl) hseen
    (show Path.IsPlainName "p" by decide) "/p"
  refine ⟨t, after, hwritten, hseen, shown, hload, ?_⟩
  rcases hshown with ⟨_, _, -, -, htwo, -⟩ | ⟨s, g, -, hlast, -, -, rfl⟩ | ⟨hnot, -⟩
  · cases htwo
  · rw [Function.update_self] at hlast
    obtain ⟨rfl, -⟩ := Prod.mk.inj (Option.some.inj hlast)
    rfl
  · exact absurd ⟨rfl, rfl, Or.inr ⟨by decide, by decide⟩⟩ hnot

/-- What is loaded by readers who look when certain numbers of steps are done was written
together. -/
def LoadsTogether (when : Looks Nat → Prop) : Prop :=
  ∀ (x : Indexer) (base : Place) (t : FileTree) (last : String → Option (Snapshot × CallGraph))
    (index : ProjectIndex) (change : IndexMetadata → IndexMetadata) (now : Timestamp)
    (seen : Looks FileTree) (done : Looks Nat) (q root : String) (loaded : ProjectIndex),
    x.directory.Written base t last → Path.IsPlainName index.projectId →
    (∀ m, (change m).projectId = m.projectId) →
    seen.Overlap done (x.directory.writeSteps index change now) t → when done →
    Path.IsPlainName q → x.loadProjectOver seen q root = .ok (some loaded) →
    ∃ s g, (last q = some (s, g) ∨ q = index.projectId ∧ (s, g) = (index.snapshot, index.graph)) ∧
      loaded = .ofSnapshot q root s g

/-- The graphs of the two indexes differ. -/
lemma graph_replaced_ne : replaced.graph ≠ recursive.graph := fun heq =>
  absurd (congrArg CallGraph.edgeCount heq) (by decide)

/-- Indexes that are made of the symbols of the two differ, whatever their graphs are. -/
lemma ofSnapshot_replaced_ne (g g' : CallGraph) :
    ProjectIndex.ofSnapshot "p" "/p" replaced.snapshot g ≠
      .ofSnapshot "p" "/p" recursive.snapshot g' := by
  intro heq
  have hcalls : (CallTable.empty.insertAll replaced.snapshot.calls).toList =
      (CallTable.empty.insertAll recursive.snapshot.calls).toList :=
    congrArg (fun i : ProjectIndex => i.calls.toList) heq
  exact absurd hcalls (by decide +kernel)

/-- What is loaded need not have been written together: neither where the writing has stopped
between the snapshots nor by a reader who looks at other times than in between. -/
theorem not_loadsTogether : ¬LoadsTogether (fun done => done = .all 2) ∧
    ¬LoadsTogether (fun done => done.symbols ≠ 2 ∨ done.graph ≠ 2) := by
  obtain ⟨t, between, after, hwritten, hbetween, haround⟩ := exists_replacing
  have hid : Path.IsPlainName replaced.projectId := by decide
  have hq : Path.IsPlainName "p" := by decide
  constructor
  · intro hclaim
    have hload := hwritten.loadProjectOver hid (fun _ => rfl) hbetween hq "/p"
    obtain ⟨s, g, hpair, hloaded⟩ :=
      hclaim _ _ _ _ _ _ _ _ _ _ _ _ hwritten hid (fun _ => rfl) hbetween rfl hq hload
    have hgraph : recursive.graph = g := congrArg ProjectIndex.graph hloaded
    rcases hpair with hlast | ⟨-, hnew⟩
    · rw [Function.update_self] at hlast
      obtain ⟨rfl, -⟩ := Prod.mk.inj (Option.some.inj hlast)
      exact ofSnapshot_replaced_ne _ _ hloaded
    · exact graph_replaced_ne ((Prod.mk.inj hnew).2.symm.trans hgraph.symm)
  · intro hclaim
    have hload := hwritten.loadProjectOver hid (fun _ => rfl) haround hq "/p"
    obtain ⟨s, g, hpair, hloaded⟩ := hclaim _ _ _ _ _ _ _ _ _ _ _ _ hwritten hid (fun _ => rfl)
      haround (Or.inl (by decide)) hq hload
    have hgraph : replaced.graph = g := congrArg ProjectIndex.graph hloaded
    rcases hpair with hlast | ⟨-, hnew⟩
    · rw [Function.update_self] at hlast
      exact graph_replaced_ne (hgraph.trans (Prod.mk.inj (Option.some.inj hlast)).2.symm)
    · obtain ⟨rfl, -⟩ := Prod.mk.inj hnew
      exact ofSnapshot_replaced_ne _ _ hloaded.symm

end

end IndexDirectory

end CodeAtlas
