import CodeAtlas.Proofs.Storage.Interruption

/-!
# Snapshots that are saved and loaded

The symbols of a project and its call graph leave the memory as two texts and come back from them.
Nothing is lost on the way, whatever the strings in them are: `Snapshot.parse?_pretty` and
`CallGraph.parse?_pretty` say so for the texts, and here it is said of the files
(`SnapshotDirectory.load_of_save`).

A saved document is a file in place of whatever had its name.  Had that been a link which the way to
the directory goes through, the directory would not be found again; so no links may have the names
of the documents.
-/

namespace CodeAtlas

open CodeAtlas.Action CodeAtlas.FileTree

namespace SnapshotDirectory

variable {t t' : FileTree} {name : String}

/-- No link has a given name. -/
def NoLinkNamed (t : FileTree) (name : String) : Prop :=
  ∀ place target, t.entry? place = some (.link target) → place.getLast? ≠ some name

/-- Where no link has the name of a document, the path of the document leads to none. -/
lemma NoLinkNamed.ne_link (h : NoLinkNamed t name) (hname : Path.IsPlainName name) {path : String}
    {touched : Set Place} {place : Place} (hgrows : Grows touched t t')
    (hlocate : t'.locate (Path.join path name) false = .ok place) (target : String) :
    t'.entry? place ≠ some (.link target) := by
  obtain ⟨above, -, rfl⟩ := locate_join hname hlocate
  intro htarget
  exact h _ target ((hgrows.link_iff _ target).mp htarget) List.getLast?_concat

/-- A snapshot and a graph are read back from their documents exactly as they were, and they are
loaded from a directory after they were saved there. -/
theorem load_of_save (s : Snapshot) (g : CallGraph) :
    (Json.parse? s.toJson.pretty).bind Snapshot.ofJson? = some s ∧
    CallGraph.ofText? g.toText = some g ∧
    ∀ (d : SnapshotDirectory) (t t' : FileTree),
      NoLinkNamed t "symbols.json" → NoLinkNamed t "call_graph.json" →
      (d.save s g).runOn t = (.ok (), t') → d.load.runOn t' = (.ok (some (s, g)), t') := by
  refine ⟨s.parse?_pretty, g.parse?_pretty, fun d t t' hsymbols hgraph hrun => ?_⟩
  obtain ⟨place, place', -, -, hstands, hstands'⟩ := stands_of_save (fun hgrows hq => by
    rcases hq with hq | hq
    · exact hsymbols.ne_link (by decide) hgrows hq
    · exact hgraph.ne_link (by decide) hgrows hq) hrun
  exact runOn_load hstands hstands'

/-! ### An example -/

section

open IndexDirectory

/-- Two macros, one that takes no argument list and one whose list is empty, with quotes, control
characters and signs beyond the basic plane in their texts. -/
def twoMacros : Snapshot where
  symbols := [
    ⟨⟨"m0"⟩, "PLAIN", "a.c", 1, "#define PLAIN \"\\\t\"", .syntaxTree, .define none "\"\\\t\""⟩,
    ⟨⟨"m1"⟩, "CALLED", "ä.c", 2, "\x00\x1f😀", .syntaxTree, .define (some []) "\n"⟩]
  calls := [⟨⟨"m0"⟩, "\r"⟩]
  files := ["a.c", "ä.c"]

/-- Both macros are loaded as they were after they were saved. -/
theorem load_of_save_twoMacros : ∃ t,
    ((roomIndexer.directory.snapshots "p").save twoMacros recursive.graph).runOn indexRoom =
      (.ok (), t) ∧
    (roomIndexer.directory.snapshots "p").load.runOn t =
      (.ok (some (twoMacros, recursive.graph)), t) := by
  obtain ⟨t, hrun, -⟩ := awaitsIndex_indexRoom.exists_save_snapshots twoMacros recursive.graph
  have hlink : ∀ name, NoLinkNamed indexRoom name := fun name place target htarget => by
    cases entry?_indexRoom htarget
  exact ⟨t, hrun, (load_of_save twoMacros recursive.graph).2.2 _ _ t (hlink _) (hlink _) hrun⟩

end

end SnapshotDirectory

end CodeAtlas
