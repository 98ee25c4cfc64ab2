import CodeAtlas.Proofs.Graph.Adjacency
import Mathlib.Data.Finset.Card
import Mathlib.Data.Finset.Dedup
import Mathlib.Data.Finset.Filter
import Mathlib.Data.Set.Insert

/-!
# A call graph holds a set of edges

The two adjacency maps of a call graph are one set of edges, grouped by caller and by callee.  The
relation `CallGraph.Holds` says so: both maps are tight, a callee is a forward neighbour and a
caller a reverse neighbour exactly along an edge of the set, and no include list repeats a path.

Every operation on graphs has its counterpart on sets, and `Holds` is kept by the pair of them.
The only operation for which this takes an argument is taking out an identifier: it reads the
callees in one map and the callers in the other *after* the first has been edited, and both readings
are complete because the maps are grouped from one set.  A graph is determined by its set of edges
and its includes, so what a history of changes leaves does not depend on how it was reached.
-/

namespace CodeAtlas

open Std (ExtTreeMap ExtTreeSet)

/-- An edge is determined by its two ends. -/
lemma CallEdge.mk_eq_iff {c d : SymbolId} {e : CallEdge} :
    ⟨c, d⟩ = e ↔ c = e.caller ∧ d = e.callee := by
  cases e
  simp

/-- The two maps of the graph are the given edges, grouped by caller and by callee. -/
structure CallGraph.Holds (g : CallGraph) (E : Set CallEdge) : Prop where
  forward_tight : g.forward.Tight
  reverse_tight : g.reverse.Tight
  mem_forward : ∀ c d, d ∈ g.forward.neighbours c ↔ ⟨c, d⟩ ∈ E
  mem_reverse : ∀ c d, c ∈ g.reverse.neighbours d ↔ ⟨c, d⟩ ∈ E
  includes_nodup : ∀ (file : String) (targets : List String),
    g.includes[file]? = some targets → targets.Nodup

namespace CallGraph

variable {g h : CallGraph} {E F : Set CallEdge}

namespace Holds

/-- The set of edges that a graph holds is read off by `hasEdge`. -/
lemma hasEdge_iff (hg : g.Holds E) (c d : SymbolId) : g.hasEdge c d = true ↔ ⟨c, d⟩ ∈ E := by
  rw [hasEdge, ← ExtTreeSet.mem_iff_contains]
  exact hg.mem_forward c d

/-- A graph is determined by the edges that it holds and its includes. -/
lemma eq_of_includes_eq (hg : g.Holds E) (hh : h.Holds E) (hi : g.includes = h.includes) :
    g = h := by
  have hf : g.forward = h.forward := hg.forward_tight.ext hh.forward_tight fun c d =>
    (hg.mem_forward c d).trans (hh.mem_forward c d).symm
  have hr : g.reverse = h.reverse := hg.reverse_tight.ext hh.reverse_tight fun d c =>
    (hg.mem_reverse c d).trans (hh.mem_reverse c d).symm
  obtain ⟨gf, gr, gi⟩ := g
  obtain ⟨hf', hr', hi'⟩ := h
  simp only at hf hr hi
  rw [hf, hr, hi]

/-- Equal sets of edges are held by the same graphs. -/
lemma congr (hg : g.Holds E) (hE : ∀ e, e ∈ E ↔ e ∈ F) : g.Holds F := by
  have : E = F := Set.ext hE
  exact this ▸ hg

end Holds

/-- The empty graph holds no edges. -/
lemma holds_empty : CallGraph.empty.Holds ∅ where
  forward_tight := Adjacency.tight_empty
  reverse_tight := Adjacency.tight_empty
  mem_forward c d := by simp [empty]
  mem_reverse c d := by simp [empty]
  includes_nodup file targets ht := by simp [empty] at ht

/-! ### The include lists -/

/-- Edges that are put in leave the includes alone. -/
lemma includes_addEdges (g : CallGraph) (es : List CallEdge) :
    (g.addEdges es).includes = g.includes := by
  unfold addEdges
  induction es generalizing g with
  | nil => rfl
  | cons e es ih => exact ih (g.addEdge e)

/-- Identifiers that are taken out leave the includes alone. -/
lemma includes_removeSymbols (g : CallGraph) (ids : List SymbolId) :
    (g.removeSymbols ids).includes = g.includes := by
  unfold removeSymbols
  induction ids generalizing g with
  | nil => rfl
  | cons id ids ih => exact ih (g.removeSymbol id)

/-- The include list of a file with one more path: behind the others unless it is among them. -/
def withTarget (targets : Option (List String)) (target : String) : Option (List String) :=
  let targets := targets.getD []
  some (if targets.contains target then targets else targets ++ [target])

/-- Recording an include touches the list of its file. -/
lemma includes_addInclude (g : CallGraph) (file target k : String) :
    (g.addInclude file target).includes[k]? =
      if file = k then withTarget g.includes[k]? target else g.includes[k]? := by
  simp only [addInclude, ExtTreeMap.getElem?_insert, Std.LawfulEqCmp.compare_eq_iff_eq]
  by_cases h : file = k
  · simp [withTarget, h]
  · rw [if_neg h, if_neg h]

/-- Recording includes touches the list of a file with those of them that are of that file. -/
lemma includes_addIncludes (g : CallGraph) (es : List IncludeEdge) (k : String) :
    (g.addIncludes es).includes[k]? =
      (es.filter fun e => e.file == k).foldl (fun ts e => withTarget ts e.target)
        g.includes[k]? := by
  unfold addIncludes
  induction es generalizing g with
  | nil => rfl
  | cons e es ih =>
    rw [List.foldl_cons, ih, includes_addInclude]
    by_cases h : e.file = k
    · simp [h]
    · simp [h]

namespace Holds

/-! ### Edges that are put in -/

/-- Putting an edge in. -/
lemma addEdge (hg : g.Holds E) (e : CallEdge) : (g.addEdge e).Holds (insert e E) where
  forward_tight := hg.forward_tight.link _ _
  reverse_tight := hg.reverse_tight.link _ _
  mem_forward c d := by
    rw [CallGraph.addEdge, Adjacency.mem_neighbours_link, hg.mem_forward, Set.mem_insert_iff,
      CallEdge.mk_eq_iff]
  mem_reverse c d := by
    rw [CallGraph.addEdge, Adjacency.mem_neighbours_link, hg.mem_reverse, Set.mem_insert_iff,
      CallEdge.mk_eq_iff, and_comm]
  includes_nodup := hg.includes_nodup

/-- Putting edges in, one after the other. -/
lemma addEdges (hg : g.Holds E) (es : List CallEdge) :
    (g.addEdges es).Holds {e | e ∈ E ∨ e ∈ es} := by
  unfold CallGraph.addEdges
  induction es generalizing g E with
  | nil => exact hg.congr fun e => by simp
  | cons e es ih =>
    refine (ih (hg.addEdge e)).congr fun e' => ?_
    simp only [Set.mem_ofPred_eq, Set.mem_insert_iff, List.mem_cons]
    tauto

/-! ### Identifiers that are taken out -/

/-- Taking an identifier out takes out every edge that touches it.  The callers are read in a
reverse map from which the callees of the identifier were unlinked already; that reading misses the
identifier itself at most, and no callee is left under it anyway. -/
lemma removeSymbol (hg : g.Holds E) (id : SymbolId) :
    (g.removeSymbol id).Holds {e | e ∈ E ∧ e.caller ≠ id ∧ e.callee ≠ id} where
  forward_tight := (hg.forward_tight.erase id).unlinkAll _ _
  reverse_tight := (hg.reverse_tight.unlinkAll _ _).erase id
  mem_forward c d := by
    have hcallees : ∀ k, k ∈ (g.forward.neighbours id).toList ↔ ⟨id, k⟩ ∈ E := fun k =>
      ExtTreeSet.mem_toList.trans (hg.mem_forward id k)
    have hcallers : ∀ k, k ∈ ((g.reverse.unlinkAll (g.forward.neighbours id).toList id).neighbours
        id).toList ↔ ⟨k, id⟩ ∈ E ∧ k ≠ id := by
      intro k
      rw [ExtTreeSet.mem_toList, Adjacency.mem_neighbours_unlinkAll, hg.mem_reverse, hcallees]
      constructor
      · rintro ⟨hk, hne⟩
        exact ⟨hk, fun h => hne ⟨h ▸ hk, h⟩⟩
      · rintro ⟨hk, hne⟩
        exact ⟨hk, fun h => hne h.2⟩
    simp only [CallGraph.removeSymbol, Adjacency.mem_neighbours_unlinkAll,
      Adjacency.neighbours_erase, hcallers, Set.mem_ofPred_eq]
    by_cases hc : c = id
    · simp [hc]
    · rw [if_neg hc, hg.mem_forward]
      constructor
      · rintro ⟨he, hne⟩
        exact ⟨he, hc, fun hd => hne ⟨⟨hd ▸ he, hc⟩, hd⟩⟩
      · rintro ⟨he, -, hd⟩
        exact ⟨he, fun h => hd h.2⟩
  mem_reverse c d := by
    have hcallees : ∀ k, k ∈ (g.forward.neighbours id).toList ↔ ⟨id, k⟩ ∈ E := fun k =>
      ExtTreeSet.mem_toList.trans (hg.mem_forward id k)
    simp only [CallGraph.removeSymbol, Adjacency.neighbours_erase, Set.mem_ofPred_eq]
    by_cases hd : d = id
    · simp [hd]
    · rw [if_neg hd, Adjacency.mem_neighbours_unlinkAll, hg.mem_reverse, hcallees]
      constructor
      · rintro ⟨he, hne⟩
        exact ⟨he, fun hc => hne ⟨hc ▸ he, hc⟩, hd⟩
      · rintro ⟨he, hc, -⟩
        exact ⟨he, fun h => hc h.2⟩
  includes_nodup := hg.includes_nodup

/-- Taking identifiers out, one after the other. -/
lemma removeSymbols (hg : g.Holds E) (ids : List SymbolId) :
    (g.removeSymbols ids).Holds {e | e ∈ E ∧ e.caller ∉ ids ∧ e.callee ∉ ids} := by
  unfold CallGraph.removeSymbols
  induction ids generalizing g E with
  | nil => exact hg.congr fun e => by simp
  | cons id ids ih =>
    refine (ih (hg.removeSymbol id)).congr fun e => ?_
    simp only [Set.mem_ofPred_eq, List.mem_cons, not_or]
    tauto

/-! ### Includes -/

/-- Recording an include changes no edge and repeats no path. -/
lemma addInclude (hg : g.Holds E) (file target : String) : (g.addInclude file target).Holds E where
  forward_tight := hg.forward_tight
  reverse_tight := hg.reverse_tight
  mem_forward := hg.mem_forward
  mem_reverse := hg.mem_reverse
  includes_nodup k targets ht := by
    have hold : ((g.includes[file]?).getD []).Nodup := by
      cases hf : g.includes[file]? with
      | none => exact List.nodup_nil
      | some ts => exact hg.includes_nodup file ts hf
    simp only [CallGraph.addInclude, ExtTreeMap.getElem?_insert,
      Std.LawfulEqCmp.compare_eq_iff_eq] at ht
    split_ifs at ht with hk hin
    · exact Option.some.inj ht ▸ hold
    · rw [← Option.some.inj ht, List.nodup_append]
      refine ⟨hold, List.nodup_singleton _, fun a ha b hb hab => hin ?_⟩
      rw [List.mem_singleton.mp hb] at hab
      exact List.contains_iff_mem.mpr (hab ▸ ha)
    · exact hg.includes_nodup k targets ht

/-- Recording include edges, one after the other. -/
lemma addIncludes (hg : g.Holds E) (es : List IncludeEdge) : (g.addIncludes es).Holds E := by
  unfold CallGraph.addIncludes
  induction es generalizing g with
  | nil => exact hg
  | cons e es ih => exact ih (hg.addInclude e.file e.target)

/-- Forgetting the includes of a file changes no edge. -/
lemma removeIncludes (hg : g.Holds E) (file : String) : (g.removeIncludes file).Holds E where
  forward_tight := hg.forward_tight
  reverse_tight := hg.reverse_tight
  mem_forward := hg.mem_forward
  mem_reverse := hg.mem_reverse
  includes_nodup k targets ht := by
    simp only [CallGraph.removeIncludes, ExtTreeMap.getElem?_erase,
      Std.LawfulEqCmp.compare_eq_iff_eq] at ht
    split_ifs at ht with hk
    exact hg.includes_nodup k targets ht

/-- Other includes without repetitions may stand beside the same edges. -/
lemma withIncludes (hg : g.Holds E) (hh : h.Holds F) :
    ({ g with includes := h.includes } : CallGraph).Holds E where
  forward_tight := hg.forward_tight
  reverse_tight := hg.reverse_tight
  mem_forward := hg.mem_forward
  mem_reverse := hg.mem_reverse
  includes_nodup := hh.includes_nodup

/-! ### What a graph that holds a set of edges answers -/

/-- Under a caller stands the set of its callees, if it has any. -/
lemma forward_eq_some_iff (hg : g.Holds E) (c : SymbolId) (s : ExtTreeSet SymbolId) :
    g.forward[c]? = some s ↔ s ≠ ∅ ∧ ∀ d, d ∈ s ↔ ⟨c, d⟩ ∈ E := by
  rw [hg.forward_tight.getElem?_eq_some_iff]
  refine and_congr_right fun _ => ⟨fun hs d => hs ▸ hg.mem_forward c d, fun hs => ?_⟩
  exact ExtTreeSet.ext_mem fun d => (hg.mem_forward c d).trans (hs d).symm

/-- Under a callee stands the set of its callers, if it has any. -/
lemma reverse_eq_some_iff (hg : g.Holds E) (d : SymbolId) (s : ExtTreeSet SymbolId) :
    g.reverse[d]? = some s ↔ s ≠ ∅ ∧ ∀ c, c ∈ s ↔ ⟨c, d⟩ ∈ E := by
  rw [hg.reverse_tight.getElem?_eq_some_iff]
  refine and_congr_right fun _ => ⟨fun hs c => hs ▸ hg.mem_reverse c d, fun hs => ?_⟩
  exact ExtTreeSet.ext_mem fun c => (hg.mem_reverse c d).trans (hs c).symm

/-- The edges that a graph lists are those that it holds. -/
lemma mem_edges (hg : g.Holds E) (e : CallEdge) : e ∈ g.edges ↔ e ∈ E := by
  simp only [edges, List.mem_map, Adjacency.mem_pairs, Prod.exists]
  constructor
  · rintro ⟨c, d, hd, rfl⟩
    exact (hg.mem_forward c d).mp hd
  · intro he
    exact ⟨e.caller, e.callee, (hg.mem_forward _ _).mpr he, rfl⟩

/-- The same identifiers in any order, and each any number of times, leave the same graph. -/
lemma removeSymbols_congr (hg : g.Holds E) {ids ids' : List SymbolId}
    (hids : ∀ id, id ∈ ids ↔ id ∈ ids') : g.removeSymbols ids = g.removeSymbols ids' := by
  refine (hg.removeSymbols ids).eq_of_includes_eq ((hg.removeSymbols ids').congr fun e => ?_) ?_
  · simp only [Set.mem_ofPred_eq, hids]
  · rw [includes_removeSymbols, includes_removeSymbols]

end Holds

/-- No edge is listed twice. -/
lemma nodup_edges (g : CallGraph) : g.edges.Nodup :=
  (Adjacency.nodup_pairs _).map fun _ _ h =>
    Prod.ext (congrArg CallEdge.caller h) (congrArg CallEdge.callee h)

/-- The edges are counted without listing them. -/
lemma edgeCount_eq_length (g : CallGraph) : g.edgeCount = g.edges.length := by
  simp [edgeCount, edges]

end CallGraph

/-! ### Histories of changes -/

/-- A change of a call graph. -/
inductive GraphChange where
  | addEdge (e : CallEdge)
  | addEdges (es : List CallEdge)
  | removeSymbols (ids : List SymbolId)
  | addInclude (file target : String)
  | removeIncludes (file : String)
  | clear

namespace GraphChange

/-- What a change does to a graph. -/
def onGraph (g : CallGraph) : GraphChange → CallGraph
  | .addEdge e => (g.insertEdge e).2
  | .addEdges es => g.addEdges es
  | .removeSymbols ids => g.removeSymbols ids
  | .addInclude file target => g.addInclude file target
  | .removeIncludes file => g.removeIncludes file
  | .clear => g.clear

/-- What a change does to a plain set of edges: pairs are inserted, and every pair with an end among
the identifiers that are taken out is deleted. -/
def onEdges (E : Finset CallEdge) : GraphChange → Finset CallEdge
  | .addEdge e => insert e E
  | .addEdges es => E ∪ es.toFinset
  | .removeSymbols ids => E.filter fun e => e.caller ∉ ids ∧ e.callee ∉ ids
  | .addInclude .. => E
  | .removeIncludes .. => E
  | .clear => ∅

/-- One change keeps graph and set together. -/
lemma holds_onGraph {g : CallGraph} {E : Finset CallEdge} (hg : g.Holds E) (x : GraphChange) :
    (onGraph g x).Holds (onEdges E x) := by
  cases x with
  | addEdge e => exact (hg.addEdge e).congr fun e' => by simp [onEdges]
  | addEdges es => exact (hg.addEdges es).congr fun e' => by simp [onEdges]
  | removeSymbols ids => exact (hg.removeSymbols ids).congr fun e' => by simp [onEdges]
  | addInclude file target => exact hg.addInclude file target
  | removeIncludes file => exact hg.removeIncludes file
  | clear => exact CallGraph.holds_empty.congr fun e' => by simp [onEdges]

/-- The graph that a history of changes leaves. -/
def graphAfter (history : List GraphChange) : CallGraph := history.foldl onGraph .empty

/-- The set of edges that a history of changes leaves. -/
def edgesAfter (history : List GraphChange) : Finset CallEdge := history.foldl onEdges ∅

/-- Graph and set stay together along every history. -/
lemma holds_graphAfter (history : List GraphChange) :
    (graphAfter history).Holds (edgesAfter history) := by
  suffices hrun : ∀ (history : List GraphChange) (g : CallGraph) (E : Finset CallEdge),
      g.Holds E → (history.foldl onGraph g).Holds (history.foldl onEdges E : Finset CallEdge) from
    hrun history .empty ∅ (CallGraph.holds_empty.congr fun e => by simp)
  intro history
  induction history with
  | nil => exact fun g E hg => hg
  | cons x history ih => exact fun g E hg => ih _ _ (holds_onGraph hg x)

/-- After every history the graph is the plain set of edges: its maps are the set grouped by caller
and by callee without an empty group, so it is the graph that any listing of the set builds;
inserting an edge tells whether it is new; the edges are listed once each and counted; identifiers
are taken out in any order; and no include list has a repetition. -/
theorem graphAfter_refines_edgesAfter (history : List GraphChange) :
    let g := graphAfter history
    let E := edgesAfter history
    (∀ (c : SymbolId) (s : ExtTreeSet SymbolId), g.forward[c]? = some s ↔
      s ≠ ∅ ∧ ∀ d, d ∈ s ↔ (⟨c, d⟩ : CallEdge) ∈ E) ∧
    (∀ (d : SymbolId) (s : ExtTreeSet SymbolId), g.reverse[d]? = some s ↔
      s ≠ ∅ ∧ ∀ c, c ∈ s ↔ (⟨c, d⟩ : CallEdge) ∈ E) ∧
    (∀ es : List CallEdge, es.toFinset = E →
      { CallGraph.empty.addEdges es with includes := g.includes } = g) ∧
    (∀ e, (g.insertEdge e).1 = true ↔ e ∉ E) ∧
    (g.edges.Nodup ∧ ∀ e, e ∈ g.edges ↔ e ∈ E) ∧
    g.edgeCount = E.card ∧
    (∀ ids ids' : List SymbolId, (∀ id, id ∈ ids ↔ id ∈ ids') →
      g.removeSymbols ids = g.removeSymbols ids') ∧
    (∀ (file : String) (targets : List String), g.includes[file]? = some targets →
      targets.Nodup) := by
  intro g E
  have hg : g.Holds E := holds_graphAfter history
  have hlist : g.edges.toFinset = E := by
    ext e
    rw [List.mem_toFinset, hg.mem_edges, Finset.mem_coe]
  refine ⟨hg.forward_eq_some_iff, hg.reverse_eq_some_iff, ?_, ?_, ⟨g.nodup_edges, hg.mem_edges⟩, ?_,
    fun ids ids' hids => hg.removeSymbols_congr hids, hg.includes_nodup⟩
  · intro es hes
    have hbuilt : (CallGraph.empty.addEdges es).Holds E :=
      (CallGraph.holds_empty.addEdges es).congr fun e => by simp [← hes]
    exact (hbuilt.withIncludes hg).eq_of_includes_eq hg rfl
  · intro e
    have he : g.hasEdge e.caller e.callee = true ↔ e ∈ E := hg.hasEdge_iff e.caller e.callee
    rw [CallGraph.insertEdge, Bool.not_eq_true', ← Bool.not_eq_true, he]
  · rw [g.edgeCount_eq_length, ← List.toFinset_card_of_nodup g.nodup_edges, hlist]

end GraphChange

end CodeAtlas
