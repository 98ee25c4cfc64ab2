import CodeAtlas.Proofs.Graph.Search
import Mathlib.Data.Finset.Card
import Mathlib.Data.Nat.Find
import Mathlib.Logic.Relation
import Mathlib.Order.Interval.Finset.Nat

/-!
# How deep a search has to go

A search of a bounded depth is exact: it finds the ends of the paths of one up to that many hops and
nothing else.  With enough depth it finds everything that can be reached.

Enough is the number of identifiers that occur as neighbours.  Every hop of a path ends at one of
them, so on a longer path two hops end at the same identifier, and what lies between them can be cut
out.  A shortest path is therefore no longer than that number, and a search of that depth misses
nothing.
-/

namespace CodeAtlas

open Std (ExtTreeSet)

namespace Hops

variable {α : Type} {R : α → α → Prop} {m n : Nat} {u v w : α}

/-- Two paths are put end to end. -/
lemma trans (h : Hops R m u v) (h' : Hops R n v w) : Hops R (m + n) u w := by
  induction h with
  | nil u => rwa [Nat.zero_add]
  | @cons m u x v first rest ih =>
    rw [Nat.add_right_comm]
    exact .cons first (ih h')

/-- A path passes some place after each number of hops. -/
lemma exists_after (h : Hops R (m + n) u w) : ∃ v, Hops R m u v ∧ Hops R n v w := by
  induction m generalizing u with
  | zero =>
    rw [Nat.zero_add] at h
    exact ⟨u, .nil u, h⟩
  | succ m ih =>
    rw [Nat.add_right_comm] at h
    cases h with
    | @cons _ _ x _ first rest =>
      obtain ⟨v, hv, hw⟩ := ih rest
      exact ⟨v, .cons first hv, hw⟩

/-- What a path of at least one hop arrives at is the end of a hop. -/
lemma exists_last (h : Hops R n u w) (hn : 1 ≤ n) : ∃ v, R v w := by
  obtain ⟨k, rfl⟩ := Nat.exists_eq_add_of_le' hn
  obtain ⟨v, -, hv⟩ := exists_after h
  cases hv with
  | @cons _ _ x _ first rest =>
    cases rest
    exact ⟨v, first⟩

/-- The places that can be reached are the ends of the paths of at least one hop. -/
lemma transGen_iff : Relation.TransGen R u w ↔ ∃ n, 1 ≤ n ∧ Hops R n u w := by
  constructor
  · intro h
    induction h with
    | single first => exact ⟨1, le_rfl, .cons first (.nil _)⟩
    | tail _ last ih =>
      obtain ⟨n, hn, hpath⟩ := ih
      exact ⟨n + 1, Nat.le_succ_of_le hn, hpath.snoc last⟩
  · rintro ⟨n, hn, hpath⟩
    induction hpath with
    | nil => omega
    | @cons n u v w first rest ih =>
      cases n with
      | zero =>
        cases rest
        exact .single first
      | succ n => exact .head first (ih (Nat.le_add_left 1 n))

/-- A path on which two numbers of hops lead to the same place can be cut short. -/
lemma exists_shorter {T : Finset α} (hT : ∀ a b, R a b → b ∈ T) (h : Hops R n u w)
    (hn : T.card < n) : ∃ m, 1 ≤ m ∧ m < n ∧ Hops R m u w := by
  have : Nonempty α := ⟨u⟩
  have hplace : ∀ i ∈ Finset.Icc 1 n, ∃ v, Hops R i u v ∧ Hops R (n - i) v w := by
    intro i hi
    refine exists_after ?_
    rwa [Nat.add_sub_cancel' (Finset.mem_Icc.mp hi).2]
  choose! place hfrom hto using hplace
  have hmaps : ∀ i ∈ Finset.Icc 1 n, place i ∈ T := by
    intro i hi
    obtain ⟨v, hv⟩ := (hfrom i hi).exists_last (Finset.mem_Icc.mp hi).1
    exact hT v _ hv
  have hcard : T.card < (Finset.Icc 1 n).card := by
    rwa [Nat.card_Icc, Nat.add_sub_cancel]
  obtain ⟨i, hi, j, hj, hij, hsame⟩ := Finset.exists_ne_map_eq_of_card_lt_of_maps_to hcard hmaps
  -- of the two numbers the smaller leads there, and what follows the larger leads on
  wlog hlt : i < j generalizing i j
  · exact this j hj i hi hij.symm hsame.symm (by omega)
  have hbounds := Finset.mem_Icc.mp hi
  have hbounds' := Finset.mem_Icc.mp hj
  have hfromj : Hops R i u (place j) := hsame ▸ hfrom i hi
  exact ⟨i + (n - j), by omega, by omega, hfromj.trans (hto j hj)⟩

/-- Whatever can be reached is reached in no more hops than there are ends of hops. -/
lemma exists_le_card {T : Finset α} (hT : ∀ a b, R a b → b ∈ T) (h : Hops R n u w) (hn : 1 ≤ n) :
    ∃ m, 1 ≤ m ∧ m ≤ T.card ∧ Hops R m u w := by
  induction n using Nat.strong_induction_on with
  | _ n ih =>
    by_cases hle : n ≤ T.card
    · exact ⟨n, hn, hle, h⟩
    · obtain ⟨m, hm, hmn, hpath⟩ := exists_shorter hT h (Nat.lt_of_not_le hle)
      exact ih m hmn hpath hm

end Hops

namespace Adjacency

variable {a : Adjacency} {u v s : SymbolId} {d : Nat}

/-- The identifiers that occur as neighbours. -/
def targets (a : Adjacency) : Finset SymbolId := (a.pairs.map (·.2)).toFinset

/-- An identifier occurs as a neighbour if some identifier is linked to it. -/
lemma mem_targets : v ∈ a.targets ↔ ∃ u, a.Linked u v := by
  simp only [targets, List.mem_toFinset, List.mem_map, mem_pairs, Linked]
  constructor
  · rintro ⟨p, hmem, rfl⟩
    exact ⟨p.1, hmem⟩
  · rintro ⟨u, hmem⟩
    exact ⟨(u, v), hmem, rfl⟩

/-- An identifier that the map does not keep leads nowhere. -/
lemma not_linked_of_not_mem (hu : u ∉ a) : ¬a.Linked u v := by
  rw [Linked, neighbours, Std.ExtTreeMap.getElem?_eq_none hu]
  exact ExtTreeSet.not_mem_empty

/-- What a search of depth `d` from `s` along a map is to find. -/
structure FindsExactly (a : Adjacency) (s : SymbolId) (d : Nat) (found : ExtTreeSet SymbolId) :
    Prop where
  /-- The ends of the paths of one up to `d` hops, and nothing else. -/
  mem_iff : ∀ v, v ∈ found ↔ ∃ n, 1 ≤ n ∧ n ≤ d ∧ Hops a.Linked n s v
  /-- Nothing, if the depth is 0 or the map does not keep the start. -/
  eq_empty : d = 0 ∨ s ∉ a → found = ∅
  /-- Everything that can be reached, if the depth is the number of neighbours or more. -/
  mem_iff_of_card_le : a.targets.card ≤ d → ∀ v, v ∈ found ↔ Relation.TransGen a.Linked s v

/-- A search finds exactly what it is to find. -/
lemma findsExactly_reach (a : Adjacency) (s : SymbolId) (d : Nat) :
    a.FindsExactly s d (a.reach s d) where
  mem_iff _ := mem_reach_iff
  eq_empty := by
    intro h
    refine ExtTreeSet.ext_mem fun v => iff_of_false ?_ ExtTreeSet.not_mem_empty
    rw [mem_reach_iff]
    rintro ⟨n, hn, hnd, hpath⟩
    cases hpath with
    | nil => omega
    | cons first rest =>
      obtain rfl | hs := h
      · omega
      · exact not_linked_of_not_mem hs first
  mem_iff_of_card_le := by
    intro hd v
    rw [mem_reach_iff, Hops.transGen_iff]
    constructor
    · rintro ⟨n, hn, -, hpath⟩
      exact ⟨n, hn, hpath⟩
    · rintro ⟨n, hn, hpath⟩
      obtain ⟨m, hm, hmT, hshort⟩ :=
        hpath.exists_le_card (fun x y hxy => mem_targets.mpr ⟨x, hxy⟩) hn
      exact ⟨m, hm, hmT.trans hd, hshort⟩

end Adjacency

namespace CallGraph

/-- In every graph, the callees of a function are found exactly along the edges, and its callers
exactly along the reversed edges, at every depth. -/
theorem findsExactly_callees_callers (g : CallGraph) (s : SymbolId) (d : Nat) :
    g.forward.FindsExactly s d (g.callees s d) ∧ g.reverse.FindsExactly s d (g.callers s d) :=
  ⟨g.forward.findsExactly_reach s d, g.reverse.findsExactly_reach s d⟩

end CallGraph

end CodeAtlas
