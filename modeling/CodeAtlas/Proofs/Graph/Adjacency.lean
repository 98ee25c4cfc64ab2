import CodeAtlas.Graph.CallGraph
import Mathlib.Data.List.Nodup
import Mathlib.Tactic.Lemma

/-!
# Adjacency maps

An adjacency map is read through one view: the set of neighbours of an identifier.  This file says
what linking, unlinking and erasing do to the view, and that a *tight* map, which keeps no
identifier with an empty set, is determined by it.  The edges of one direction are then a list
without repetitions in which a pair stands exactly if it is linked.
-/

namespace CodeAtlas

open Std (ExtTreeMap ExtTreeSet)

namespace Adjacency

variable {a b : Adjacency} {id n k : SymbolId}

/-- A map is tight if it keeps no identifier without neighbours. -/
def Tight (a : Adjacency) : Prop := ∀ id : SymbolId, a[id]? ≠ some ∅

/-- The empty map has no neighbours. -/
@[simp] lemma neighbours_empty (id : SymbolId) : neighbours ∅ id = ∅ := by
  simp [neighbours]

/-- Putting a set under an identifier replaces the neighbours of that identifier alone. -/
lemma neighbours_insert (a : Adjacency) (id k : SymbolId) (s : ExtTreeSet SymbolId) :
    neighbours (a.insert id s) k = if k = id then s else a.neighbours k := by
  simp only [neighbours, ExtTreeMap.getElem?_insert, Std.LawfulEqCmp.compare_eq_iff_eq]
  by_cases h : id = k
  · simp [h]
  · rw [if_neg h, if_neg (Ne.symm h)]

/-- Erasing an identifier takes away its own neighbours alone. -/
lemma neighbours_erase (a : Adjacency) (id k : SymbolId) :
    neighbours (a.erase id) k = if k = id then ∅ else a.neighbours k := by
  simp only [neighbours, ExtTreeMap.getElem?_erase, Std.LawfulEqCmp.compare_eq_iff_eq]
  by_cases h : id = k
  · simp [h]
  · rw [if_neg h, if_neg (Ne.symm h)]

/-- A linked neighbour joins those that were there. -/
lemma mem_neighbours_link {m : SymbolId} :
    m ∈ (a.link id n).neighbours k ↔ k = id ∧ m = n ∨ m ∈ a.neighbours k := by
  rw [link, neighbours_insert]
  by_cases h : k = id
  · subst h
    rw [if_pos rfl, ExtTreeSet.mem_insert, Std.LawfulEqCmp.compare_eq_iff_eq]
    exact or_congr ⟨fun h => ⟨rfl, h.symm⟩, fun h => h.2.symm⟩ Iff.rfl
  · simp [h]

/-- Unlinking takes one neighbour from one identifier. -/
lemma mem_neighbours_unlink {m : SymbolId} :
    m ∈ (a.unlink id n).neighbours k ↔ m ∈ a.neighbours k ∧ ¬(k = id ∧ m = n) := by
  unfold unlink
  cases h : a[id]? with
  | none =>
    have hid : a.neighbours id = ∅ := by simp [neighbours, h]
    by_cases hk : k = id
    · subst hk
      simp [hid]
    · simp [hk]
  | some s =>
    have hid : a.neighbours id = s := by simp [neighbours, h]
    by_cases hk : k = id
    · subst hk
      by_cases he : (s.erase n).isEmpty
      · have hempty : s.erase n = ∅ := ExtTreeSet.isEmpty_iff.mp he
        have hnone : m ∉ s.erase n := by simp [hempty]
        simp only [he, if_true, neighbours_erase, hid, ExtTreeSet.not_mem_empty, true_and,
          false_iff]
        rintro ⟨hm, hne⟩
        refine hnone (ExtTreeSet.mem_erase.mpr ⟨fun h => hne ?_, hm⟩)
        exact (Std.LawfulEqCmp.compare_eq_iff_eq.mp h).symm
      · simp only [he, Bool.false_eq_true, if_false, neighbours_insert, if_true, hid,
          ExtTreeSet.mem_erase, Std.LawfulEqCmp.compare_eq_iff_eq, true_and, ne_eq]
        exact ⟨fun ⟨hne, hm⟩ => ⟨hm, fun h => hne h.symm⟩,
          fun ⟨hm, hne⟩ => ⟨fun h => hne h.symm, hm⟩⟩
    · by_cases he : (s.erase n).isEmpty
      · simp [he, neighbours_erase, hk]
      · simp [he, neighbours_insert, hk]

/-- Unlinking one neighbour from a list of identifiers. -/
lemma mem_neighbours_unlinkAll {m : SymbolId} (ids : List SymbolId) :
    m ∈ (a.unlinkAll ids n).neighbours k ↔ m ∈ a.neighbours k ∧ ¬(k ∈ ids ∧ m = n) := by
  unfold unlinkAll
  induction ids generalizing a with
  | nil => simp
  | cons id ids ih =>
    rw [List.foldl_cons, ih, mem_neighbours_unlink, List.mem_cons]
    tauto

/-! ### Tight maps -/

/-- The empty map is tight. -/
lemma tight_empty : Tight ∅ := by
  intro id
  simp

/-- Linking keeps a map tight. -/
lemma Tight.link (h : a.Tight) (id n : SymbolId) : (a.link id n).Tight := by
  intro k
  simp only [Adjacency.link, ExtTreeMap.getElem?_insert, Std.LawfulEqCmp.compare_eq_iff_eq]
  by_cases hk : id = k
  · simp [hk]
  · simpa [hk] using h k

/-- Erasing an identifier keeps a map tight. -/
lemma Tight.erase (h : a.Tight) (id : SymbolId) : Tight (a.erase id) := by
  intro k
  simp only [ExtTreeMap.getElem?_erase, Std.LawfulEqCmp.compare_eq_iff_eq]
  by_cases hk : id = k
  · simp [hk]
  · simpa [hk] using h k

/-- Unlinking keeps a map tight: an identifier goes with its last neighbour. -/
lemma Tight.unlink (h : a.Tight) (id n : SymbolId) : (a.unlink id n).Tight := by
  unfold Adjacency.unlink
  cases hs : a[id]? with
  | none => exact h
  | some s =>
    by_cases he : (s.erase n).isEmpty
    · simpa [he] using h.erase id
    · intro k
      simp only [he, Bool.false_eq_true, if_false, ExtTreeMap.getElem?_insert,
        Std.LawfulEqCmp.compare_eq_iff_eq]
      by_cases hk : id = k
      · simpa [hk] using fun hempty => he (ExtTreeSet.isEmpty_iff.mpr hempty)
      · simpa [hk] using h k

/-- Unlinking from a list of identifiers keeps a map tight. -/
lemma Tight.unlinkAll (h : a.Tight) (ids : List SymbolId) (n : SymbolId) :
    (a.unlinkAll ids n).Tight := by
  unfold Adjacency.unlinkAll
  induction ids generalizing a with
  | nil => exact h
  | cons id ids ih => exact ih (h.unlink id n)

/-- What a tight map holds under an identifier: the set of its neighbours, if there are any. -/
lemma Tight.getElem?_eq_some_iff (h : a.Tight) {s : ExtTreeSet SymbolId} :
    a[id]? = some s ↔ s ≠ ∅ ∧ a.neighbours id = s := by
  constructor
  · intro hs
    exact ⟨fun hempty => h id (by rw [hs, hempty]), by simp [neighbours, hs]⟩
  · rintro ⟨hne, hs⟩
    cases hid : a[id]? with
    | none => exact absurd (by rw [← hs]; simp [neighbours, hid]) hne
    | some s' => rw [← hs]; simp [neighbours, hid]

/-- Tight maps with the same neighbours are equal. -/
lemma Tight.ext (ha : a.Tight) (hb : b.Tight)
    (h : ∀ id n, n ∈ a.neighbours id ↔ n ∈ b.neighbours id) : a = b := by
  refine ExtTreeMap.ext_getElem? fun id => Option.ext fun s => ?_
  have hid : a.neighbours id = b.neighbours id := ExtTreeSet.ext_mem fun n => h id n
  rw [ha.getElem?_eq_some_iff, hb.getElem?_eq_some_iff, hid]

/-! ### The edges of one direction -/

/-- A pair stands in the list of edges exactly if its second part is a neighbour of the first. -/
lemma mem_pairs {p : SymbolId × SymbolId} : p ∈ a.pairs ↔ p.2 ∈ a.neighbours p.1 := by
  obtain ⟨id, n⟩ := p
  simp only [pairs, List.mem_flatMap, List.mem_map, Prod.mk.injEq, Prod.exists,
    ExtTreeMap.mem_toList_iff_getElem?_eq_some, ExtTreeSet.mem_toList]
  constructor
  · rintro ⟨k, s, hs, m, hm, rfl, rfl⟩
    simpa [neighbours, hs] using hm
  · intro hn
    cases hs : a[id]? with
    | none => simp [neighbours, hs] at hn
    | some s => exact ⟨id, s, hs, n, by simpa [neighbours, hs] using hn, rfl, rfl⟩

/-- No edge is listed twice. -/
lemma nodup_pairs (a : Adjacency) : a.pairs.Nodup := by
  rw [pairs, List.nodup_flatMap]
  constructor
  · rintro ⟨id, s⟩ -
    have hs : s.toList.Nodup := by
      have := s.distinct_toList
      exact this.imp fun h heq => h (by simp [heq])
    exact hs.map fun m m' h => by simpa using h
  · refine a.distinct_keys_toList.imp ?_
    rintro ⟨id, s⟩ ⟨id', s'⟩ hne
    refine List.disjoint_left.mpr ?_
    rintro ⟨k, m⟩ hm hm'
    obtain ⟨_, -, h⟩ := List.mem_map.mp hm
    obtain ⟨_, -, h'⟩ := List.mem_map.mp hm'
    have hk : id = k := congrArg Prod.fst h
    have hk' : id' = k := congrArg Prod.fst h'
    exact hne (by simp [hk, hk'])

end Adjacency

end CodeAtlas
