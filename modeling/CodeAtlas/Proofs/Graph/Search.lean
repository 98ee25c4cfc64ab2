import CodeAtlas.Proofs.Graph.EdgeSet

/-!
# Searching a call graph

A search of bounded depth finds the identifiers at the end of a path of one up to that many hops.
The search follows only identifiers that it meets for the first time, and the start is not among
those it has met.  What carries the argument is a closure property of each level: every neighbour of
an identifier that was met and is not on the frontier was met as well.  So a path that begins among
the identifiers met stays among them, or it leaves through the frontier and is no longer there.

A path over the forward map read backwards is a path over the reverse map, because both maps are one
set of edges.  Hence a function is found among the callees of another exactly if that one is found
among its callers, at every depth.
-/

namespace CodeAtlas

open Std (ExtTreeSet)

/-! ### Paths of a number of hops -/

/-- A path along a relation, with the number of its hops. -/
inductive Hops {α : Type} (R : α → α → Prop) : Nat → α → α → Prop
  | nil (u : α) : Hops R 0 u u
  | cons {n : Nat} {u v w : α} (first : R u v) (rest : Hops R n v w) : Hops R (n + 1) u w

namespace Hops

variable {α : Type} {R S : α → α → Prop} {n : Nat} {u v w : α}

/-- A path goes on with one more hop. -/
lemma snoc (h : Hops R n u v) (last : R v w) : Hops R (n + 1) u w := by
  induction h with
  | nil u => exact .cons last (.nil w)
  | cons first _ ih => exact .cons first (ih last)

/-- A path read backwards is a path along the converse. -/
lemma reversed (hRS : ∀ a b, R a b → S b a) (h : Hops R n u v) : Hops S n v u := by
  induction h with
  | nil u => exact .nil u
  | cons first _ ih => exact ih.snoc (hRS _ _ first)

/-- The paths along a relation are those along its converse, read backwards. -/
lemma reversed_iff (hRS : ∀ a b, R a b ↔ S b a) : Hops R n u v ↔ Hops S n v u :=
  ⟨reversed fun a b => (hRS a b).mp, reversed fun a b => (hRS b a).mpr⟩

/-- A path that begins in a set which hops leave only through a frontier ends in the set, or some
path that begins on the frontier and is no longer has the same end. -/
lemma mem_or_exists_frontier {met frontier : α → Prop}
    (hclosed : ∀ a, met a → ¬frontier a → ∀ b, R a b → met b) (h : Hops R n u w) (hu : met u) :
    met w ∨ ∃ a, frontier a ∧ ∃ k, 1 ≤ k ∧ k ≤ n ∧ Hops R k a w := by
  induction h with
  | nil u => exact .inl hu
  | @cons n u v w first rest ih =>
    by_cases hf : frontier u
    · exact .inr ⟨u, hf, n + 1, Nat.le_add_left 1 n, le_rfl, .cons first rest⟩
    · obtain hw | ⟨a, ha, k, hk, hkn, hpath⟩ := ih (hclosed u hu hf v first)
      · exact .inl hw
      · exact .inr ⟨a, ha, k, hk, Nat.le_succ_of_le hkn, hpath⟩

end Hops

namespace Adjacency

variable {a b : Adjacency} {u v w : SymbolId} {d : Nat}

/-- One hop along an adjacency map. -/
def Linked (a : Adjacency) (u v : SymbolId) : Prop := v ∈ a.neighbours u

/-! ### One level of a search -/

/-- An identifier that the search comes across: if it was not met before, it is met now and will be
followed. -/
def meet (acc : ExtTreeSet SymbolId × List SymbolId) (id : SymbolId) :
    ExtTreeSet SymbolId × List SymbolId :=
  if acc.1.contains id then acc else (acc.1.insert id, id :: acc.2)

/-- The identifiers that the search comes across behind a frontier, in order and with
repetitions. -/
def ahead (a : Adjacency) (frontier : List SymbolId) : List SymbolId :=
  frontier.flatMap fun id => (a.neighbours id).toList

/-- An identifier lies ahead of a frontier if it is one hop behind a member. -/
lemma mem_ahead {frontier : List SymbolId} :
    w ∈ a.ahead frontier ↔ ∃ u ∈ frontier, a.Linked u w := by
  simp [ahead, Linked, ExtTreeSet.mem_toList]

/-- A search goes on behind what it met for the first time. -/
lemma expand_succ (a : Adjacency) (d : Nat) (met : ExtTreeSet SymbolId) {frontier : List SymbolId}
    (hne : frontier ≠ []) :
    a.expand (d + 1) met frontier = a.expand d ((a.ahead frontier).foldl meet (met, [])).1
      ((a.ahead frontier).foldl meet (met, [])).2.reverse := by
  cases frontier with
  | nil => exact absurd rfl hne
  | cons id frontier =>
    rw [ahead, List.foldl_flatMap]
    rfl

/-- What was met is kept, and what the search comes across is met. -/
lemma mem_foldl_meet_fst (ids : List SymbolId) (acc : ExtTreeSet SymbolId × List SymbolId) :
    w ∈ (ids.foldl meet acc).1 ↔ w ∈ acc.1 ∨ w ∈ ids := by
  induction ids generalizing acc with
  | nil => simp
  | cons id ids ih =>
    have hstep : w ∈ (meet acc id).1 ↔ w ∈ acc.1 ∨ w = id := by
      unfold meet
      split_ifs with hid
      · refine ⟨.inl, ?_⟩
        rintro (hw | rfl)
        · exact hw
        · exact ExtTreeSet.mem_iff_contains.mpr hid
      · rw [ExtTreeSet.mem_insert, Std.LawfulEqCmp.compare_eq_iff_eq, or_comm, eq_comm]
    rw [List.foldl_cons, ih, hstep, List.mem_cons, or_assoc]

/-- What is to be followed is what the search comes across and had not met. -/
lemma mem_foldl_meet_snd (ids : List SymbolId) (acc : ExtTreeSet SymbolId × List SymbolId) :
    w ∈ (ids.foldl meet acc).2 ↔ w ∈ acc.2 ∨ w ∈ ids ∧ w ∉ acc.1 := by
  induction ids generalizing acc with
  | nil => simp
  | cons id ids ih =>
    rw [List.foldl_cons, ih, List.mem_cons]
    unfold meet
    split_ifs with hid
    · have hmem : id ∈ acc.1 := ExtTreeSet.mem_iff_contains.mpr hid
      refine or_congr_right (and_congr_left fun hw => ⟨.inr, ?_⟩)
      rintro (rfl | hw')
      · exact absurd hmem hw
      · exact hw'
    · have hmem : id ∉ acc.1 := fun h => hid (ExtTreeSet.mem_iff_contains.mp h)
      simp only [List.mem_cons, ExtTreeSet.mem_insert, Std.LawfulEqCmp.compare_eq_iff_eq, not_or]
      by_cases hw : w = id
      · subst hw
        simp [hmem]
      · simp [hw, Ne.symm hw]

/-! ### What a search finds -/

/-- A search from a frontier adds the ends of the paths that begin there and are short enough.  The
induction is on the depth; each level hands the closure property on to the next. -/
lemma mem_expand_iff {met : ExtTreeSet SymbolId} {frontier : List SymbolId}
    (hclosed : ∀ u, u ∈ met → u ∉ frontier → ∀ v, a.Linked u v → v ∈ met) :
    w ∈ a.expand d met frontier ↔
      w ∈ met ∨ ∃ u ∈ frontier, ∃ n, 1 ≤ n ∧ n ≤ d ∧ Hops a.Linked n u w := by
  induction d generalizing met frontier with
  | zero =>
    refine ⟨.inl, ?_⟩
    rintro (hw | ⟨u, -, n, hn, hn0, -⟩)
    · exact hw
    · omega
  | succ d ih =>
    by_cases hne : frontier = []
    · subst hne
      simp [expand]
    · rw [expand_succ a d met hne]
      set level := (a.ahead frontier).foldl meet (met, []) with hlevel
      have hmet : ∀ v, v ∈ level.1 ↔ v ∈ met ∨ v ∈ a.ahead frontier := fun v =>
        mem_foldl_meet_fst _ _
      have hfresh : ∀ v, v ∈ level.2.reverse ↔ v ∈ a.ahead frontier ∧ v ∉ met := fun v => by
        rw [List.mem_reverse, hlevel, mem_foldl_meet_snd]
        simp
      have hclosed' : ∀ u, u ∈ level.1 → u ∉ level.2.reverse → ∀ v, a.Linked u v → v ∈ level.1 := by
        intro u hu hold v huv
        rw [hfresh, not_and_not_right] at hold
        have hu : u ∈ met := ((hmet u).mp hu).elim id hold
        rw [hmet]
        by_cases hf : u ∈ frontier
        · exact .inr (mem_ahead.mpr ⟨u, hf, huv⟩)
        · exact .inl (hclosed u hu hf v huv)
      rw [ih hclosed', hmet]
      constructor
      · rintro ((hw | hw) | ⟨v, hv, n, hn, hnd, hpath⟩)
        · exact .inl hw
        · obtain ⟨u, hu, huw⟩ := mem_ahead.mp hw
          exact .inr ⟨u, hu, 1, le_rfl, Nat.le_add_left 1 d, .cons huw (.nil w)⟩
        · obtain ⟨u, hu, huv⟩ := mem_ahead.mp ((hfresh v).mp hv).1
          exact .inr ⟨u, hu, n + 1, Nat.le_add_left 1 n, Nat.succ_le_succ hnd, .cons huv hpath⟩
      · rintro (hw | ⟨u, hu, n, hn, hnd, hpath⟩)
        · exact .inl (.inl hw)
        · cases hpath with
          | nil => omega
          | @cons n u v w first rest =>
            have hv : v ∈ level.1 := (hmet v).mpr (.inr (mem_ahead.mpr ⟨u, hu, first⟩))
            obtain hw | ⟨x, hx, k, hk, hkn, hrest⟩ := rest.mem_or_exists_frontier hclosed' hv
            · exact .inl ((hmet w).mp hw)
            · exact .inr ⟨x, hx, k, hk, by omega, hrest⟩

/-- A search finds the ends of the paths of one up to `d` hops from its start. -/
lemma mem_reach_iff :
    w ∈ a.reach u d ↔ ∃ n, 1 ≤ n ∧ n ≤ d ∧ Hops a.Linked n u w := by
  rw [reach, mem_expand_iff fun v hv => absurd hv ExtTreeSet.not_mem_empty]
  simp

/-- Searches along two maps, each the converse of the other, find each other's starts. -/
lemma mem_reach_comm (hab : ∀ u v, a.Linked u v ↔ b.Linked v u) :
    w ∈ a.reach u d ↔ u ∈ b.reach w d := by
  rw [mem_reach_iff, mem_reach_iff]
  exact exists_congr fun n => and_congr_right fun _ => and_congr_right fun _ =>
    Hops.reversed_iff hab

end Adjacency

namespace GraphChange

/-- After every history of changes, and at every depth, a function is found among the callees of
another exactly if that one is found among its callers. -/
theorem mem_callees_iff_mem_callers (history : List GraphChange) (u v : SymbolId) (d : Nat) :
    v ∈ (graphAfter history).callees u d ↔ u ∈ (graphAfter history).callers v d := by
  have hg : (graphAfter history).Holds (edgesAfter history) := holds_graphAfter history
  exact Adjacency.mem_reach_comm fun c e => (hg.mem_forward c e).trans (hg.mem_reverse c e).symm

end GraphChange

end CodeAtlas
