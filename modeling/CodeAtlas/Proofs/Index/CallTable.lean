import CodeAtlas.Index.CallTable
import CodeAtlas.Proofs.OrderedMap
import Mathlib.Data.List.Nodup
import Mathlib.Data.Set.Insert
import Mathlib.Tactic.Lemma
import Mathlib.Tactic.SplitIfs

/-!
# A call table holds a set of references

Both maps of a call table are one set of references, grouped by caller and by name.  The relation
`CallTable.Holds` says so, and everything that is done to a table has its counterpart on sets.  The
names of a caller stand in the order of their first calls, which a set does not know; the listing of
all references is sorted, so it depends on the set alone.
-/

namespace CodeAtlas

open Std (ExtTreeMap ExtTreeSet)

/-- A reference is determined by its caller and its name. -/
lemma CallReference.mk_eq_iff {c : SymbolId} {n : String} {r : CallReference} :
    ⟨c, n⟩ = r ↔ c = r.caller ∧ n = r.callee := by
  cases r
  simp

namespace CallTable

/-- The two maps of the table are the given references, grouped by caller and by name. -/
structure Holds (t : CallTable) (R : Set CallReference) : Prop where
  mem_names : ∀ c n, n ∈ t.names c ↔ ⟨c, n⟩ ∈ R
  mem_callersOf : ∀ c n, c ∈ t.callersOf n ↔ ⟨c, n⟩ ∈ R
  nodup_names : ∀ c, (t.names c).Nodup

variable {t t' : CallTable} {R S : Set CallReference}

/-- The names of a caller after a reference was put in. -/
lemma names_insert (t : CallTable) (r : CallReference) (c : SymbolId) :
    (t.insert r).names c =
      if c = r.caller then
        if r.callee ∈ t.names r.caller then t.names r.caller else t.names r.caller ++ [r.callee]
      else t.names c := by
  have hget : (t.insert r).names c =
      ((t.byCaller.insert r.caller (if (t.names r.caller).contains r.callee then t.names r.caller
        else t.names r.caller ++ [r.callee]))[c]?).getD [] := rfl
  rw [hget, ExtTreeMap.getElem?_insert]
  simp only [Std.LawfulEqCmp.compare_eq_iff_eq, List.contains_iff_mem]
  by_cases h : r.caller = c
  · simp [h]
  · rw [if_neg h, if_neg (Ne.symm h)]
    rfl

/-- The callers of a name after a reference was put in. -/
lemma mem_callersOf_insert (t : CallTable) (r : CallReference) (c : SymbolId) (n : String) :
    c ∈ (t.insert r).callersOf n ↔ c = r.caller ∧ n = r.callee ∨ c ∈ t.callersOf n := by
  simp only [insert, callersOf, ExtTreeMap.getElem?_insert, Std.LawfulEqCmp.compare_eq_iff_eq]
  by_cases h : r.callee = n
  · subst h
    simp only [if_true, Option.getD_some, ExtTreeSet.mem_insert,
      Std.LawfulEqCmp.compare_eq_iff_eq, and_true]
    exact or_congr_left eq_comm
  · simp [h, Ne.symm h]

/-- The names of a caller after a caller was taken out. -/
lemma names_removeCaller (t : CallTable) (caller c : SymbolId) :
    (t.removeCaller caller).names c = if c = caller then [] else t.names c := by
  simp only [removeCaller, names, ExtTreeMap.getElem?_erase, Std.LawfulEqCmp.compare_eq_iff_eq]
  by_cases hc : caller = c
  · simp [hc]
  · rw [if_neg hc, if_neg (Ne.symm hc)]

/-- The callers under a name after a caller was dropped from one name. -/
lemma mem_dropCaller (m : ExtTreeMap String (ExtTreeSet SymbolId)) (caller : SymbolId)
    (name : String) (c : SymbolId) (n : String) :
    c ∈ ((dropCaller caller m name)[n]?).getD ∅ ↔
      c ∈ (m[n]?).getD ∅ ∧ ¬(n = name ∧ c = caller) := by
  unfold dropCaller
  cases hs : m[name]? with
  | none =>
    by_cases hn : n = name
    · subst hn
      simp [hs]
    · simp [hn]
  | some s =>
    have herase : c ∈ s.erase caller ↔ c ∈ s ∧ c ≠ caller := by
      rw [ExtTreeSet.mem_erase, ne_eq, Std.LawfulEqCmp.compare_eq_iff_eq, and_comm]
      exact and_congr_right fun _ => not_congr eq_comm
    by_cases hn : n = name
    · subst hn
      by_cases he : (s.erase caller).isEmpty
      · have hnone : c ∉ s.erase caller := by simp [ExtTreeSet.isEmpty_iff.mp he]
        simpa [he, hs] using fun hc hne => hnone (herase.mpr ⟨hc, hne⟩)
      · simpa [he, hs] using herase
    · by_cases he : (s.erase caller).isEmpty
      · simp [he, ExtTreeMap.getElem?_erase, Ne.symm hn, hn]
      · simp [he, ExtTreeMap.getElem?_insert, Ne.symm hn, hn]

/-- The callers under a name after a caller was dropped from several names. -/
lemma mem_foldl_dropCaller (names : List String) (m : ExtTreeMap String (ExtTreeSet SymbolId))
    (caller : SymbolId) (c : SymbolId) (n : String) :
    c ∈ ((names.foldl (dropCaller caller) m)[n]?).getD ∅ ↔
      c ∈ (m[n]?).getD ∅ ∧ ¬(n ∈ names ∧ c = caller) := by
  induction names generalizing m with
  | nil => simp
  | cons name names ih =>
    rw [List.foldl_cons, ih, mem_dropCaller, List.mem_cons]
    tauto

namespace Holds

/-- Equal sets of references are held by the same tables. -/
lemma congr (ht : t.Holds R) (hR : ∀ r, r ∈ R ↔ r ∈ S) : t.Holds S := by
  have : R = S := Set.ext hR
  exact this ▸ ht

/-- The empty table holds no references. -/
lemma empty : CallTable.empty.Holds ∅ where
  mem_names c n := by simp [CallTable.empty, names]
  mem_callersOf c n := by simp [CallTable.empty, callersOf]
  nodup_names c := by simp [CallTable.empty, names]

/-- Putting a reference in. -/
lemma insert (ht : t.Holds R) (r : CallReference) : (t.insert r).Holds (Insert.insert r R) where
  mem_names c n := by
    rw [names_insert, Set.mem_insert_iff, CallReference.mk_eq_iff, ← ht.mem_names]
    by_cases hc : c = r.caller
    · subst hc
      by_cases hin : r.callee ∈ t.names r.caller
      · simp only [if_true, hin, true_and]
        exact ⟨Or.inr, fun h => h.elim (fun hn => hn ▸ hin) id⟩
      · simp [hin, or_comm]
    · simp [hc]
  mem_callersOf c n := by
    rw [mem_callersOf_insert, ht.mem_callersOf, Set.mem_insert_iff, CallReference.mk_eq_iff]
  nodup_names c := by
    rw [names_insert]
    split_ifs with hc hin
    · exact ht.nodup_names _
    · rw [List.nodup_append]
      refine ⟨ht.nodup_names _, List.nodup_singleton _, fun a ha b hb hab => hin ?_⟩
      rw [List.mem_singleton.mp hb] at hab
      exact hab ▸ ha
    · exact ht.nodup_names c

/-- Putting references in, one after the other. -/
lemma insertAll (ht : t.Holds R) (rs : List CallReference) :
    (t.insertAll rs).Holds {r | r ∈ R ∨ r ∈ rs} := by
  unfold CallTable.insertAll
  induction rs generalizing t R with
  | nil => exact ht.congr fun r => by simp
  | cons r rs ih =>
    refine (ih (ht.insert r)).congr fun r' => ?_
    simp only [Set.mem_ofPred_eq, Set.mem_insert_iff, List.mem_cons]
    tauto

/-- Taking out a caller takes out its references: the callers of a name lose it under every name
that it calls, and under no other name does it stand. -/
lemma removeCaller (ht : t.Holds R) (caller : SymbolId) :
    (t.removeCaller caller).Holds {r | r ∈ R ∧ r.caller ≠ caller} := by
  refine ⟨fun c n => ?_, fun c n => ?_, fun c => ?_⟩
  · rw [names_removeCaller, Set.mem_ofPred_eq]
    split_ifs with hc
    · simp [hc]
    · simpa [hc] using ht.mem_names c n
  · have hdrop : c ∈ (t.removeCaller caller).callersOf n ↔
        c ∈ t.callersOf n ∧ ¬(n ∈ t.names caller ∧ c = caller) :=
      mem_foldl_dropCaller _ _ _ _ _
    rw [hdrop, ht.mem_callersOf, ht.mem_names, Set.mem_ofPred_eq]
    exact and_congr_right fun hr => ⟨fun h hc => h ⟨hc ▸ hr, hc⟩, fun h hc => h hc.2⟩
  · rw [names_removeCaller]
    split_ifs
    · exact List.nodup_nil
    · exact ht.nodup_names c

/-- Taking out callers, one after the other. -/
lemma removeCallers (ht : t.Holds R) (callers : List SymbolId) :
    (t.removeCallers callers).Holds {r | r ∈ R ∧ r.caller ∉ callers} := by
  unfold CallTable.removeCallers
  induction callers generalizing t R with
  | nil => exact ht.congr fun r => by simp
  | cons caller callers ih =>
    refine (ih (ht.removeCaller caller)).congr fun r => ?_
    simp only [Set.mem_ofPred_eq, List.mem_cons, not_or]
    tauto

end Holds

/-! ### Listing the references -/

/-- The references of a table, each caller's together. -/
def references (t : CallTable) : List CallReference :=
  t.byCaller.toList.flatMap fun (caller, names) => names.map fun n => ⟨caller, n⟩

/-- A reference stands in the list exactly if its name is one of its caller. -/
lemma mem_references {r : CallReference} : r ∈ t.references ↔ r.callee ∈ t.names r.caller := by
  simp only [references, List.mem_flatMap, List.mem_map, Prod.exists,
    ExtTreeMap.mem_toList_iff_getElem?_eq_some]
  constructor
  · rintro ⟨c, ns, hns, n, hn, rfl⟩
    simpa [names, hns] using hn
  · intro hr
    cases hns : t.byCaller[r.caller]? with
    | none => simp [names, hns] at hr
    | some ns => exact ⟨r.caller, ns, hns, r.callee, by simpa [names, hns] using hr, rfl⟩

/-- If no caller repeats a name, no reference is listed twice. -/
lemma nodup_references (h : ∀ c, (t.names c).Nodup) : t.references.Nodup := by
  rw [references, List.nodup_flatMap]
  constructor
  · rintro ⟨c, ns⟩ hc
    have hns : ns.Nodup := by
      rw [ExtTreeMap.mem_toList_iff_getElem?_eq_some] at hc
      simpa [names, hc] using h c
    exact hns.map fun n n' h => congrArg CallReference.callee h
  · refine t.byCaller.distinct_keys_toList.imp ?_
    rintro ⟨c, ns⟩ ⟨c', ns'⟩ hne
    refine List.disjoint_left.mpr ?_
    rintro r hr hr'
    obtain ⟨_, -, rfl⟩ := List.mem_map.mp hr
    obtain ⟨_, -, h'⟩ := List.mem_map.mp hr'
    have hc : c' = c := congrArg CallReference.caller h'
    exact hne (by simp [hc])

/-- No two references tie in the order of the listing. -/
instance : Std.LawfulEqCmp compareReferences where
  eq_of_compare {r r'} h := by
    simp only [compareReferences, compareLex_eq_eq, compareOn,
      Std.LawfulEqCmp.compare_eq_iff_eq] at h
    cases r
    cases r'
    simp_all
  compare_self := by simp [compareReferences, compareLex_eq_eq, compareOn]

/-- The order of the listing is total. -/
instance : Std.TransCmp compareReferences :=
  inferInstanceAs (Std.TransCmp (compareLex (compareOn _) (compareOn _)))

namespace Holds

/-- The references that are listed are those that the table holds. -/
lemma mem_toList (ht : t.Holds R) (r : CallReference) : r ∈ t.toList ↔ r ∈ R := by
  have hlist : r ∈ t.toList ↔ r ∈ t.references := List.mem_mergeSort
  rw [hlist, mem_references, ht.mem_names]

/-- What is listed depends on the set of references alone. -/
lemma toList_eq (ht : t.Holds R) (ht' : t'.Holds R) : t.toList = t'.toList := by
  have hperm : t.references.Perm t'.references := by
    rw [List.perm_ext_iff_of_nodup (nodup_references ht.nodup_names)
      (nodup_references ht'.nodup_names)]
    intro r
    rw [mem_references, mem_references, ht.mem_names, ht'.mem_names]
  exact mergeSort_congr hperm

end Holds

end CallTable

end CodeAtlas
