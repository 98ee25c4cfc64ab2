import Std.Data.ExtTreeMap
import Mathlib.Data.List.Nodup
import Mathlib.Tactic.Lemma

/-!
# Values of ordered maps and sorted lists

Two facts about containers on which listings rest: the values of an ordered map stand in the order
of its keys, and sorting forgets the order in which things were met if the order by which they are
sorted tells all of them apart.
-/

namespace CodeAtlas

open Std

/-- The values of an ordered map are those of its entries, in the order of the keys. -/
lemma values_eq_map_toList {cmp : α → α → Ordering} [TransCmp cmp] (m : ExtTreeMap α β cmp) :
    m.values = m.toList.map Prod.snd := by
  obtain ⟨⟨q⟩⟩ := m
  induction q using Quotient.ind with
  | _ t =>
    change t.inner.values = (DTreeMap.Internal.Impl.Const.toList t.inner).map Prod.snd
    rw [DTreeMap.Internal.Impl.values_eq_map_snd,
      DTreeMap.Internal.Impl.Const.toList_eq_toListModel_map]
    simp

/-- A map made from keys by a function holds the values of the function at these keys. -/
lemma getElem?_ofList_map {cmp : α → α → Ordering} [TransCmp cmp] [LawfulEqCmp cmp] [DecidableEq α]
    (f : α → β) (ks : List α) (k : α) :
    (ExtTreeMap.ofList (ks.map fun k => (k, f k)) cmp)[k]? =
      if k ∈ ks then some (f k) else none := by
  have hrun : ∀ (ks : List α) (m : ExtTreeMap α β cmp),
      (m.insertMany (ks.map fun k => (k, f k)))[k]? = if k ∈ ks then some (f k) else m[k]? := by
    intro ks
    induction ks with
    | nil => simp
    | cons k' ks ih =>
      intro m
      rw [List.map_cons, ExtTreeMap.insertMany_cons, ih, ExtTreeMap.getElem?_insert]
      by_cases hk : k ∈ ks
      · simp [hk]
      · by_cases hk' : k' = k
        · simp [hk']
        · simp [hk, hk', Ne.symm hk']
  rw [ExtTreeMap.ofList_eq_insertMany_empty, hrun]
  simp

section

variable {cmp : α → α → Ordering} [TransCmp cmp] [LawfulEqCmp cmp] [DecidableEq α]
  {l : List (α × β)}

/-- A map made from entries with distinct keys has these entries. -/
lemma getElem?_ofList_eq_some_iff (h : (l.map Prod.fst).Nodup) {k : α} {v : β} :
    (ExtTreeMap.ofList l cmp)[k]? = some v ↔ (k, v) ∈ l := by
  have hdistinct : l.Pairwise fun a b => ¬cmp a.1 b.1 = .eq := by
    refine (List.pairwise_map.mp h).imp fun hne heq => hne (LawfulEqCmp.eq_of_compare heq)
  have hget : ∀ {k : α} {v : β}, (k, v) ∈ l → (ExtTreeMap.ofList l cmp)[k]? = some v := fun hmem =>
    ExtTreeMap.getElem?_ofList_of_mem ReflCmp.compare_self hdistinct hmem
  refine ⟨fun hv => ?_, hget⟩
  have hk : k ∈ ExtTreeMap.ofList l cmp := by
    rw [ExtTreeMap.mem_iff_isSome_getElem?, hv]
    rfl
  rw [ExtTreeMap.mem_ofList, List.contains_iff_mem, List.mem_map] at hk
  obtain ⟨⟨k', v'⟩, hmem, rfl⟩ := hk
  rw [hget hmem] at hv
  rwa [← Option.some.inj hv]

/-- Entries with distinct keys are those of the map that is made from them. -/
lemma perm_toList_ofList (h : (l.map Prod.fst).Nodup) :
    l.Perm (ExtTreeMap.ofList l cmp).toList := by
  have hnodup : (ExtTreeMap.ofList l cmp).toList.Nodup :=
    List.Nodup.of_map Prod.fst
      (by rw [ExtTreeMap.map_fst_toList_eq_keys]; exact ExtTreeMap.nodup_keys)
  refine (List.perm_ext_iff_of_nodup h.of_map hnodup).mpr fun p => ?_
  rw [ExtTreeMap.mem_toList_iff_getElem?_eq_some, getElem?_ofList_eq_some_iff h]

/-- Putting the entries of a map one by one into the empty map makes the map again. -/
lemma foldl_insert_toList (m : ExtTreeMap α β cmp) :
    m.toList.foldl (fun acc p => acc.insert p.1 p.2) (∅ : ExtTreeMap α β cmp) = m := by
  have hfoldl : ∀ (l : List (α × β)) (acc : ExtTreeMap α β cmp),
      l.foldl (fun acc p => acc.insert p.1 p.2) acc = acc.insertMany l := by
    intro l
    induction l with
    | nil => simp
    | cons p l ih =>
      intro acc
      rw [List.foldl_cons, ih, ExtTreeMap.insertMany_cons]
  have hkeys : (m.toList.map Prod.fst).Nodup := by
    rw [ExtTreeMap.map_fst_toList_eq_keys]
    exact ExtTreeMap.nodup_keys
  rw [hfoldl, ← ExtTreeMap.ofList_eq_insertMany_empty]
  refine ExtTreeMap.ext_getElem? fun k => Option.ext fun v => ?_
  rw [getElem?_ofList_eq_some_iff hkeys, ExtTreeMap.mem_toList_iff_getElem?_eq_some]

end

section

variable {cmp : α → α → Ordering} [TransCmp cmp]

/-- Of two elements one comes before or together with the other. -/
lemma isLE_or_isLE (a b : α) : ((cmp a b).isLE || (cmp b a).isLE) = true := by
  rw [Bool.or_eq_true, show cmp b a = (cmp a b).swap from OrientedCmp.eq_swap]
  cases cmp a b <;> simp

/-- Sorting puts a list in order. -/
lemma pairwise_mergeSort_isLE (l : List α) :
    (l.mergeSort fun a b => (cmp a b).isLE).Pairwise fun a b => (cmp a b).isLE = true := by
  have htrans : ∀ a b c : α, (cmp a b).isLE = true → (cmp b c).isLE = true →
      (cmp a c).isLE = true := fun a b c hab hbc => TransCmp.isLE_trans hab hbc
  exact List.pairwise_mergeSort htrans isLE_or_isLE l

variable [LawfulEqCmp cmp] {l l' : List α}

/-- Sorting a list without repetitions by an order of which equal elements are the only ties leaves
no ties. -/
lemma pairwise_mergeSort_eq_lt (h : l.Nodup) :
    (l.mergeSort fun a b => (cmp a b).isLE).Pairwise fun a b => cmp a b = .lt := by
  have hnodup : (l.mergeSort fun a b => (cmp a b).isLE).Nodup :=
    (List.mergeSort_perm l _).nodup_iff.mpr h
  refine ((pairwise_mergeSort_isLE l).and hnodup).imp fun {a b} ⟨hle, hne⟩ => ?_
  cases hab : cmp a b with
  | lt => rfl
  | eq => exact absurd (LawfulEqCmp.eq_of_compare hab) hne
  | gt => simp [hab] at hle

/-- Sorting by an order of which equal elements are the only ties depends on the elements alone. -/
lemma mergeSort_congr (h : l.Perm l') :
    l.mergeSort (fun a b => (cmp a b).isLE) = l'.mergeSort fun a b => (cmp a b).isLE := by
  refine List.Perm.eq_of_pairwise (fun a b _ _ hab hba => ?_) (pairwise_mergeSort_isLE l)
    (pairwise_mergeSort_isLE l') ?_
  · exact LawfulEqCmp.eq_of_compare (OrientedCmp.isLE_antisymm hab hba)
  · exact (List.mergeSort_perm l _).trans (h.trans (List.mergeSort_perm l' _).symm)

end

end CodeAtlas
