import CodeAtlas.Proofs.Index.CallTable
import Mathlib.Data.List.Induction

/-!
# The references of a call table and its history

A call table is changed in two ways: a reference is put in, or a caller is taken out with all its
references.  What the table holds is therefore decided by its history: the references that were put
in and whose callers were not taken out since (`CallTableChange.Remains`).  Each change does to this
set what it does to the table, so along every history both maps are this set, grouped by caller and
by name (`CallTable.Holds`).

The maps are also *tight* (`CallTable.Tight`): a caller goes with its names, and a name goes with
the last of its callers.  A tight table keeps under a name the set of the callers that remain, if
there are any, and nothing else; and the sorted listing tells two histories apart exactly if
different references remain.
-/

namespace CodeAtlas

open Std (ExtTreeMap ExtTreeSet)

namespace CallTable

/-! ### Tight tables -/

/-- A table is tight if it keeps no caller without names and no name without callers. -/
structure Tight (t : CallTable) : Prop where
  byCaller : ∀ c : SymbolId, t.byCaller[c]? ≠ some []
  byCallee : ∀ n : String, t.byCallee[n]? ≠ some ∅

variable {t t' : CallTable} {R S : Set CallReference}

/-- The empty table is tight. -/
lemma tight_empty : CallTable.empty.Tight where
  byCaller c := by simp [CallTable.empty]
  byCallee n := by simp [CallTable.empty]

/-- A reference that is put in has a name and a caller. -/
lemma Tight.insert (ht : t.Tight) (r : CallReference) : (t.insert r).Tight where
  byCaller c := by
    simp only [CallTable.insert, ExtTreeMap.getElem?_insert, Std.LawfulEqCmp.compare_eq_iff_eq]
    by_cases hc : r.caller = c
    · rw [if_pos hc, ne_eq, Option.some.injEq]
      split_ifs with hin
      · exact List.ne_nil_of_mem (List.contains_iff_mem.mp hin)
      · simp
    · rw [if_neg hc]
      exact ht.byCaller c
  byCallee n := by
    simp only [CallTable.insert, ExtTreeMap.getElem?_insert, Std.LawfulEqCmp.compare_eq_iff_eq]
    by_cases hn : r.callee = n
    · simp [hn]
    · rw [if_neg hn]
      exact ht.byCallee n

/-- A caller that is dropped from a name leaves no name without callers. -/
lemma dropCaller_ne_empty {m : ExtTreeMap String (ExtTreeSet SymbolId)}
    (hm : ∀ n : String, m[n]? ≠ some ∅) (caller : SymbolId) (name n : String) :
    (dropCaller caller m name)[n]? ≠ some ∅ := by
  unfold dropCaller
  cases hs : m[name]? with
  | none => exact hm n
  | some s =>
    by_cases he : (s.erase caller).isEmpty
    · simp only [he, if_true, ExtTreeMap.getElem?_erase, Std.LawfulEqCmp.compare_eq_iff_eq]
      split_ifs
      · simp
      · exact hm n
    · simp only [he, Bool.false_eq_true, if_false, ExtTreeMap.getElem?_insert,
        Std.LawfulEqCmp.compare_eq_iff_eq]
      split_ifs
      · exact fun hempty => he (ExtTreeSet.isEmpty_iff.mpr (Option.some.inj hempty))
      · exact hm n

/-- Nor does a caller that is dropped from several names. -/
lemma foldl_dropCaller_ne_empty (names : List String) {m : ExtTreeMap String (ExtTreeSet SymbolId)}
    (hm : ∀ n : String, m[n]? ≠ some ∅) (caller : SymbolId) (n : String) :
    (names.foldl (dropCaller caller) m)[n]? ≠ some ∅ := by
  induction names generalizing m with
  | nil => exact hm n
  | cons name names ih => exact ih (dropCaller_ne_empty hm caller name)

/-- A caller that is taken out goes with its names, and a name with the last of its callers. -/
lemma Tight.removeCaller (ht : t.Tight) (caller : SymbolId) : (t.removeCaller caller).Tight where
  byCaller c := by
    simp only [CallTable.removeCaller, ExtTreeMap.getElem?_erase,
      Std.LawfulEqCmp.compare_eq_iff_eq]
    split_ifs
    · simp
    · exact ht.byCaller c
  byCallee n := foldl_dropCaller_ne_empty (t.names caller) ht.byCallee caller n

namespace Holds

/-- A tight table keeps under a caller its names, if there are any. -/
lemma of_byCaller (h : t.Holds R) (ht : t.Tight) {c : SymbolId} {ns : List String}
    (hns : t.byCaller[c]? = some ns) : ns ≠ [] ∧ ns.Nodup ∧ ∀ n, n ∈ ns ↔ ⟨c, n⟩ ∈ R := by
  have hnames : t.names c = ns := by simp [names, hns]
  refine ⟨fun hnil => ht.byCaller c (by rw [hns, hnil]), hnames ▸ h.nodup_names c, fun n => ?_⟩
  rw [← hnames]
  exact h.mem_names c n

/-- A tight table keeps under a name the set of its callers, if there are any. -/
lemma byCallee_eq_some_iff (h : t.Holds R) (ht : t.Tight) (n : String) (s : ExtTreeSet SymbolId) :
    t.byCallee[n]? = some s ↔ s ≠ ∅ ∧ ∀ c, c ∈ s ↔ ⟨c, n⟩ ∈ R := by
  constructor
  · intro hs
    have hcallers : t.callersOf n = s := by simp [callersOf, hs]
    exact ⟨fun hempty => ht.byCallee n (by rw [hs, hempty]),
      fun c => hcallers ▸ h.mem_callersOf c n⟩
  · rintro ⟨hne, hs⟩
    have hcallers : t.callersOf n = s :=
      ExtTreeSet.ext_mem fun c => (h.mem_callersOf c n).trans (hs c).symm
    cases hget : t.byCallee[n]? with
    | none => exact absurd (by rw [← hcallers]; simp [callersOf, hget]) hne
    | some s' => rw [← hcallers]; simp [callersOf, hget]

/-- No reference is listed twice. -/
lemma nodup_toList (h : t.Holds R) : t.toList.Nodup :=
  (List.mergeSort_perm t.references _).nodup_iff.mpr (nodup_references h.nodup_names)

/-- The references are listed by caller and name. -/
lemma pairwise_toList (h : t.Holds R) :
    t.toList.Pairwise fun a b => compareReferences a b = .lt :=
  pairwise_mergeSort_eq_lt (nodup_references h.nodup_names)

/-- Two tables list the same exactly if they hold the same references. -/
lemma toList_eq_iff (h : t.Holds R) (h' : t'.Holds S) : t.toList = t'.toList ↔ R = S := by
  constructor
  · intro heq
    ext r
    rw [← h.mem_toList, heq, h'.mem_toList]
  · rintro rfl
    exact h.toList_eq h'

end Holds

end CallTable

/-! ### Histories of changes -/

/-- A change of a call table. -/
inductive CallTableChange where
  | insert (r : CallReference)
  | removeCaller (caller : SymbolId)

namespace CallTableChange

/-- What a change does to a table. -/
def onTable (t : CallTable) : CallTableChange → CallTable
  | .insert r => t.insert r
  | .removeCaller caller => t.removeCaller caller

/-- The table that a history of changes leaves. -/
def tableAfter (history : List CallTableChange) : CallTable := history.foldl onTable .empty

/-- A reference remains after a history if it was put in and its caller was not taken out since. -/
def Remains (history : List CallTableChange) (r : CallReference) : Prop :=
  ∃ before after, history = before ++ insert r :: after ∧ removeCaller r.caller ∉ after

/-- After one more change the reference remains that it put in, and of the others those that it did
not take out. -/
lemma remains_append (history : List CallTableChange) (x : CallTableChange) (r : CallReference) :
    Remains (history ++ [x]) r ↔ x = insert r ∨ Remains history r ∧ x ≠ removeCaller r.caller := by
  constructor
  · rintro ⟨before, after, heq, hnot⟩
    cases after using List.reverseRecOn with
    | nil => exact Or.inl (by simpa using (List.append_inj' heq rfl).2)
    | append_singleton after y =>
      rw [← List.cons_append, ← List.append_assoc] at heq
      obtain ⟨hhistory, hx⟩ := List.append_inj' heq rfl
      obtain rfl : x = y := by simpa using hx
      rw [List.mem_append, List.mem_singleton, not_or] at hnot
      exact Or.inr ⟨⟨before, after, hhistory, hnot.1⟩, fun h => hnot.2 h.symm⟩
  · rintro (rfl | ⟨⟨before, after, rfl, hnot⟩, hx⟩)
    · exact ⟨history, [], rfl, List.not_mem_nil⟩
    · refine ⟨before, after ++ [x], by simp, ?_⟩
      rw [List.mem_append, List.mem_singleton, not_or]
      exact ⟨hnot, fun h => hx h.symm⟩

/-- Along every history the table holds the references that remain. -/
lemma holds_tableAfter (history : List CallTableChange) :
    (tableAfter history).Holds {r | Remains history r} := by
  induction history using List.reverseRecOn with
  | nil => exact CallTable.Holds.empty.congr fun r => by simp [Remains]
  | append_singleton history x ih =>
    rw [tableAfter, List.foldl_concat]
    cases x with
    | insert r =>
      refine (ih.insert r).congr fun r' => ?_
      simp [remains_append, eq_comm]
    | removeCaller caller =>
      refine (ih.removeCaller caller).congr fun r => ?_
      simp [remains_append, eq_comm]

/-- Along every history the table is tight. -/
lemma tight_tableAfter (history : List CallTableChange) : (tableAfter history).Tight := by
  induction history using List.reverseRecOn with
  | nil => exact CallTable.tight_empty
  | append_singleton history x ih =>
    rw [tableAfter, List.foldl_concat]
    cases x with
    | insert r => exact ih.insert r
    | removeCaller caller => exact ih.removeCaller caller

/-- After every history the two maps of a call table are inverse to each other and hold the
references that remain: the names of each caller without repetitions, and under each name the set of
its callers, neither of them ever empty.  Taking a caller out takes its references and no other.
The references that remain are listed once each, in the order of callers and names, so two histories
are listed alike exactly if the same references remain after both. -/
theorem tableAfter_inverse (history : List CallTableChange) :
    let t := tableAfter history
    (∀ c n, n ∈ t.names c ↔ c ∈ t.callersOf n) ∧
    (∀ (c : SymbolId) (ns : List String), t.byCaller[c]? = some ns →
      ns ≠ [] ∧ ns.Nodup ∧ ∀ n, n ∈ ns ↔ Remains history ⟨c, n⟩) ∧
    (∀ (n : String) (s : ExtTreeSet SymbolId), t.byCallee[n]? = some s ↔
      s ≠ ∅ ∧ ∀ c, c ∈ s ↔ Remains history ⟨c, n⟩) ∧
    (∀ caller c n, (t.removeCaller caller).names c = (if c = caller then [] else t.names c) ∧
      (c ∈ (t.removeCaller caller).callersOf n ↔ c ∈ t.callersOf n ∧ c ≠ caller)) ∧
    (t.toList.Nodup ∧ ∀ r, r ∈ t.toList ↔ Remains history r) ∧
    t.toList.Pairwise (fun a b => CallTable.compareReferences a b = .lt) ∧
    ∀ history', (tableAfter history').toList = t.toList ↔
      ∀ r, Remains history' r ↔ Remains history r := by
  intro t
  have h : t.Holds {r | Remains history r} := holds_tableAfter history
  have ht : t.Tight := tight_tableAfter history
  refine ⟨fun c n => ?_, fun c ns => h.of_byCaller ht, h.byCallee_eq_some_iff ht, ?_,
    ⟨h.nodup_toList, h.mem_toList⟩, h.pairwise_toList, fun history' => ?_⟩
  · rw [h.mem_names, h.mem_callersOf]
  · intro caller c n
    refine ⟨CallTable.names_removeCaller t caller c, ?_⟩
    rw [(h.removeCaller caller).mem_callersOf, h.mem_callersOf]
    rfl
  · rw [(holds_tableAfter history').toList_eq_iff h, Set.ext_iff]
    rfl

end CallTableChange

end CodeAtlas
