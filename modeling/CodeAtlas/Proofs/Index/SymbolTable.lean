import CodeAtlas.Index.SymbolTable
import CodeAtlas.Proofs.OrderedMap
import Mathlib.Data.List.Nodup
import Mathlib.Data.Set.Basic
import Mathlib.Tactic.Lemma
import Mathlib.Tactic.SplitIfs

/-!
# The three maps of a symbol table agree

A symbol table keeps its symbols by identifier and two indexes beside them, by name and by file.  An
index agrees with the symbols under a key (`IdIndex.Indexes`) if each list holds exactly the
identifiers of the symbols with that key, each once, and no list is empty.  A table is consistent if
both indexes agree with its symbols and each symbol stands under its own identifier.

Everything that is done to a table keeps it consistent, so what a table answers is a matter of the
map by identifier alone, and that map is described operation by operation.
-/

namespace CodeAtlas

open Std (ExtTreeMap)

/-- An index lists, under each key, exactly the identifiers of the symbols with that key. -/
structure IdIndex.Indexes (m : IdIndex) (symbols : ExtTreeMap SymbolId Symbol)
    (key : Symbol → String) : Prop where
  mem_ids : ∀ (k : String) (id : SymbolId), id ∈ m.ids k ↔ ∃ s, symbols[id]? = some s ∧ key s = k
  nodup_ids : ∀ k : String, (m.ids k).Nodup
  ne_nil : ∀ k : String, m[k]? ≠ some []

namespace IdIndex

variable {m : IdIndex} {symbols : ExtTreeMap SymbolId Symbol} {key : Symbol → String}

/-- The identifiers under a key after an identifier was attached. -/
lemma ids_attach (m : IdIndex) (k k' : String) (id : SymbolId) :
    (m.attach k id).ids k' = if k' = k then m.ids k ++ [id] else m.ids k' := by
  simp only [ids, attach, ExtTreeMap.getElem?_insert, Std.LawfulEqCmp.compare_eq_iff_eq]
  by_cases h : k = k'
  · simp [h]
  · rw [if_neg h, if_neg (Ne.symm h)]

/-- The identifiers under a key after a key was taken out. -/
lemma ids_erase (m : IdIndex) (k k' : String) :
    IdIndex.ids (m.erase k) k' = if k' = k then [] else m.ids k' := by
  simp only [ids, ExtTreeMap.getElem?_erase, Std.LawfulEqCmp.compare_eq_iff_eq]
  by_cases h : k = k'
  · simp [h]
  · rw [if_neg h, if_neg (Ne.symm h)]

/-- The identifiers under a key after an identifier was detached. -/
lemma ids_detach (m : IdIndex) (k k' : String) (id : SymbolId) :
    (m.detach k id).ids k' = if k' = k then (m.ids k).filter (· != id) else m.ids k' := by
  unfold detach
  cases hk : m[k]? with
  | none =>
    split_ifs with h
    · simp [ids, h, hk]
    · rfl
  | some found =>
    simp only [ids, hk, Option.getD_some]
    by_cases he : (found.filter (· != id)).isEmpty
    · simp only [he, if_true, ExtTreeMap.getElem?_erase, Std.LawfulEqCmp.compare_eq_iff_eq]
      by_cases h : k = k'
      · simp [h, List.isEmpty_iff.mp he]
      · rw [if_neg h, if_neg (Ne.symm h)]
    · simp only [he, Bool.false_eq_true, if_false, ExtTreeMap.getElem?_insert,
        Std.LawfulEqCmp.compare_eq_iff_eq]
      by_cases h : k = k'
      · simp [h]
      · rw [if_neg h, if_neg (Ne.symm h)]

/-- Detaching keeps no empty list. -/
lemma detach_ne_nil (h : ∀ k : String, m[k]? ≠ some []) (k : String) (id : SymbolId) :
    ∀ k' : String, (m.detach k id)[k']? ≠ some [] := by
  intro k'
  unfold detach
  cases hk : m[k]? with
  | none => exact h k'
  | some found =>
    by_cases he : (found.filter (· != id)).isEmpty
    · simp only [he, if_true, ExtTreeMap.getElem?_erase]
      split_ifs
      · simp
      · exact h k'
    · simp only [he, Bool.false_eq_true, if_false, ExtTreeMap.getElem?_insert]
      split_ifs
      · exact fun hnil => he (by simp [Option.some.inj hnil])
      · exact h k'

namespace Indexes

/-- The empty index agrees with no symbols. -/
lemma empty (key : Symbol → String) : IdIndex.Indexes ∅ ∅ key where
  mem_ids k id := by simp [ids]
  nodup_ids k := by simp [ids]
  ne_nil k := by simp

/-- Attaching the identifier of a new symbol. -/
lemma attach (h : m.Indexes symbols key) {s : Symbol} (hs : symbols[s.id]? = none) :
    (m.attach (key s) s.id).Indexes (symbols.insert s.id s) key where
  mem_ids k id := by
    rw [ids_attach, ExtTreeMap.getElem?_insert]
    simp only [Std.LawfulEqCmp.compare_eq_iff_eq]
    by_cases hid : s.id = id
    · subst hid
      have hout : ∀ k, s.id ∉ m.ids k := fun k hk => by
        obtain ⟨s', hs', -⟩ := (h.mem_ids k s.id).mp hk
        rw [hs] at hs'
        cases hs'
      rw [if_pos rfl]
      by_cases hk : k = key s
      · simp [hk]
      · simp [hk, hout, Ne.symm hk]
    · rw [if_neg hid, ← h.mem_ids]
      split_ifs with hk
      · simp [hk, Ne.symm hid]
      · rfl
  nodup_ids k := by
    rw [ids_attach]
    split_ifs with hk
    · rw [List.nodup_append]
      refine ⟨h.nodup_ids _, List.nodup_singleton _, fun a ha b hb hab => ?_⟩
      rw [List.mem_singleton.mp hb] at hab
      obtain ⟨s', hs', -⟩ := (h.mem_ids _ _).mp (hab ▸ ha)
      rw [hs] at hs'
      cases hs'
    · exact h.nodup_ids k
  ne_nil k := by
    simp only [IdIndex.attach, ExtTreeMap.getElem?_insert]
    split_ifs
    · simp
    · exact h.ne_nil k

/-- Detaching the identifier of a symbol that goes. -/
lemma detach (h : m.Indexes symbols key) {s : Symbol} {id : SymbolId}
    (hs : symbols[id]? = some s) : (m.detach (key s) id).Indexes (symbols.erase id) key where
  mem_ids k id' := by
    rw [ids_detach, ExtTreeMap.getElem?_erase]
    simp only [Std.LawfulEqCmp.compare_eq_iff_eq]
    by_cases hid : id = id'
    · subst hid
      have hkey : ∀ k, id ∈ m.ids k → k = key s := fun k hk => by
        obtain ⟨s', hs', hk'⟩ := (h.mem_ids k id).mp hk
        rw [hs] at hs'
        rw [← hk', Option.some.inj hs']
      rw [if_pos rfl]
      by_cases hk : k = key s
      · simp [hk]
      · simpa [hk] using fun hin => hk (hkey k hin)
    · rw [if_neg hid, ← h.mem_ids]
      split_ifs with hk
      · simp [hk, Ne.symm hid]
      · rfl
  nodup_ids k := by
    rw [ids_detach]
    split_ifs
    · exact (h.nodup_ids _).filter _
    · exact h.nodup_ids k
  ne_nil := detach_ne_nil h.ne_nil _ _

/-- Detaching the identifiers of several symbols, one after the other. -/
lemma detachAll (h : m.Indexes symbols key) (ss : List Symbol)
    (hss : ∀ s ∈ ss, symbols[s.id]? = some s) (hnodup : (ss.map (·.id)).Nodup) :
    (ss.foldl (fun m s => m.detach (key s) s.id) m).Indexes
      (ss.foldl (fun symbols s => symbols.erase s.id) symbols) key := by
  induction ss generalizing m symbols with
  | nil => exact h
  | cons s ss ih =>
    rw [List.map_cons, List.nodup_cons] at hnodup
    refine ih (h.detach (hss s List.mem_cons_self)) (fun s' hs' => ?_) hnodup.2
    have hne : s.id ≠ s'.id := fun heq =>
      hnodup.1 (heq ▸ List.mem_map_of_mem (f := (·.id)) hs')
    rw [ExtTreeMap.getElem?_erase, if_neg (by simpa using hne)]
    exact hss s' (List.mem_cons_of_mem _ hs')

end Indexes

end IdIndex

namespace SymbolTable

variable {t : SymbolTable}

/-- The three maps of a table agree. -/
structure Consistent (t : SymbolTable) : Prop where
  id_eq : ∀ (id : SymbolId) (s : Symbol), t.symbols[id]? = some s → s.id = id
  byName : t.byName.Indexes t.symbols Symbol.name
  byFile : t.byFile.Indexes t.symbols Symbol.file

/-- The empty table is consistent. -/
lemma consistent_empty : SymbolTable.empty.Consistent where
  id_eq id s hs := by simp [SymbolTable.empty] at hs
  byName := IdIndex.Indexes.empty _
  byFile := IdIndex.Indexes.empty _

/-- Taking out an identifier takes out the symbol under it and no other. -/
lemma get?_remove (t : SymbolTable) (id id' : SymbolId) :
    (t.remove id).2.get? id' = if id' = id then none else t.get? id' := by
  unfold remove get?
  cases hs : t.symbols[id]? with
  | none =>
    split_ifs with h
    · simp [h, hs]
    · rfl
  | some s =>
    simp only [ExtTreeMap.getElem?_erase, Std.LawfulEqCmp.compare_eq_iff_eq]
    by_cases h : id = id'
    · simp [h]
    · rw [if_neg h, if_neg (Ne.symm h)]

/-- Taking out an identifier keeps a table consistent. -/
lemma Consistent.remove (h : t.Consistent) (id : SymbolId) : (t.remove id).2.Consistent := by
  unfold SymbolTable.remove
  cases hs : t.symbols[id]? with
  | none => exact h
  | some s =>
    refine ⟨fun id' s' hs' => ?_, h.byName.detach hs, h.byFile.detach hs⟩
    simp only [ExtTreeMap.getElem?_erase] at hs'
    split_ifs at hs'
    exact h.id_eq id' s' hs'

/-- A symbol that is put in stands under its identifier, and the others stay. -/
lemma get?_insert (t : SymbolTable) (s : Symbol) (id : SymbolId) :
    (t.insert s).get? id = if id = s.id then some s else t.get? id := by
  have hget : (t.insert s).get? id = if s.id = id then some s else (t.remove s.id).2.get? id := by
    simp only [insert, get?, ExtTreeMap.getElem?_insert, Std.LawfulEqCmp.compare_eq_iff_eq]
  rw [hget, get?_remove]
  by_cases h : id = s.id
  · rw [if_pos h.symm, if_pos h]
  · rw [if_neg (Ne.symm h), if_neg h, if_neg h]

/-- Putting a symbol in keeps a table consistent. -/
lemma Consistent.insert (h : t.Consistent) (s : Symbol) : (t.insert s).Consistent := by
  have hnone : (t.remove s.id).2.symbols[s.id]? = none := by
    simpa [get?] using get?_remove t s.id s.id
  have hrem := h.remove s.id
  refine ⟨fun id s' hs' => ?_, hrem.byName.attach hnone, hrem.byFile.attach hnone⟩
  simp only [SymbolTable.insert, ExtTreeMap.getElem?_insert,
    Std.LawfulEqCmp.compare_eq_iff_eq] at hs'
  split_ifs at hs' with hid
  · rw [← Option.some.inj hs', hid]
  · exact hrem.id_eq id s' hs'

/-- Putting symbols in keeps a table consistent. -/
lemma Consistent.insertAll (h : t.Consistent) (ss : List Symbol) : (t.insertAll ss).Consistent := by
  unfold SymbolTable.insertAll
  induction ss generalizing t with
  | nil => exact h
  | cons s ss ih => exact ih (h.insert s)

/-- The table of a list of symbols is consistent. -/
lemma consistent_ofList (ss : List Symbol) : (ofList ss).Consistent := consistent_empty.insertAll ss

/-- Of the symbols that are put in, the last with an identifier stands under it. -/
lemma get?_insertAll (t : SymbolTable) (ss : List Symbol) (id : SymbolId) :
    (t.insertAll ss).get? id = (ss.reverse.find? (·.id == id)).or (t.get? id) := by
  unfold insertAll
  induction ss generalizing t with
  | nil => simp
  | cons s ss ih =>
    rw [List.foldl_cons, ih, get?_insert, List.reverse_cons, List.find?_append]
    by_cases h : id = s.id
    · simp [h]
    · have hne : (s.id == id) = false := by simpa using Ne.symm h
      simp [h, hne]

/-- Among symbols with distinct identifiers each one stands under its own. -/
lemma get?_insertAll_eq_some_iff (t : SymbolTable) {ss : List Symbol}
    (hnodup : (ss.map (·.id)).Nodup) (id : SymbolId) (s : Symbol) :
    (t.insertAll ss).get? id = some s ↔
      s ∈ ss ∧ s.id = id ∨ t.get? id = some s ∧ ∀ s' ∈ ss, s'.id ≠ id := by
  rw [get?_insertAll, Option.or_eq_some_iff, List.find?_eq_none]
  simp only [List.mem_reverse, beq_iff_eq]
  refine or_congr ⟨fun h => ?_, fun ⟨hs, hid⟩ => ?_⟩ and_comm
  · exact ⟨List.mem_reverse.mp (List.mem_of_find?_eq_some h), by simpa using List.find?_some h⟩
  · cases hf : ss.reverse.find? (·.id == id) with
    | none => exact absurd hid (by simpa using List.find?_eq_none.mp hf s (List.mem_reverse.mpr hs))
    | some s' =>
      have hs' : s' ∈ ss := List.mem_reverse.mp (List.mem_of_find?_eq_some hf)
      have hid' : s'.id = id := by simpa using List.find?_some hf
      rw [List.inj_on_of_nodup_map hnodup hs' hs (hid'.trans hid.symm)]

namespace Consistent

/-- The symbols that a list of identifiers stands for. -/
lemma mem_getAll (h : t.Consistent) {ids : List SymbolId} {s : Symbol} :
    s ∈ t.getAll ids ↔ s.id ∈ ids ∧ t.get? s.id = some s := by
  simp only [getAll, List.mem_filterMap]
  constructor
  · rintro ⟨id, hid, hs⟩
    rw [h.id_eq id s hs]
    exact ⟨hid, hs⟩
  · rintro ⟨hid, hs⟩
    exact ⟨s.id, hid, hs⟩

/-- Distinct identifiers stand for symbols with distinct identifiers. -/
lemma nodup_map_id_getAll (h : t.Consistent) {ids : List SymbolId} (hids : ids.Nodup) :
    ((t.getAll ids).map (·.id)).Nodup := by
  have hsub : (t.getAll ids).map (·.id) = ids.filter fun id => (t.get? id).isSome := by
    induction ids with
    | nil => rfl
    | cons id ids ih =>
      rw [List.nodup_cons] at hids
      cases hs : t.get? id with
      | none => simpa [getAll, hs] using ih hids.2
      | some s => simpa [getAll, hs, h.id_eq id s hs] using ih hids.2
  exact hsub ▸ hids.filter _

/-- The symbols of a file are those that are taken out with it. -/
lemma mem_removeFile (h : t.Consistent) {file : String} {s : Symbol} :
    s ∈ (t.removeFile file).1 ↔ t.get? s.id = some s ∧ s.file = file := by
  rw [removeFile, h.mem_getAll, h.byFile.mem_ids]
  constructor
  · rintro ⟨⟨s', hs', hfile⟩, hs⟩
    rw [get?, hs'] at hs
    exact ⟨by rw [get?, hs', hs], Option.some.inj hs ▸ hfile⟩
  · rintro ⟨hs, hfile⟩
    exact ⟨⟨s, hs, hfile⟩, hs⟩

/-- The symbols of a file. -/
lemma mem_inFile (h : t.Consistent) {file : String} {s : Symbol} :
    s ∈ t.inFile file ↔ t.get? s.id = some s ∧ s.file = file := by
  rw [inFile, Symbol.sortBy, List.mem_mergeSort]
  exact h.mem_removeFile

/-- The symbols that stay when a file goes. -/
lemma get?_removeFile (h : t.Consistent) (file : String) (id : SymbolId) :
    (t.removeFile file).2.get? id = (t.get? id).filter fun s => s.file != file := by
  have herase : ∀ (ss : List Symbol) (m : ExtTreeMap SymbolId Symbol),
      (ss.foldl (fun m s => m.erase s.id) m)[id]? =
        if id ∈ ss.map (·.id) then none else m[id]? := by
    intro ss
    induction ss with
    | nil => simp
    | cons s ss ih =>
      intro m
      rw [List.foldl_cons, ih, ExtTreeMap.getElem?_erase]
      simp only [Std.LawfulEqCmp.compare_eq_iff_eq, List.map_cons, List.mem_cons]
      by_cases hid : s.id = id
      · simp [hid]
      · simp [hid, Ne.symm hid]
  have hget : (t.removeFile file).2.get? id =
      if id ∈ (t.removeFile file).1.map (·.id) then none else t.get? id := herase _ _
  rw [hget]
  cases hs : t.get? id with
  | none => simp
  | some s =>
    have hid : s.id = id := h.id_eq id s hs
    have hin : id ∈ (t.removeFile file).1.map (·.id) ↔ s.file = file := by
      rw [List.mem_map]
      constructor
      · rintro ⟨s', hs', heq⟩
        obtain ⟨hget', hfile⟩ := h.mem_removeFile.mp hs'
        rw [heq, hs] at hget'
        exact Option.some.inj hget' ▸ hfile
      · exact fun hfile => ⟨s, h.mem_removeFile.mpr ⟨hid ▸ hs, hfile⟩, hid⟩
    by_cases hfile : s.file = file
    · rw [if_pos (hin.mpr hfile), Option.filter_some_neg (by simp [hfile])]
    · rw [if_neg fun hmem => hfile (hin.mp hmem), Option.filter_some_pos (by simp [hfile])]

/-- Taking out a file keeps a table consistent. -/
lemma removeFile (h : t.Consistent) (file : String) : (t.removeFile file).2.Consistent := by
  have hget : ∀ id : SymbolId, (t.removeFile file).2.symbols[id]? =
      (t.symbols[id]?).filter fun s => s.file != file := h.get?_removeFile file
  refine ⟨fun id s hs => ?_, ?_, ?_⟩
  · rw [hget, Option.filter_eq_some_iff] at hs
    exact h.id_eq id s hs.1
  · exact h.byName.detachAll _ (fun s hs => (h.mem_removeFile.mp hs).1)
      (h.nodup_map_id_getAll (h.byFile.nodup_ids file))
  · have hids : ∀ k, IdIndex.ids (t.removeFile file).2.byFile k =
        if k = file then [] else t.byFile.ids k := IdIndex.ids_erase t.byFile file
    refine ⟨fun k id => ?_, fun k => ?_, fun k => ?_⟩
    · rw [hids]
      simp only [hget, Option.filter_eq_some_iff, bne_iff_ne, ne_eq]
      split_ifs with hk
      · simp only [List.not_mem_nil, false_iff]
        rintro ⟨s, ⟨-, hne⟩, hkey⟩
        exact hne (hkey.trans hk)
      · rw [h.byFile.mem_ids]
        constructor
        · rintro ⟨s, hs, hkey⟩
          exact ⟨s, ⟨hs, fun heq => hk (hkey.symm.trans heq)⟩, hkey⟩
        · rintro ⟨s, ⟨hs, -⟩, hkey⟩
          exact ⟨s, hs, hkey⟩
    · rw [hids]
      split_ifs
      · exact List.nodup_nil
      · exact h.byFile.nodup_ids k
    · simp only [SymbolTable.removeFile, ExtTreeMap.getElem?_erase]
      split_ifs
      · simp
      · exact h.byFile.ne_nil k

/-- The functions of a name. -/
lemma mem_functionIds (h : t.Consistent) (name : String) (id : SymbolId) :
    id ∈ t.functionIds name ↔
      ∃ s, t.get? id = some s ∧ s.name = name ∧ s.isFunction = true := by
  rw [functionIds, List.mem_filter, h.byName.mem_ids]
  constructor
  · rintro ⟨⟨s, hs, hname⟩, hfun⟩
    exact ⟨s, hs, hname, by simpa [get?, hs] using hfun⟩
  · rintro ⟨s, hs, hname, hfun⟩
    exact ⟨⟨s, hs, hname⟩, by simp [hs, hfun]⟩

/-- A symbol is listed exactly if it stands under its identifier. -/
lemma mem_toList (h : t.Consistent) (s : Symbol) : s ∈ t.toList ↔ t.get? s.id = some s := by
  rw [toList, Symbol.sortBy, List.mem_mergeSort, values_eq_map_toList, List.mem_map]
  constructor
  · rintro ⟨⟨id, s'⟩, hs', rfl⟩
    rw [ExtTreeMap.mem_toList_iff_getElem?_eq_some] at hs'
    rw [h.id_eq id s' hs']
    exact hs'
  · exact fun hs => ⟨(s.id, s), ExtTreeMap.mem_toList_iff_getElem?_eq_some.mpr hs, rfl⟩

/-- An identifier is that of a listed symbol exactly if a symbol stands under it. -/
lemma exists_mem_toList_iff (h : t.Consistent) {id : SymbolId} :
    (∃ s ∈ t.toList, s.id = id) ↔ (t.get? id).isSome := by
  rw [Option.isSome_iff_exists]
  constructor
  · rintro ⟨s, hs, rfl⟩
    exact ⟨s, (h.mem_toList s).mp hs⟩
  · rintro ⟨s, hs⟩
    obtain rfl := h.id_eq id s hs
    exact ⟨s, (h.mem_toList s).mpr hs, rfl⟩

/-- What is listed after symbols were put in is one of them, or it was listed before. -/
lemma mem_or_mem_of_insertAll (h : t.Consistent) {ss : List Symbol} {s : Symbol}
    (hs : s ∈ (t.insertAll ss).toList) : s ∈ ss ∨ s ∈ t.toList := by
  rw [(h.insertAll ss).mem_toList, get?_insertAll, Option.or_eq_some_iff] at hs
  rcases hs with hs | ⟨-, hs⟩
  · exact Or.inl (List.mem_reverse.mp (List.mem_of_find?_eq_some hs))
  · exact Or.inr ((h.mem_toList s).mpr hs)

/-- The identifiers of the listed symbols after symbols were put in: theirs, and those from
before. -/
lemma exists_mem_toList_insertAll_iff (h : t.Consistent) {ss : List Symbol} {id : SymbolId} :
    (∃ s ∈ (t.insertAll ss).toList, s.id = id) ↔
      (∃ s ∈ ss, s.id = id) ∨ ∃ s ∈ t.toList, s.id = id := by
  rw [(h.insertAll ss).exists_mem_toList_iff, h.exists_mem_toList_iff, get?_insertAll,
    Option.isSome_or, Bool.or_eq_true]
  simp

/-- The listed symbols have distinct identifiers. -/
lemma nodup_map_id_toList (h : t.Consistent) : (t.toList.map (·.id)).Nodup := by
  have hkeys : t.symbols.values.map (·.id) = t.symbols.keys := by
    rw [values_eq_map_toList, List.map_map, ← ExtTreeMap.map_fst_toList_eq_keys]
    refine List.map_congr_left fun p hp => ?_
    exact h.id_eq p.1 p.2 (ExtTreeMap.mem_toList_iff_getElem?_eq_some.mp hp)
  have hperm : (t.toList.map (·.id)).Perm t.symbols.keys :=
    ((List.mergeSort_perm _ _).map _).trans (List.Perm.of_eq hkeys)
  exact hperm.nodup_iff.mpr ExtTreeMap.nodup_keys

end Consistent

/-! ### A table holds a set of symbols -/

/-- The table is consistent and its symbols are the given ones. -/
structure Holds (t : SymbolTable) (S : Set Symbol) : Prop where
  consistent : t.Consistent
  get?_eq_some_iff : ∀ s, t.get? s.id = some s ↔ s ∈ S

/-- A consistent table holds the symbols that stand under their identifiers. -/
lemma Consistent.holds (h : t.Consistent) : t.Holds {s | t.get? s.id = some s} :=
  ⟨h, fun _ => Iff.rfl⟩

namespace Holds

variable {S T : Set Symbol} {t' : SymbolTable}

/-- Equal sets of symbols are held by the same tables. -/
lemma congr (h : t.Holds S) (hS : ∀ s, s ∈ S ↔ s ∈ T) : t.Holds T :=
  ⟨h.consistent, fun s => (h.get?_eq_some_iff s).trans (hS s)⟩

/-- The empty table holds no symbols. -/
lemma empty : SymbolTable.empty.Holds ∅ :=
  ⟨consistent_empty, fun s => by simp [SymbolTable.empty, get?]⟩

/-- Putting in new symbols with distinct identifiers. -/
lemma insertAll (h : t.Holds S) {ss : List Symbol} (hnodup : (ss.map (·.id)).Nodup)
    (hnew : ∀ s ∈ ss, ∀ s' ∈ S, s.id ≠ s'.id) : (t.insertAll ss).Holds {s | s ∈ S ∨ s ∈ ss} := by
  refine ⟨h.consistent.insertAll ss, fun s => ?_⟩
  rw [get?_insertAll_eq_some_iff t hnodup, h.get?_eq_some_iff, Set.mem_ofPred_eq]
  constructor
  · rintro (⟨hs, -⟩ | ⟨hs, -⟩)
    · exact Or.inr hs
    · exact Or.inl hs
  · rintro (hs | hs)
    · exact Or.inr ⟨hs, fun s' hs' => hnew s' hs' s hs⟩
    · exact Or.inl ⟨hs, rfl⟩

/-- Taking out a file. -/
lemma removeFile (h : t.Holds S) (file : String) :
    (t.removeFile file).2.Holds {s | s ∈ S ∧ s.file ≠ file} := by
  refine ⟨h.consistent.removeFile file, fun s => ?_⟩
  rw [h.consistent.get?_removeFile, Option.filter_eq_some_iff, h.get?_eq_some_iff, bne_iff_ne]
  rfl

/-- The symbols that are taken out with a file. -/
lemma mem_removeFile (h : t.Holds S) {file : String} {s : Symbol} :
    s ∈ (t.removeFile file).1 ↔ s ∈ S ∧ s.file = file := by
  rw [h.consistent.mem_removeFile, h.get?_eq_some_iff]

/-- The functions of a name. -/
lemma mem_functionIds (h : t.Holds S) (name : String) (id : SymbolId) :
    id ∈ t.functionIds name ↔ ∃ s ∈ S, s.isFunction = true ∧ s.name = name ∧ s.id = id := by
  rw [h.consistent.mem_functionIds]
  constructor
  · rintro ⟨s, hs, hname, hfun⟩
    obtain rfl := h.consistent.id_eq id s hs
    exact ⟨s, (h.get?_eq_some_iff s).mp hs, hfun, hname, rfl⟩
  · rintro ⟨s, hs, hfun, hname, rfl⟩
    exact ⟨s, (h.get?_eq_some_iff s).mpr hs, hname, hfun⟩

/-- The symbols that are listed are those that the table holds. -/
lemma mem_toList (h : t.Holds S) (s : Symbol) : s ∈ t.toList ↔ s ∈ S :=
  (h.consistent.mem_toList s).trans (h.get?_eq_some_iff s)

/-- Which symbol stands under an identifier depends on the set of symbols alone. -/
lemma symbols_eq (h : t.Holds S) (h' : t'.Holds S) : t.symbols = t'.symbols := by
  have hsome : ∀ {t t' : SymbolTable}, t.Holds S → t'.Holds S → ∀ (id : SymbolId) (s : Symbol),
      t.symbols[id]? = some s → t'.symbols[id]? = some s := by
    intro t t' h h' id s hs
    obtain rfl := h.consistent.id_eq id s hs
    exact (h'.get?_eq_some_iff s).mpr ((h.get?_eq_some_iff s).mp hs)
  exact ExtTreeMap.ext_getElem? fun id => Option.ext fun s => ⟨hsome h h' id s, hsome h' h id s⟩

/-- What is listed depends on the set of symbols alone. -/
lemma toList_eq (h : t.Holds S) (h' : t'.Holds S) : t.toList = t'.toList := by
  rw [toList, toList, h.symbols_eq h']

/-- The symbols that go with a file depend on the set of symbols alone, up to their order. -/
lemma perm_removeFile (h : t.Holds S) (h' : t'.Holds S) (file : String) :
    (t.removeFile file).1.Perm (t'.removeFile file).1 := by
  have hnodup : ∀ {t : SymbolTable}, t.Consistent → (t.removeFile file).1.Nodup := fun ht =>
    (ht.nodup_map_id_getAll (ht.byFile.nodup_ids file)).of_map
  rw [List.perm_ext_iff_of_nodup (hnodup h.consistent) (hnodup h'.consistent)]
  intro s
  rw [h.mem_removeFile, h'.mem_removeFile]

/-- Tables with the same symbols have the same symbols after whatever is put in, also where an
identifier is there already or comes twice. -/
lemma exists_insertAll (h : t.Holds S) (h' : t'.Holds S) (ss : List Symbol) :
    ∃ T, (t.insertAll ss).Holds T ∧ (t'.insertAll ss).Holds T := by
  have hget : ∀ id, (t.insertAll ss).get? id = (t'.insertAll ss).get? id := fun id => by
    rw [get?_insertAll, get?_insertAll, get?, get?, h.symbols_eq h']
  refine ⟨_, (h.consistent.insertAll ss).holds, h'.consistent.insertAll ss, fun s => ?_⟩
  rw [← hget]
  rfl

end Holds

end SymbolTable

end CodeAtlas
