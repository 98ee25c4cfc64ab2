import CodeAtlas.Proofs.Index.SymbolTable
import Mathlib.Algebra.BigOperators.Group.List.Basic
import Mathlib.Algebra.GroupWithZero.Nat
import Mathlib.Data.List.Dedup
import Mathlib.Data.List.Perm.Basic
import Mathlib.Data.List.Perm.Lattice

/-!
# A symbol table is a list of symbols

What a symbol table holds is a list: the symbols in the order in which they were put in, with
distinct identifiers.  Putting a symbol in takes out the one with its identifier and puts the new
one at the end, whatever name or file the old one had.  A table *lists* such a list
(`SymbolTable.Lists`) if it holds its symbols and both indexes name them in its order, and every
edit of the table is that edit of the list (`TableEdit.lists_foldl`).

All answers are then read off the list.  A query by name, file or kind is a filter, put in order by
a sort that leaves ties as they stand in the list (`Symbol.Sorts`), and the numbers that a table
gives are lengths.
-/

namespace CodeAtlas

open Std (ExtTreeMap)

/-! ### Sorting that keeps ties in order -/

namespace Symbol

instance : Std.TransCmp compareByPlace := inferInstanceAs (Std.TransCmp (compareLex _ _))

instance : Std.TransCmp compareByLine := inferInstanceAs (Std.TransCmp (compareOn _))

instance : Std.TransCmp compareByName := inferInstanceAs (Std.TransCmp (compareLex _ _))

/-- A list is the given symbols put in order, and the symbols that tie with any one stand as they
stood. -/
structure Sorts (cmp : Symbol → Symbol → Ordering) (symbols sorted : List Symbol) : Prop where
  perm : sorted.Perm symbols
  ordered : sorted.Pairwise fun a b => (cmp a b).isLE = true
  ties_eq : ∀ a, sorted.filter (fun b => cmp a b == .eq) = symbols.filter fun b => cmp a b == .eq

/-- Sorting puts symbols in order and leaves ties as they stood. -/
lemma sorts_sortBy (cmp : Symbol → Symbol → Ordering) [Std.TransCmp cmp] (symbols : List Symbol) :
    Sorts cmp symbols (sortBy cmp symbols) := by
  have htrans : ∀ a b c : Symbol, (cmp a b).isLE = true → (cmp b c).isLE = true →
      (cmp a c).isLE = true := fun a b c hab hbc => Std.TransCmp.isLE_trans hab hbc
  have hperm : (sortBy cmp symbols).Perm symbols := List.mergeSort_perm _ _
  refine ⟨hperm, pairwise_mergeSort_isLE symbols, fun a => ?_⟩
  -- The symbols that tie with one are in order already, so the sort keeps them as a sublist.
  have hties : (symbols.filter fun b => cmp a b == .eq).Pairwise
      fun b c => (cmp b c).isLE = true := by
    refine List.pairwise_iff_forall_sublist.mpr fun {b c} hbc => ?_
    have hmem : ∀ d ∈ [b, c], cmp a d = .eq := fun d hd => by
      simpa using (List.mem_filter.mp (hbc.subset hd)).2
    have hab : cmp a b = .eq := hmem b (by simp)
    have hac : cmp a c = .eq := hmem c (by simp)
    have hbc : cmp b c = .eq := Std.TransCmp.eq_trans (Std.OrientedCmp.eq_symm hab) hac
    simp [hbc]
  have hsub : (symbols.filter fun b => cmp a b == .eq).Sublist (sortBy cmp symbols) :=
    List.sublist_mergeSort htrans isLE_or_isLE hties List.filter_sublist
  have hfilter := hsub.filter fun b => cmp a b == .eq
  simp only [List.filter_filter, Bool.and_self] at hfilter
  exact (hfilter.eq_of_length (hperm.filter _).length_eq.symm).symm

end Symbol

/-! ### Indexes in the order of a list -/

/-- An index names, under each key, the symbols of a list that have it, in the order of the list. -/
def IdIndex.Follows (m : IdIndex) (key : Symbol → String) (symbols : List Symbol) : Prop :=
  ∀ k : String, m.ids k = (symbols.filter fun s => key s == k).map (·.id)

namespace IdIndex.Follows

variable {m : IdIndex} {key : Symbol → String} {symbols : List Symbol}

/-- The empty index follows the empty list. -/
lemma empty (key : Symbol → String) : IdIndex.Follows ∅ key [] := fun k => by simp [ids]

/-- A symbol comes to the end. -/
lemma attach (h : m.Follows key symbols) (s : Symbol) :
    (m.attach (key s) s.id).Follows key (symbols ++ [s]) := by
  intro k
  rw [ids_attach, List.filter_append, List.map_append, ← h k]
  by_cases hk : k = key s
  · simp [hk]
  · simp [hk, Ne.symm hk]

/-- An identifier goes, if all symbols that have it have the key from which it is detached. -/
lemma detach (h : m.Follows key symbols) {k : String} {id : SymbolId}
    (hkey : ∀ s ∈ symbols, s.id = id → key s = k) :
    (m.detach k id).Follows key (symbols.filter (·.id != id)) := by
  intro k'
  rw [ids_detach, List.filter_filter]
  by_cases hk : k' = k
  · subst hk
    rw [if_pos rfl, h k', List.filter_map, List.filter_filter]
    congr 1
    exact List.filter_congr fun s _ => Bool.and_comm _ _
  · rw [if_neg hk, h k']
    congr 1
    refine List.filter_congr fun s hs => ?_
    by_cases hid : s.id = id
    · simp [hid, hkey s hs hid, Ne.symm hk]
    · simp [hid]

/-- The identifiers of several symbols go, one after the other. -/
lemma detachAll (h : m.Follows key symbols) (gone : List Symbol)
    (hgone : ∀ s ∈ gone, ∀ s' ∈ symbols, s'.id = s.id → key s' = key s) :
    (gone.foldl (fun m s => m.detach (key s) s.id) m).Follows key
      (symbols.filter fun s => !(gone.map (·.id)).contains s.id) := by
  induction gone generalizing m symbols with
  | nil => simpa using h
  | cons s gone ih =>
    rw [List.forall_mem_cons] at hgone
    have hrest := ih (h.detach hgone.1) fun s' hs' s'' hs'' =>
      hgone.2 s' hs' s'' (List.mem_filter.mp hs'').1
    rw [List.filter_filter] at hrest
    rw [List.foldl_cons]
    convert hrest using 2
    funext s'
    rw [List.map_cons, List.contains_cons, Bool.not_or, Bool.and_comm]
    rfl

end IdIndex.Follows

/-! ### Tables that list symbols -/

namespace SymbolTable

/-- A table holds the symbols of a list, which have distinct identifiers, and names them in the
order of the list. -/
structure Lists (t : SymbolTable) (symbols : List Symbol) : Prop where
  holds : t.Holds {s | s ∈ symbols}
  nodup_ids : (symbols.map (·.id)).Nodup
  byName : t.byName.Follows Symbol.name symbols
  byFile : t.byFile.Follows Symbol.file symbols

namespace Lists

variable {t : SymbolTable} {symbols : List Symbol}

/-- The empty table lists nothing. -/
lemma empty : SymbolTable.empty.Lists [] where
  holds := Holds.empty.congr fun s => by simp
  nodup_ids := List.nodup_nil
  byName := IdIndex.Follows.empty _
  byFile := IdIndex.Follows.empty _

/-- The symbol under an identifier is the one in the list that has it. -/
lemma get?_eq_some_iff (h : t.Lists symbols) {id : SymbolId} {s : Symbol} :
    t.get? id = some s ↔ s ∈ symbols ∧ s.id = id := by
  constructor
  · intro hs
    obtain rfl := h.holds.consistent.id_eq id s hs
    exact ⟨(h.holds.get?_eq_some_iff s).mp hs, rfl⟩
  · rintro ⟨hs, rfl⟩
    exact (h.holds.get?_eq_some_iff s).mpr hs

/-- Symbols of the list that have the same identifier are the same. -/
lemma eq_of_id_eq (h : t.Lists symbols) {s s' : Symbol} (hs : s ∈ symbols) (hs' : s' ∈ symbols)
    (hid : s.id = s'.id) : s = s' := List.inj_on_of_nodup_map h.nodup_ids hs hs' hid

/-- The index by name after an identifier was taken out. -/
lemma byName_remove (t : SymbolTable) (id : SymbolId) :
    (t.remove id).2.byName = (t.get? id).elim t.byName fun s => t.byName.detach s.name id := by
  unfold SymbolTable.remove get?
  cases t.symbols[id]? <;> rfl

/-- The index by file after an identifier was taken out. -/
lemma byFile_remove (t : SymbolTable) (id : SymbolId) :
    (t.remove id).2.byFile = (t.get? id).elim t.byFile fun s => t.byFile.detach s.file id := by
  unfold SymbolTable.remove get?
  cases t.symbols[id]? <;> rfl

/-- An index follows the list when an identifier goes from both. -/
lemma follows_remove (h : t.Lists symbols) {m : IdIndex} {key : Symbol → String}
    (hm : m.Follows key symbols) (id : SymbolId) :
    IdIndex.Follows ((t.get? id).elim m fun s => m.detach (key s) id) key
      (symbols.filter (·.id != id)) := by
  cases hs : t.get? id with
  | none =>
    have hkeep : symbols.filter (·.id != id) = symbols := by
      refine List.filter_eq_self.mpr fun s hs' => ?_
      rw [bne_iff_ne]
      intro hid
      rw [h.get?_eq_some_iff.mpr ⟨hs', hid⟩] at hs
      cases hs
    rwa [hkeep]
  | some s =>
    obtain ⟨hmem, hid⟩ := h.get?_eq_some_iff.mp hs
    refine hm.detach fun s' hs' hid' => ?_
    rw [h.eq_of_id_eq hs' hmem (hid'.trans hid.symm)]

/-- An identifier goes. -/
lemma remove (h : t.Lists symbols) (id : SymbolId) :
    (t.remove id).2.Lists (symbols.filter (·.id != id)) where
  holds := by
    refine ⟨h.holds.consistent.remove id, fun s => ?_⟩
    rw [get?_remove, Set.mem_ofPred_eq, List.mem_filter, bne_iff_ne]
    split_ifs with hid
    · simp [hid]
    · rw [h.get?_eq_some_iff]
      simp [hid]
  nodup_ids := (List.filter_sublist.map _).nodup h.nodup_ids
  byName := byName_remove t id ▸ h.follows_remove h.byName id
  byFile := byFile_remove t id ▸ h.follows_remove h.byFile id

/-- A symbol is put in; the one with its identifier goes first. -/
lemma insert (h : t.Lists symbols) (s : Symbol) :
    (t.insert s).Lists (symbols.filter (·.id != s.id) ++ [s]) where
  holds := by
    refine ⟨h.holds.consistent.insert s, fun s' => ?_⟩
    rw [get?_insert, Set.mem_ofPred_eq, List.mem_append, List.mem_filter, List.mem_singleton,
      bne_iff_ne]
    split_ifs with hid
    · simp [hid, eq_comm]
    · have hne : s' ≠ s := fun heq => hid (heq ▸ rfl)
      rw [h.get?_eq_some_iff]
      simp [hid, hne]
  nodup_ids := by
    rw [List.map_append, List.nodup_append]
    refine ⟨(h.remove s.id).nodup_ids, List.nodup_singleton _, ?_⟩
    intro id hid id' hid' heq
    obtain ⟨s', hs', rfl⟩ := List.mem_map.mp hid
    rw [List.map_singleton, List.mem_singleton] at hid'
    rw [List.mem_filter, bne_iff_ne] at hs'
    exact hs'.2 (heq.trans hid')
  byName := (h.remove s.id).byName.attach s
  byFile := (h.remove s.id).byFile.attach s

/-- The identifiers of symbols in the list stand for these symbols. -/
lemma getAll_map_id (h : t.Lists symbols) {ss : List Symbol} (hss : ∀ s ∈ ss, s ∈ symbols) :
    t.getAll (ss.map (·.id)) = ss := by
  induction ss with
  | nil => rfl
  | cons s ss ih =>
    rw [List.forall_mem_cons] at hss
    have hs : t.get? s.id = some s := h.get?_eq_some_iff.mpr ⟨hss.1, rfl⟩
    have hrest : (ss.map (·.id)).filterMap t.get? = ss := ih hss.2
    rw [getAll, List.map_cons, List.filterMap_cons, hs, hrest]

/-- The symbols of a name, in the order of the list. -/
lemma getAll_byName (h : t.Lists symbols) (name : String) :
    t.getAll (t.byName.ids name) = symbols.filter (·.name == name) := by
  rw [h.byName name]
  exact h.getAll_map_id fun s hs => (List.mem_filter.mp hs).1

/-- The symbols of a file, in the order of the list. -/
lemma getAll_byFile (h : t.Lists symbols) (file : String) :
    t.getAll (t.byFile.ids file) = symbols.filter (·.file == file) := by
  rw [h.byFile file]
  exact h.getAll_map_id fun s hs => (List.mem_filter.mp hs).1

/-- A file goes. -/
lemma removeFile (h : t.Lists symbols) (file : String) :
    (t.removeFile file).2.Lists (symbols.filter (·.file != file)) where
  holds := (h.holds.removeFile file).congr fun s => by simp
  nodup_ids := (List.filter_sublist.map _).nodup h.nodup_ids
  byName := by
    have hdetached := h.byName.detachAll (t.getAll (t.byFile.ids file)) fun s hs s' hs' hid => by
      rw [h.getAll_byFile, List.mem_filter] at hs
      rw [h.eq_of_id_eq hs' hs.1 hid]
    -- A symbol of the list has the identifier of one of the file exactly if it is that one.
    have hsame : symbols.filter (·.file != file) = symbols.filter fun s =>
        !((t.getAll (t.byFile.ids file)).map (·.id)).contains s.id := by
      refine List.filter_congr fun s hs => ?_
      rw [h.getAll_byFile, bne, Bool.not_inj_iff, Bool.eq_iff_iff, List.contains_iff_mem,
        List.mem_map, beq_iff_eq]
      constructor
      · exact fun hfile => ⟨s, by simp [hs, hfile], rfl⟩
      · rintro ⟨s', hs', hid⟩
        rw [List.mem_filter, beq_iff_eq] at hs'
        rw [← h.eq_of_id_eq hs'.1 hs hid, hs'.2]
    rw [hsame]
    exact hdetached
  byFile := by
    intro k
    have hids : IdIndex.ids (t.removeFile file).2.byFile k =
        if k = file then [] else t.byFile.ids k := IdIndex.ids_erase t.byFile file k
    rw [hids, List.filter_filter]
    split_ifs with hk
    · simp [hk]
    · rw [h.byFile k]
      congr 1
      refine List.filter_congr fun s _ => ?_
      by_cases hfile : s.file = k
      · simp [hfile, hk]
      · simp [hfile]

/-! ### What a table answers -/

/-- The symbols of a table are those of the list. -/
lemma perm_values (h : t.Lists symbols) : t.symbols.values.Perm symbols := by
  have hlisted : t.symbols.values.Perm t.toList := (List.mergeSort_perm _ _).symm
  refine hlisted.trans ?_
  rw [List.perm_ext_iff_of_nodup h.holds.consistent.nodup_map_id_toList.of_map h.nodup_ids.of_map]
  intro s
  exact h.holds.mem_toList s

/-- A table has as many symbols as the list. -/
lemma size_eq (h : t.Lists symbols) : t.size = symbols.length := by
  rw [← h.perm_values.length_eq, values_eq_map_toList, List.length_map, ExtTreeMap.length_toList]
  rfl

/-- The functions of a name, in the order of the list. -/
lemma functionIds_eq (h : t.Lists symbols) (name : String) :
    t.functionIds name = (symbols.filter fun s => s.name == name && s.isFunction).map (·.id) := by
  rw [functionIds, h.byName name, List.filter_map, List.filter_filter]
  congr 1
  refine List.filter_congr fun s hs => ?_
  have hget : t.get? s.id = some s := h.get?_eq_some_iff.mpr ⟨hs, rfl⟩
  simp [hget, Bool.and_comm]

/-- An identifier is listed under the key of its symbol, once, and under no other. -/
lemma count_ids (h : t.Lists symbols) {m : IdIndex} {key : Symbol → String}
    (hm : m.Follows key symbols) {s : Symbol} (hs : s ∈ symbols) (k : String) :
    (m.ids k).count s.id = if k = key s then 1 else 0 := by
  have hnodup : (m.ids k).Nodup := by
    rw [hm k]
    exact (List.filter_sublist.map _).nodup h.nodup_ids
  have hmem : s.id ∈ m.ids k ↔ k = key s := by
    rw [hm k, List.mem_map]
    constructor
    · rintro ⟨s', hs', hid⟩
      rw [List.mem_filter, beq_iff_eq] at hs'
      rw [← h.eq_of_id_eq hs'.1 hs hid, hs'.2]
    · intro hk
      exact ⟨s, by simp [hs, hk], rfl⟩
  simp only [hnodup.count, hmem]

/-- The files of a table are those of the symbols, each once. -/
lemma perm_files (h : t.Lists symbols) : t.files.Perm (symbols.map (·.file)).dedup := by
  rw [files, List.perm_ext_iff_of_nodup ExtTreeMap.nodup_keys (List.nodup_dedup _)]
  intro file
  have hkey : file ∈ t.byFile.keys ↔ t.byFile.ids file ≠ [] := by
    rw [ExtTreeMap.mem_keys, ExtTreeMap.mem_iff_isSome_getElem?, IdIndex.ids]
    have hne := h.holds.consistent.byFile.ne_nil file
    cases hids : t.byFile[file]? with
    | none => simp
    | some ids => simpa [hids] using hne
  rw [hkey, h.byFile file, List.mem_dedup, List.mem_map, ne_eq, List.map_eq_nil_iff,
    List.filter_eq_nil_iff]
  simp

/-- The numbers of symbols of all kinds together make their number. -/
lemma sum_length_filter_kind (symbols : List Symbol) :
    (SymbolKind.all.map fun k => (symbols.filter fun s => s.kind == k).length).sum =
      symbols.length := by
  induction symbols with
  | nil => rfl
  | cons s symbols ih =>
    simp only [SymbolKind.all, List.map_cons, List.map_nil, List.sum_cons, List.sum_nil,
      List.filter_cons] at ih ⊢
    rw [List.length_cons, ← ih]
    cases s.kind <;> simp <;> omega

/-- A query by name gives the symbols of the name, sorted by place. -/
lemma sorts_findByName (h : t.Lists symbols) (name : String) :
    Symbol.Sorts Symbol.compareByPlace (symbols.filter (·.name == name)) (t.findByName name) := by
  rw [findByName, h.getAll_byName name]
  exact Symbol.sorts_sortBy _ _

/-- A query by file gives the symbols of the file, sorted by line. -/
lemma sorts_inFile (h : t.Lists symbols) (file : String) :
    Symbol.Sorts Symbol.compareByLine (symbols.filter (·.file == file)) (t.inFile file) := by
  rw [inFile, h.getAll_byFile file]
  exact Symbol.sorts_sortBy _ _

/-- The symbols of a kind are those of the list. -/
lemma perm_filter_kind (h : t.Lists symbols) (kind : SymbolKind) :
    (t.symbols.values.filter (·.kind == kind)).Perm (symbols.filter (·.kind == kind)) :=
  h.perm_values.filter _

/-- A query by kind gives the first of the symbols of the kind, sorted by name, or all of them. -/
lemma exists_listByKind (h : t.Lists symbols) (kind : SymbolKind) :
    ∃ sorted : List Symbol, sorted.Perm (symbols.filter (·.kind == kind)) ∧
      sorted.Pairwise (fun a b => (Symbol.compareByName a b).isLE = true) ∧
      ∀ limit, t.listByKind kind limit = if limit = 0 then sorted else sorted.take limit := by
  have hsorts := Symbol.sorts_sortBy Symbol.compareByName
    (t.symbols.values.filter (·.kind == kind))
  exact ⟨_, hsorts.perm.trans (h.perm_filter_kind kind), hsorts.ordered, fun limit => rfl⟩

/-- The number that is given for a kind is that of its symbols. -/
lemma eq_of_mem_countByKind (h : t.Lists symbols) {kind : SymbolKind} {count : Nat}
    (hcount : (kind, count) ∈ t.countByKind) :
    count = (symbols.filter (·.kind == kind)).length := by
  obtain ⟨k, -, hk⟩ := List.mem_map.mp hcount
  obtain ⟨rfl, rfl⟩ := Prod.mk.inj hk
  exact (h.perm_filter_kind k).length_eq

/-- The numbers that are given for the kinds make the number of all symbols. -/
lemma sum_countByKind (h : t.Lists symbols) : (t.countByKind.map (·.2)).sum = t.size := by
  rw [h.size_eq, ← sum_length_filter_kind symbols, countByKind, List.map_map]
  congr 1
  refine List.map_congr_left fun kind _ => ?_
  exact (h.perm_filter_kind kind).length_eq

/-- The number of files is that of the distinct files of the symbols. -/
lemma fileCount_eq (h : t.Lists symbols) :
    t.fileCount = (symbols.map (·.file)).dedup.length := by
  rw [← h.perm_files.length_eq, files, ExtTreeMap.length_keys]
  rfl

end Lists

end SymbolTable

/-! ### Histories of edits -/

/-- An edit of a symbol table. -/
inductive TableEdit where
  | insert (s : Symbol)
  | remove (id : SymbolId)
  | removeFile (file : String)
  | clear

namespace TableEdit

/-- What an edit does to a table. -/
def onTable (t : SymbolTable) : TableEdit → SymbolTable
  | .insert s => t.insert s
  | .remove id => (t.remove id).2
  | .removeFile file => (t.removeFile file).2
  | .clear => .empty

/-- What an edit does to a list of symbols: a new symbol comes to the end, and the one with its
identifier goes, wherever it stands. -/
def onSymbols (symbols : List Symbol) : TableEdit → List Symbol
  | .insert s => symbols.filter (·.id != s.id) ++ [s]
  | .remove id => symbols.filter (·.id != id)
  | .removeFile file => symbols.filter (·.file != file)
  | .clear => []

variable {t : SymbolTable} {symbols : List Symbol}

/-- One edit keeps table and list together. -/
lemma lists_onTable (h : t.Lists symbols) (x : TableEdit) :
    (onTable t x).Lists (onSymbols symbols x) := by
  cases x with
  | insert s => exact h.insert s
  | remove id => exact h.remove id
  | removeFile file => exact h.removeFile file
  | clear => exact SymbolTable.Lists.empty

/-- Table and list stay together along every history. -/
lemma lists_foldl (h : t.Lists symbols) (edits : List TableEdit) :
    (edits.foldl onTable t).Lists (edits.foldl onSymbols symbols) := by
  induction edits generalizing t symbols with
  | nil => exact h
  | cons x edits ih =>
    apply ih
    exact lists_onTable h x

/-- After every history of edits the three maps of a table agree on a list of symbols in the order
in which they were put in: each stands under its identifier, and the indexes name it once under its
name and once under its file and keep no empty list.  All answers are those that the list gives: a
query finds each symbol that it asks for exactly once, sorted as it promises, ties in the order of
the list; a file is taken out whole; and the numbers are those of the symbols, of the symbols of
each kind and of the distinct files. -/
theorem answers_of_edits (edits : List TableEdit) :
    let t := edits.foldl onTable .empty
    let stored := edits.foldl onSymbols []
    (t.Consistent ∧ (stored.map (·.id)).Nodup ∧
      (∀ id s, t.get? id = some s ↔ s ∈ stored ∧ s.id = id) ∧
      ∀ s ∈ stored, ∀ key,
        (t.byName.ids key).count s.id = (if key = s.name then 1 else 0) ∧
        (t.byFile.ids key).count s.id = if key = s.file then 1 else 0) ∧
    (∀ name, (stored.filter (·.name == name)).map (·.id) = t.byName.ids name ∧
      Symbol.Sorts Symbol.compareByPlace (stored.filter (·.name == name)) (t.findByName name) ∧
      t.functionIds name =
        (stored.filter fun s => s.name == name && s.isFunction).map (·.id)) ∧
    (∀ file, (stored.filter (·.file == file)).map (·.id) = t.byFile.ids file ∧
      Symbol.Sorts Symbol.compareByLine (stored.filter (·.file == file)) (t.inFile file) ∧
      (t.removeFile file).1 = stored.filter (·.file == file)) ∧
    (∀ kind, ∃ sorted : List Symbol, sorted.Perm (stored.filter (·.kind == kind)) ∧
      sorted.Pairwise (fun a b => (Symbol.compareByName a b).isLE = true) ∧
      ∀ limit, t.listByKind kind limit = if limit = 0 then sorted else sorted.take limit) ∧
    t.countByKind.map (·.1) = SymbolKind.all ∧
    (∀ kind count, (kind, count) ∈ t.countByKind →
      count = (stored.filter (·.kind == kind)).length) ∧
    (t.countByKind.map (·.2)).sum = t.size ∧ t.size = stored.length ∧
    t.fileCount = (stored.map (·.file)).dedup.length := by
  intro t stored
  have h : t.Lists stored := lists_foldl SymbolTable.Lists.empty edits
  refine ⟨⟨h.holds.consistent, h.nodup_ids, fun id s => h.get?_eq_some_iff, ?_⟩, ?_, ?_,
    h.exists_listByKind, ?_, fun kind count => h.eq_of_mem_countByKind, h.sum_countByKind,
    h.size_eq, h.fileCount_eq⟩
  · intro s hs key
    exact ⟨h.count_ids h.byName hs key, h.count_ids h.byFile hs key⟩
  · intro name
    exact ⟨(h.byName name).symm, h.sorts_findByName name, h.functionIds_eq name⟩
  · intro file
    exact ⟨(h.byFile file).symm, h.sorts_inFile file, h.getAll_byFile file⟩
  · rw [SymbolTable.countByKind, List.map_map]
    exact List.map_id _

end TableEdit

end CodeAtlas
