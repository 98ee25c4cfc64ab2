import CodeAtlas.Proofs.Index.SymbolTable
import CodeAtlas.Search.Document

/-!
# Stores that reflect a symbol table

A store in memory *reflects* a symbol table if it keeps the document of each of its symbols and
nothing else (`DocumentStore.Reflects`).  It goes on doing so if a file is taken out of both, or put
into both, and it does so again once the documents of the project were cleared and those of a table
were put in.  For the last of these the store need only keep documents of one project, whatever they
are (`DocumentStore.BelongsTo`), so it repairs a store that an earlier step has left behind.
-/

namespace CodeAtlas

open Std (ExtTreeMap)

namespace SearchDocument

/-- A document stands under the identifier of its symbol. -/
@[simp] lemma symbolId_ofSymbol (projectId : String) (s : Symbol) :
    (ofSymbol projectId s).symbolId = s.id := rfl

/-- A document belongs to the project for which it was made. -/
@[simp] lemma projectId_ofSymbol (projectId : String) (s : Symbol) :
    (ofSymbol projectId s).projectId = projectId := rfl

/-- A document belongs to the file of its symbol. -/
@[simp] lemma file_ofSymbol (projectId : String) (s : Symbol) :
    (ofSymbol projectId s).file = s.file := rfl

end SearchDocument

namespace DocumentStore

variable {store : DocumentStore} {documents : ExtTreeMap SymbolId SearchDocument}
  {projectId : String} {t : SymbolTable} {ss : List Symbol} {file : String}

/-- A store in memory that keeps the documents of the symbols of a table and nothing else. -/
def Reflects (store : DocumentStore) (projectId : String) (t : SymbolTable) : Prop :=
  ∃ documents, store = .memory documents ∧
    ∀ id : SymbolId, documents[id]? = (t.get? id).map (SearchDocument.ofSymbol projectId)

/-- A store in memory that keeps documents of one project alone. -/
def BelongsTo (store : DocumentStore) (projectId : String) : Prop :=
  ∃ documents, store = .memory documents ∧
    ∀ (id : SymbolId) (d : SearchDocument), documents[id]? = some d → d.projectId = projectId

/-- The documents of the symbols of one table are those of one project. -/
lemma Reflects.belongsTo (h : store.Reflects projectId t) : store.BelongsTo projectId := by
  obtain ⟨documents, hstore, hdocuments⟩ := h
  refine ⟨documents, hstore, ?_⟩
  intro id d hd
  rw [hdocuments id] at hd
  obtain ⟨s, -, rfl⟩ := Option.map_eq_some_iff.mp hd
  rfl

/-! ### Putting documents in -/

/-- Under the identifier of a symbol that was put in stands its document, and every other document
stays. -/
lemma getElem?_foldl_insert (ht : t.Consistent) (hss : ∀ s ∈ ss, t.get? s.id = some s)
    (id : SymbolId) :
    ((ss.map (SearchDocument.ofSymbol projectId)).foldl (fun m d => m.insert d.symbolId d)
      documents)[id]? =
      (((t.get? id).filter (· ∈ ss)).map (SearchDocument.ofSymbol projectId)).or
        documents[id]? := by
  induction ss generalizing documents with
  | nil => simp
  | cons s ss ih =>
    have hs : t.get? s.id = some s := hss s List.mem_cons_self
    rw [List.map_cons, List.foldl_cons, ih fun s hs => hss s (List.mem_cons_of_mem _ hs),
      ExtTreeMap.getElem?_insert]
    simp only [Std.LawfulEqCmp.compare_eq_iff_eq, SearchDocument.symbolId_ofSymbol]
    cases hget : t.get? id with
    | none =>
      have hne : s.id ≠ id := by
        rintro rfl
        rw [hs] at hget
        cases hget
      rw [if_neg hne]
      rfl
    | some s' =>
      obtain rfl : s'.id = id := ht.id_eq id s' hget
      by_cases heq : s' = s
      · by_cases hmem : s ∈ ss <;> simp [heq, hmem, Option.filter_some]
      · have hne : s.id ≠ s'.id := by
          intro hid
          rw [← hid, hs] at hget
          exact heq (Option.some.inj hget).symm
        simp [heq, hne, Option.filter_some]

/-- A store reflects a table once the documents of some of its symbols were put in, if it had those
of the others. -/
lemma reflects_upsert (ht : t.Consistent) (hss : ∀ s ∈ ss, t.get? s.id = some s)
    (hothers : ∀ id : SymbolId, (∀ s ∈ ss, s.id ≠ id) →
      documents[id]? = (t.get? id).map (SearchDocument.ofSymbol projectId)) :
    ((memory documents).upsert (ss.map (SearchDocument.ofSymbol projectId))).Reflects
      projectId t := by
  refine ⟨_, rfl, ?_⟩
  intro id
  rw [getElem?_foldl_insert ht hss]
  by_cases hin : ∃ s ∈ ss, s.id = id
  · obtain ⟨s, hs, rfl⟩ := hin
    rw [hss s hs]
    simp [hs]
  · have hnot : ∀ s ∈ ss, s.id ≠ id := fun s hs hid => hin ⟨s, hs, hid⟩
    have hfilter : (t.get? id).filter (· ∈ ss) = none := by
      rw [Option.filter_eq_none_iff]
      intro s hs hmem
      exact hnot s (of_decide_eq_true hmem) (ht.id_eq id s hs)
    rw [hfilter, hothers id hnot]
    rfl

/-! ### Files that are taken out and put in -/

/-- A file is taken out of the store and of the table. -/
lemma Reflects.deleteByFile (h : store.Reflects projectId t) (ht : t.Consistent) (file : String) :
    (store.deleteByFile projectId file).2.Reflects projectId (t.removeFile file).2 := by
  obtain ⟨documents, rfl, hdocuments⟩ := h
  refine ⟨_, rfl, ?_⟩
  intro id
  rw [ExtTreeMap.getElem?_filter', hdocuments, ht.get?_removeFile]
  cases t.get? id with
  | none => rfl
  | some s =>
    by_cases hfile : s.file = file
    · simp [hfile, Option.filter_some]
    · simp [hfile, Option.filter_some]

/-- The symbols of a file are put into the table, and then the documents of all that the table has
of the file into the store. -/
lemma Reflects.upsert_insertAll (h : store.Reflects projectId t) (ht : t.Consistent)
    (hss : ∀ s ∈ ss, s.file = file) :
    (store.upsert (((t.insertAll ss).inFile file).map
      (SearchDocument.ofSymbol projectId))).Reflects projectId (t.insertAll ss) := by
  obtain ⟨documents, rfl, hdocuments⟩ := h
  have hall := ht.insertAll ss
  have hmem : ∀ s, s ∈ (t.insertAll ss).inFile file ↔
      (t.insertAll ss).get? s.id = some s ∧ s.file = file := fun s => hall.mem_inFile
  apply reflects_upsert hall
  · intro s hs
    exact ((hmem s).mp hs).1
  · intro id hid
    -- Whatever stands under the identifier is not of the file, so it was not put in just now.
    have hnone : ss.reverse.find? (·.id == id) = none := by
      rw [List.find?_eq_none]
      intro s hs hsid
      have hsome : (ss.reverse.find? (·.id == id)).isSome := List.find?_isSome.mpr ⟨s, hs, hsid⟩
      obtain ⟨s', hs'⟩ := Option.isSome_iff_exists.mp hsome
      have hget : (t.insertAll ss).get? id = some s' := by
        rw [SymbolTable.get?_insertAll, hs', Option.some_or]
      have hid' := hall.id_eq id s' hget
      have hfile := hss s' (List.mem_reverse.mp (List.mem_of_find?_eq_some hs'))
      exact hid s' ((hmem s').mpr ⟨hid' ▸ hget, hfile⟩) hid'
    rw [hdocuments, SymbolTable.get?_insertAll, hnone, Option.none_or]

/-! ### Stores that are filled anew -/

/-- Taking out documents leaves those of the project. -/
lemma BelongsTo.deleteByFile (h : store.BelongsTo projectId) (file : String) :
    (store.deleteByFile projectId file).2.BelongsTo projectId := by
  obtain ⟨documents, rfl, hdocuments⟩ := h
  refine ⟨_, rfl, ?_⟩
  intro id d hd
  rw [ExtTreeMap.getElem?_filter', Option.filter_eq_some_iff] at hd
  exact hdocuments id d hd.1

/-- Documents of symbols of the project may be put in. -/
lemma BelongsTo.upsert (h : store.BelongsTo projectId) (ss : List Symbol) :
    (store.upsert (ss.map (SearchDocument.ofSymbol projectId))).BelongsTo projectId := by
  obtain ⟨documents, rfl, hdocuments⟩ := h
  refine ⟨_, rfl, ?_⟩
  induction ss generalizing documents with
  | nil => exact hdocuments
  | cons s ss ih =>
    apply ih
    intro id d hd
    rw [ExtTreeMap.getElem?_insert] at hd
    split_ifs at hd
    · rw [← Option.some.inj hd]
      rfl
    · exact hdocuments id d hd

/-- All documents of the project are taken out. -/
lemma BelongsTo.clear (h : store.BelongsTo projectId) :
    ∃ documents, store.clear projectId = .memory documents ∧
      ∀ id : SymbolId, documents[id]? = none := by
  obtain ⟨documents, rfl, hdocuments⟩ := h
  refine ⟨_, rfl, ?_⟩
  intro id
  rw [ExtTreeMap.getElem?_filter', Option.filter_eq_none_iff]
  intro d hd hkept
  rw [hdocuments id d hd, bne_self_eq_false] at hkept
  cases hkept

/-- A store of the project that is cleared and filled again reflects what it was filled with. -/
lemma BelongsTo.reflects_refill (h : store.BelongsTo projectId) (ht : t.Consistent) :
    ((store.clear projectId).upsert (t.toList.map (SearchDocument.ofSymbol projectId))).Reflects
      projectId t := by
  obtain ⟨documents, hclear, hnone⟩ := h.clear
  rw [hclear]
  apply reflects_upsert ht
  · intro s hs
    exact (ht.mem_toList s).mp hs
  · intro id hid
    cases hget : t.get? id with
    | none => exact hnone id
    | some s =>
      obtain rfl := ht.id_eq id s hget
      exact absurd rfl (hid s ((ht.mem_toList s).mpr hget))

end DocumentStore

end CodeAtlas
