import CodeAtlas.Proofs.OrderedMap
import CodeAtlas.Proofs.Search.Store
import Mathlib.Tactic.SplitIfs

/-!
# Projects that share a store

A store keeps the documents of all projects by the identifiers of their symbols, and an identifier
says nothing about the project.  Taking out documents looks at the project, so it leaves those of
the others alone and its answer counts those of the project.  Putting documents in looks at
identifiers only: a document of another project that has one of them is replaced.

What becomes of the documents of a project while another one works on the store is therefore exact:
they are those from before less the ones under identifiers that were put in
(`getElem?_ofProject_foldl`).  They are unchanged exactly if there are none of these, and two
projects with a file in common have some.
-/

namespace CodeAtlas

open Std (ExtTreeMap)

namespace DocumentStore

/-- The documents of a project. -/
def ofProject (store : DocumentStore) (projectId : String) : ExtTreeMap SymbolId SearchDocument :=
  store.documents.filter fun _ d => d.projectId == projectId

/-- The documents of a file of a project. -/
def ofFile (store : DocumentStore) (projectId file : String) : List SearchDocument :=
  (store.ofProject projectId).values.filter (·.file == file)

variable {store : DocumentStore} {p q : String}

/-- What a project has under an identifier. -/
lemma getElem?_ofProject (store : DocumentStore) (p : String) (id : SymbolId) :
    (store.ofProject p)[id]? = (store.get? id).filter (·.projectId == p) := by
  rw [ofProject, ExtTreeMap.getElem?_filter']
  rfl

/-- A project has a document under an identifier exactly if the store has one of the project
there. -/
lemma getElem?_ofProject_eq_none_iff {id : SymbolId} :
    (store.ofProject p)[id]? = none ↔ ∀ d, store.get? id = some d → d.projectId ≠ p := by
  rw [getElem?_ofProject, Option.filter_eq_none_iff]
  simp

/-! ### What a call does to the documents of another project -/

/-- Documents that are put in take the places of those with the same identifiers. -/
lemma getElem?_ofProject_upsert (hpq : p ≠ q) (store : DocumentStore) (ss : List Symbol)
    (id : SymbolId) :
    ((store.upsert (ss.map (SearchDocument.ofSymbol q))).ofProject p)[id]? =
      if id ∈ ss.map (·.id) then none else (store.ofProject p)[id]? := by
  cases store with
  | discard => simp [upsert, ofProject, documents]
  | memory ds =>
    induction ss generalizing ds with
    | nil => simp [upsert]
    | cons s ss ih =>
      have hfirst : ((memory (ds.insert s.id (SearchDocument.ofSymbol q s))).ofProject p)[id]? =
          if id = s.id then none else ((memory ds).ofProject p)[id]? := by
        rw [getElem?_ofProject, getElem?_ofProject, get?, documents, ExtTreeMap.getElem?_insert]
        simp only [Std.LawfulEqCmp.compare_eq_iff_eq]
        by_cases hid : id = s.id
        · simp [hid, Ne.symm hpq, Option.filter_some]
        · rw [if_neg (Ne.symm hid), if_neg hid]
          rfl
      have hrest := ih (ds.insert s.id (SearchDocument.ofSymbol q s))
      rw [hfirst] at hrest
      rw [upsert] at hrest ⊢
      rw [List.map_cons, List.map_cons, List.foldl_cons]
      refine hrest.trans ?_
      by_cases hlater : id ∈ ss.map (·.id)
      · rw [if_pos hlater, if_pos (List.mem_cons_of_mem _ hlater)]
      · rw [if_neg hlater]
        simp only [List.mem_cons, hlater, or_false]

/-- Taking out documents of other projects leaves those of a project. -/
lemma ofProject_filter {ds : ExtTreeMap SymbolId SearchDocument}
    {keeps : SymbolId → SearchDocument → Bool}
    (hkeeps : ∀ id d, d.projectId = p → keeps id d = true) :
    (memory (ds.filter keeps)).ofProject p = (memory ds).ofProject p := by
  refine ExtTreeMap.ext_getElem? fun id => ?_
  rw [getElem?_ofProject, getElem?_ofProject, get?, get?, documents, documents,
    ExtTreeMap.getElem?_filter']
  cases ds[id]? with
  | none => rfl
  | some d =>
    by_cases hd : d.projectId = p
    · simp [Option.filter_some, hkeeps id d hd]
    · by_cases hkept : keeps id d = true <;> simp [Option.filter_some, hd, hkept]

/-- Taking out the documents of a file of one project leaves those of another. -/
lemma ofProject_deleteByFile (hpq : p ≠ q) (store : DocumentStore) (file : String) :
    (store.deleteByFile q file).2.ofProject p = store.ofProject p := by
  cases store with
  | discard => rfl
  | memory ds =>
    apply ofProject_filter
    intro id d hd
    simp [hd, hpq]

/-- Taking out the documents of one project leaves those of another. -/
lemma ofProject_clear (hpq : p ≠ q) (store : DocumentStore) :
    (store.clear q).ofProject p = store.ofProject p := by
  cases store with
  | discard => rfl
  | memory ds =>
    apply ofProject_filter
    intro id d hd
    simp [hd, hpq]

/-- Taking out the documents of a file says how many they were. -/
lemma fst_deleteByFile (store : DocumentStore) (projectId file : String) :
    (store.deleteByFile projectId file).1 = (store.ofFile projectId file).length := by
  cases store with
  | discard =>
    have hnone : (∅ : ExtTreeMap SymbolId SearchDocument).toList = [] := rfl
    rw [ofFile, ofProject, documents, values_eq_map_toList, ExtTreeMap.toList_filter, hnone]
    rfl
  | memory ds =>
    have hsize : ∀ f : SymbolId → SearchDocument → Bool,
        (ds.filter f).size = (ds.toList.filter fun x => f x.1 x.2).length := fun f => by
      rw [← ExtTreeMap.length_toList, ExtTreeMap.toList_filter]
    have hfile : (memory ds).ofFile projectId file =
        (ds.toList.filter fun x => x.2.projectId == projectId && x.2.file == file).map (·.2) := by
      rw [ofFile, ofProject, documents, values_eq_map_toList, ExtTreeMap.toList_filter,
        List.filter_map, List.filter_filter]
      congr 1
      exact List.filter_congr fun x _ => Bool.and_comm _ _
    have hsplit := List.length_eq_length_filter_add (l := ds.toList)
      fun x => x.2.projectId == projectId && x.2.file == file
    rw [hfile, List.length_map, deleteByFile, hsize]
    simp only [← ExtTreeMap.length_toList]
    omega

end DocumentStore

/-! ### Another project at work -/

/-- What a project can ask of the store. -/
inductive ProjectCall where
  | upsert (symbols : List Symbol)
  | deleteByFile (file : String)
  | clear
  deriving DecidableEq, Repr

namespace ProjectCall

/-- What a call of a project does to a store. -/
def onStore (projectId : String) (store : DocumentStore) : ProjectCall → DocumentStore
  | .upsert ss => store.upsert (ss.map (SearchDocument.ofSymbol projectId))
  | .deleteByFile file => (store.deleteByFile projectId file).2
  | .clear => store.clear projectId

/-- The symbols whose documents a call puts in. -/
def upserted : ProjectCall → List Symbol
  | .upsert ss => ss
  | .deleteByFile _ => []
  | .clear => []

variable {p q : String} {store : DocumentStore}

/-- A call of one project takes from another what stands under the identifiers that it puts in. -/
lemma getElem?_ofProject_onStore (hpq : p ≠ q) (store : DocumentStore) (call : ProjectCall)
    (id : SymbolId) :
    ((call.onStore q store).ofProject p)[id]? =
      if id ∈ call.upserted.map (·.id) then none else (store.ofProject p)[id]? := by
  cases call with
  | upsert ss => exact store.getElem?_ofProject_upsert hpq ss id
  | deleteByFile file =>
    rw [onStore, store.ofProject_deleteByFile hpq]
    rfl
  | clear =>
    rw [onStore, store.ofProject_clear hpq]
    rfl

/-- Calls of one project take from another what stands under the identifiers that they put in. -/
lemma getElem?_ofProject_foldl (hpq : p ≠ q) (store : DocumentStore) (calls : List ProjectCall)
    (id : SymbolId) :
    ((calls.foldl (onStore q) store).ofProject p)[id]? =
      if id ∈ (calls.flatMap upserted).map (·.id) then none else (store.ofProject p)[id]? := by
  induction calls generalizing store with
  | nil => rfl
  | cons call calls ih =>
    rw [List.foldl_cons, ih, getElem?_ofProject_onStore hpq, List.flatMap_cons, List.map_append]
    by_cases hlater : id ∈ (calls.flatMap upserted).map (·.id)
    · rw [if_pos hlater, if_pos (List.mem_append_right _ hlater)]
    · rw [if_neg hlater]
      simp only [List.mem_append, hlater, or_false]

/-- While one project puts documents in, takes them out by file and clears, the documents of another
are unchanged exactly if none of them stands under an identifier that is put in; and what taking out
a file answers is the number of documents that the project at work has of the file. -/
theorem ofProject_foldl_eq_iff (hpq : p ≠ q) (store : DocumentStore) (calls : List ProjectCall) :
    ((calls.foldl (onStore q) store).ofProject p = store.ofProject p ↔
      ∀ call ∈ calls, ∀ s ∈ call.upserted, ∀ d, store.get? s.id = some d → d.projectId ≠ p) ∧
    ∀ before file after, calls = before ++ .deleteByFile file :: after →
      ((before.foldl (onStore q) store).deleteByFile q file).1 =
        ((before.foldl (onStore q) store).ofFile q file).length := by
  have hkept : (calls.foldl (onStore q) store).ofProject p = store.ofProject p ↔
      ∀ id ∈ (calls.flatMap upserted).map (·.id), (store.ofProject p)[id]? = none := by
    constructor
    · intro heq id hid
      rw [← heq, getElem?_ofProject_foldl hpq, if_pos hid]
    · intro hnone
      refine ExtTreeMap.ext_getElem? fun id => ?_
      rw [getElem?_ofProject_foldl hpq]
      split_ifs with hid
      · exact (hnone id hid).symm
      · rfl
  refine ⟨hkept.trans ?_, fun before file after _ => DocumentStore.fst_deleteByFile _ q file⟩
  simp only [DocumentStore.getElem?_ofProject_eq_none_iff, List.mem_map, List.mem_flatMap]
  constructor
  · intro hnone call hcall s hs
    exact hnone s.id ⟨s, ⟨call, hcall, hs⟩, rfl⟩
  · rintro hnone id ⟨s, ⟨call, hcall, hs⟩, rfl⟩
    exact hnone call hcall s hs

/-- A variable of a file `a.c`. -/
def variableWith (id : SymbolId) (name : String) : Symbol where
  id := id
  name := name
  file := "a.c"
  line := 1
  declaration := "int " ++ name ++ ";"
  origin := .syntaxTree
  detail := .global "int" false false

/-- A project keeps its document while another one with the same file puts one in under an
identifier of its own, takes it out again and clears. -/
theorem ofProject_foldl_kept :
    let store := (DocumentStore.memory ∅).upsert [.ofSymbol "first" (variableWith ⟨"1"⟩ "a")]
    let calls := [.upsert [variableWith ⟨"2"⟩ "b"], .deleteByFile "a.c", .clear]
    "first" ≠ "second" ∧
    (calls.foldl (onStore "second") store).ofProject "first" = store.ofProject "first" ∧
    (store.ofProject "first").size = 1 ∧
    (((calls.take 1).foldl (onStore "second") store).deleteByFile "second" "a.c").1 = 1 := by
  intro store calls
  have hpq : "first" ≠ "second" := by decide
  obtain ⟨hkept, hcount⟩ := ofProject_foldl_eq_iff hpq store calls
  refine ⟨hpq, hkept.mpr ?_, by decide +kernel, ?_⟩
  · decide +kernel
  · rw [hcount _ _ _ rfl]
    decide +kernel

/-- A project loses its document if another one has the same file: the identifier of a symbol does
not depend on the project. -/
theorem not_ofProject_foldl_eq :
    ¬ ∀ (p q : String) (store : DocumentStore) (calls : List ProjectCall), p ≠ q →
      (calls.foldl (onStore q) store).ofProject p = store.ofProject p := by
  intro h
  let s := variableWith (.derive ⟨.syntaxTree, .global, "a", "a.c", 1, 0⟩) "a"
  let store := (DocumentStore.memory ∅).upsert [.ofSymbol "first" s]
  have hput : (store.ofProject "first")[s.id]? = some (.ofSymbol "first" s) := by
    rw [DocumentStore.getElem?_ofProject, DocumentStore.get?]
    simp [store, DocumentStore.upsert, DocumentStore.documents, Option.filter_some]
  have hlost :
      (([.upsert [s]].foldl (onStore "second") store).ofProject "first")[s.id]? = none := by
    rw [getElem?_ofProject_foldl (by decide)]
    simp [upserted]
  rw [h "first" "second" store _ (by decide), hput] at hlost
  cases hlost

end ProjectCall

end CodeAtlas
