import CodeAtlas.Proofs.Extraction.WellFormed
import CodeAtlas.Proofs.Index.Incremental

/-!
# A merge speaks of the files that it is made from

What syntax trees give speaks of the file that was read.  What supplementary tools give is taken as
it comes, so they have to be trusted to report symbols of the given files alone
(`SymbolSource.KeepsTo`).  Then all symbols and includes of a merge are those of its files, and its
calls come from its own symbols (`FileTree.speaksOf_of_merge`).
-/

namespace CodeAtlas

/-- A tool reports symbols of the files that it is given, and of no others. -/
def SymbolSource.KeepsTo (source : SymbolSource) (root : String) : Prop :=
  ∀ files symbols, source.extract root files = .ok symbols →
    ∀ s ∈ symbols, ∃ path ∈ files, s.file = Path.relative root path

/-- A merge of some files: its symbols and includes are those of the files, and its calls come from
its symbols. -/
structure MergedExtraction.SpeaksOf (merged : MergedExtraction) (files : List String) : Prop where
  file_mem : ∀ s ∈ merged.extraction.symbols, s.file ∈ files
  include_mem : ∀ i ∈ merged.extraction.includes, i.file ∈ files
  caller_mem : ∀ r ∈ merged.extraction.calls, ∃ s ∈ merged.extraction.symbols, s.id = r.caller

namespace MergedExtraction

/-- Symbols that were not seen are symbols of the list. -/
lemma mem_of_mem_unseen {seen : Keys} {symbols : List Symbol} {s : Symbol}
    (hs : s ∈ (unseen seen symbols).1) : s ∈ symbols := by
  induction symbols generalizing seen with
  | nil => cases hs
  | cons s' symbols ih =>
    unfold unseen at hs
    split_ifs at hs with hseen
    · exact List.mem_cons_of_mem _ (ih hs)
    · rcases List.mem_cons.mp hs with rfl | hs
      · exact List.mem_cons_self
      · exact List.mem_cons_of_mem _ (ih hs)

/-- What supplements add was reported by one of the tools. -/
lemma exists_of_mem_supplements {supplements : List (Origin × List Symbol)}
    {state : List Symbol × List Origin × Keys} {s : Symbol}
    (hs : s ∈ (supplements.foldl (fun state (origin, symbols) =>
      supplement state origin symbols) state).1) :
    s ∈ state.1 ∨ ∃ p ∈ supplements, s ∈ p.2 := by
  induction supplements generalizing state with
  | nil => exact Or.inl hs
  | cons p supplements ih =>
    rcases ih hs with hs | ⟨q, hq, hs⟩
    · rcases List.mem_append.mp hs with hs | hs
      · exact Or.inl hs
      · exact Or.inr ⟨p, List.mem_cons_self, mem_of_mem_unseen hs⟩
    · exact Or.inr ⟨q, List.mem_cons_of_mem _ hq, hs⟩

/-- Parts that speak of files of a list are put together to a merge that does. -/
lemma speaksOf_ofParts {files : List String} {extractions : List Extraction}
    {supplements : List (Origin × List Symbol)} (paths : List String)
    (hextractions : ∀ e ∈ extractions, ∃ file ∈ files, e.SpeaksOf file)
    (hsupplements : ∀ p ∈ supplements, ∀ s ∈ p.2, s.file ∈ files) :
    (ofParts paths extractions supplements).SpeaksOf files := by
  have hprimary := ProjectIndex.foldl_append extractions {}
  simp only [List.nil_append] at hprimary
  refine ⟨fun s hs => ?_, fun i hi => ?_, fun r hr => ?_⟩
  · simp only [ofParts, hprimary] at hs
    rcases List.mem_append.mp hs with hs | hs
    · obtain ⟨e, he, hs⟩ := List.mem_flatMap.mp hs
      obtain ⟨file, hfile, hspeaks⟩ := hextractions e he
      exact hspeaks.file_eq s hs ▸ hfile
    · rcases exists_of_mem_supplements hs with hs | ⟨p, hp, hs⟩
      · cases hs
      · exact hsupplements p hp s hs
  · simp only [ofParts, hprimary] at hi
    obtain ⟨e, he, hi⟩ := List.mem_flatMap.mp hi
    obtain ⟨file, hfile, hspeaks⟩ := hextractions e he
    exact hspeaks.include_file i hi ▸ hfile
  · simp only [ofParts, hprimary] at hr ⊢
    obtain ⟨e, he, hr⟩ := List.mem_flatMap.mp hr
    obtain ⟨file, hfile, hspeaks⟩ := hextractions e he
    obtain ⟨s, hs, -, hid⟩ := hspeaks.caller_mem r hr
    exact ⟨s, List.mem_append_left _ (List.mem_flatMap.mpr ⟨e, he, hs⟩), hid⟩

end MergedExtraction

namespace FileTree

variable {t : FileTree} {measurer : Measurer} {root : String}

/-- What is extracted from the file at a path speaks of it. -/
lemma speaksOf_of_extractFile {path : String} {e : Extraction}
    (h : t.extractFile measurer root path = .ok e) : e.SpeaksOf (Path.relative root path) := by
  rw [extractFile] at h
  cases hread : t.read path with
  | error cause =>
    rw [hread] at h
    cases h
  | ok content =>
    rw [hread] at h
    exact FileContent.speaksOf_of_extract h

/-- What is merged of files speaks of them, if the supplementary tools keep to them. -/
lemma speaksOf_of_merge {sources : List SymbolSource} {projectId : String} {paths : List String}
    {merged : MergedExtraction} (hsources : ∀ source ∈ sources, source.KeepsTo root)
    (h : t.merge measurer sources projectId root paths = .ok merged) :
    merged.SpeaksOf (paths.map (Path.relative root)) := by
  unfold merge at h
  simp only at h
  split_ifs at h
  rw [← Except.ok.inj h]
  apply MergedExtraction.speaksOf_ofParts
  · intro e he
    obtain ⟨path, hpath, hextract⟩ := List.mem_filterMap.mp he
    refine ⟨_, List.mem_map_of_mem hpath, ?_⟩
    cases hfile : t.extractFile measurer root path with
    | error cause =>
      rw [hfile] at hextract
      cases hextract
    | ok e' =>
      rw [hfile] at hextract
      exact Option.some.inj hextract ▸ speaksOf_of_extractFile hfile
  · intro p hp s hs
    obtain ⟨source, hsource, hreports⟩ := List.mem_filterMap.mp hp
    obtain ⟨symbols, hsymbols, rfl⟩ := Option.map_eq_some_iff.mp hreports
    have hextract : source.extract root paths = .ok symbols := by
      unfold SymbolSource.symbols? at hsymbols
      split_ifs at hsymbols
      split at hsymbols
      · rename_i found hfound
        rw [hfound, Option.some.inj hsymbols]
      · cases hsymbols
    obtain ⟨path, hpath, hfile⟩ := hsources source hsource paths symbols hextract s hs
    exact List.mem_map.mpr ⟨path, hpath, hfile.symm⟩

/-- Without supplementary tools a merge needs a file that can be extracted. -/
lemma exists_extractFile_of_merge {projectId : String} {paths : List String}
    {merged : MergedExtraction} (h : t.merge measurer [] projectId root paths = .ok merged) :
    ∃ path ∈ paths, ∃ e, t.extractFile measurer root path = .ok e := by
  by_contra hnone
  have hfailed :
      paths.filterMap (fun path => (t.extractFile measurer root path).toOption) = [] := by
    rw [List.filterMap_eq_nil_iff]
    intro path hpath
    cases hextract : t.extractFile measurer root path with
    | error cause => rfl
    | ok e => exact absurd ⟨path, hpath, e, hextract⟩ hnone
  unfold merge at h
  simp only [hfailed, List.filterMap_nil] at h
  cases h

end FileTree

end CodeAtlas
