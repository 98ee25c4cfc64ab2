import CodeAtlas.Proofs.Extraction.WellFormed
import CodeAtlas.Proofs.Index.Reload

/-!
# Forgetting a file

When a file is deleted, an index is to say nothing about it any more: none of its symbols is there,
none of its includes (`ProjectIndex.HasNothing`), and no edge touches a symbol that stood in it
before (`ProjectIndex.Forgets`).

That the edges go with the symbols is not obvious, because a graph that was read from disk may
mention identifiers that no symbol has.  What edits keep is weaker and true of every set of symbols
that are there to begin with: whichever of their identifiers an edge or a call mentions still stands
for a symbol (`ProjectIndex.Accounts`).  So edges that touch a symbol of the file go, at the latest,
when the symbol does.
-/

namespace CodeAtlas

open Std (ExtTreeMap)

namespace ProjectIndex

variable {x y : ProjectIndex} {file other : String} {e : Extraction} {ids : Set SymbolId}
  {projectId root : String} {merged : MergedExtraction}

/-- An identifier stands for a symbol. -/
def Knows (x : ProjectIndex) (id : SymbolId) : Prop := ∃ s ∈ x.symbols.toList, s.id = id

/-- No symbol stands in a file, and it includes nothing. -/
structure HasNothing (x : ProjectIndex) (file : String) : Prop where
  file_ne : ∀ s ∈ x.symbols.toList, s.file ≠ file
  includes : x.graph.includes[file]? = none

/-- Of a file that the index `x` knew, `y` has nothing, and no edge touches a symbol that stood in
it. -/
structure Forgets (x y : ProjectIndex) (file : String) : Prop extends y.HasNothing file where
  untouched : ∀ s ∈ x.symbols.toList, s.file = file →
    ∀ d ∈ y.graph.edges, d.caller ≠ s.id ∧ d.callee ≠ s.id

/-- Identifiers of a set stand for symbols wherever a call or an edge mentions them. -/
structure Accounts (x : ProjectIndex) (ids : Set SymbolId) : Prop where
  calls : ∀ r ∈ x.calls.toList, r.caller ∈ ids → x.Knows r.caller
  edges : ∀ d ∈ x.graph.edges, ∀ id ∈ ids, d.caller = id ∨ d.callee = id → x.Knows id

/-- The identifiers of symbols that are there are accounted for. -/
lemma accounts_of_knows (h : ∀ id ∈ ids, x.Knows id) : x.Accounts ids :=
  ⟨fun _ _ hid => h _ hid, fun _ _ id hid _ => h id hid⟩

/-- The identifiers of the symbols of a file. -/
abbrev idsOf (x : ProjectIndex) (file : String) : Set SymbolId :=
  {id | ∃ s ∈ x.symbols.toList, s.file = file ∧ s.id = id}

/-- In `y` no identifier that stood for a symbol of a file in `x` stands for one of another file. -/
def KeepsIds (x y : ProjectIndex) (file : String) : Prop :=
  ∀ s ∈ x.symbols.toList, s.file = file → ∀ s' ∈ y.symbols.toList, s'.id = s.id → s'.file = file

/-- An index that has nothing of a file has forgotten it, unless an identifier of one of its symbols
stands for a symbol of another file now. -/
lemma HasNothing.forgets (h : y.HasNothing file) (haccounts : y.Accounts (x.idsOf file))
    (hids : x.KeepsIds y file) : x.Forgets y file := by
  refine ⟨h, fun s hs hfile d hd => ?_⟩
  have hnone : ¬y.Knows s.id := by
    rintro ⟨s', hs', hid⟩
    exact h.file_ne s' hs' (hids s hs hfile s' hs' hid)
  have hmem : s.id ∈ x.idsOf file := ⟨s, hs, hfile, rfl⟩
  exact ⟨fun hcaller => hnone (haccounts.edges d hd s.id hmem (Or.inl hcaller)),
    fun hcallee => hnone (haccounts.edges d hd s.id hmem (Or.inr hcallee))⟩

/-! ### Retracting a file -/

/-- The symbols that stay are those of other files. -/
lemma mem_symbols_removeFile (hx : x.Sound) (s : Symbol) :
    s ∈ (x.removeFile file).2.symbols.toList ↔ s ∈ x.symbols.toList ∧ s.file ≠ file := by
  obtain ⟨S, hS, -⟩ := hx.symbols
  rw [hS.mem_toList]
  exact (hS.removeFile file).mem_toList s

/-- The includes that stay are those of other files. -/
lemma includes_removeFile (x : ProjectIndex) (file other : String) :
    (x.removeFile file).2.graph.includes[other]? =
      if file = other then none else x.graph.includes[other]? := by
  have hget : (x.removeFile file).2.graph.includes[other]? =
      (x.graph.includes.erase file)[other]? := by
    simp [ProjectIndex.removeFile, CallGraph.removeIncludes, CallGraph.includes_removeSymbols]
  rw [hget, ExtTreeMap.getElem?_erase]
  simp only [Std.LawfulEqCmp.compare_eq_iff_eq]

/-- A file that is retracted leaves nothing. -/
lemma hasNothing_removeFile (hx : x.Sound) (file : String) :
    (x.removeFile file).2.HasNothing file where
  file_ne s hs := ((mem_symbols_removeFile hx s).mp hs).2
  includes := by rw [includes_removeFile, if_pos rfl]

/-- Another file may be retracted without a trace of the first. -/
lemma hasNothing_removeFile_iff (hx : x.Sound) (hne : file ≠ other) :
    (x.removeFile file).2.HasNothing other ↔ x.HasNothing other := by
  constructor
  · intro h
    refine ⟨fun s hs hfile => ?_, ?_⟩
    · have hstays : s.file ≠ file := fun hsame => hne (hsame.symm.trans hfile)
      exact h.file_ne s ((mem_symbols_removeFile hx s).mpr ⟨hs, hstays⟩) hfile
    · have hincludes := h.includes
      rwa [includes_removeFile, if_neg hne] at hincludes
  · intro h
    refine ⟨fun s hs => h.file_ne s ((mem_symbols_removeFile hx s).mp hs).1, ?_⟩
    rw [includes_removeFile, if_neg hne, h.includes]

/-- Retracting a file takes the edges of its symbols out with them. -/
lemma Accounts.removeFile (h : x.Accounts ids) (hx : x.Sound) (file : String) :
    (x.removeFile file).2.Accounts ids := by
  obtain ⟨S, hS, -⟩ := hx.symbols
  obtain ⟨R, hR, -⟩ := hx.calls
  obtain ⟨E, hE⟩ := hx.edges
  have hcalls := hR.removeCallers ((x.symbols.removeFile file).1.map (·.id))
  have hedges := (hE.removeSymbols ((x.symbols.removeFile file).1.map (·.id))).removeIncludes file
  -- A symbol whose identifier was not taken out stands in another file, so it stays.
  have hstays : ∀ id, id ∉ (x.symbols.removeFile file).1.map (·.id) → x.Knows id →
      (x.removeFile file).2.Knows id := by
    rintro id hout ⟨s, hs, rfl⟩
    refine ⟨s, (mem_symbols_removeFile hx s).mpr ⟨hs, fun hfile => hout ?_⟩, rfl⟩
    exact List.mem_map_of_mem (hS.mem_removeFile.mpr ⟨(hS.mem_toList s).mp hs, hfile⟩)
  refine ⟨fun r hr hid => ?_, fun d hd id hid htouch => ?_⟩
  · obtain ⟨hr, hout⟩ := (hcalls.mem_toList r).mp hr
    exact hstays _ hout (h.calls r ((hR.mem_toList r).mpr hr) hid)
  · obtain ⟨hd, hcaller, hcallee⟩ := (hedges.mem_edges d).mp hd
    have hknown := h.edges d ((hE.mem_edges d).mpr hd) id hid htouch
    rcases htouch with rfl | rfl
    · exact hstays _ hcaller hknown
    · exact hstays _ hcallee hknown

/-! ### Putting in a file -/

/-- The symbols after a file was put in are its own and those from before. -/
lemma mem_or_mem_of_insertFile (hx : x.Sound) {s : Symbol}
    (hs : s ∈ (x.insertFile file e).symbols.toList) : s ∈ e.symbols ∨ s ∈ x.symbols.toList := by
  obtain ⟨S, hS, -⟩ := hx.symbols
  exact hS.consistent.mem_or_mem_of_insertAll hs

/-- The identifiers that stand for a symbol after a file was put in. -/
lemma knows_insertFile_iff (hx : x.Sound) {id : SymbolId} :
    (x.insertFile file e).Knows id ↔ (∃ s ∈ e.symbols, s.id = id) ∨ x.Knows id := by
  obtain ⟨S, hS, -⟩ := hx.symbols
  exact hS.consistent.exists_mem_toList_insertAll_iff

/-- A file that is put in leaves the includes of other files alone. -/
lemma includes_insertFile_of_ne (x : ProjectIndex) (he : e.SpeaksOf file) (hne : file ≠ other) :
    (x.insertFile file e).graph.includes[other]? = x.graph.includes[other]? := by
  have hnone : e.includes.filter (fun i => i.file == other) = [] := by
    rw [List.filter_eq_nil_iff]
    intro i hi
    simpa [he.include_file i hi] using hne
  rw [includes_insertFile, CallGraph.includes_addIncludes, hnone, List.foldl_nil]

/-- A file that is put in says nothing about another one. -/
lemma HasNothing.insertFile (h : x.HasNothing other) (hx : x.Sound) (he : e.SpeaksOf file)
    (hne : file ≠ other) : (x.insertFile file e).HasNothing other := by
  refine ⟨fun s hs => ?_, ?_⟩
  · rcases mem_or_mem_of_insertFile hx hs with hs | hs
    · rw [he.file_eq s hs]
      exact hne
    · exact h.file_ne s hs
  · rw [includes_insertFile_of_ne x he hne, h.includes]

/-- A file that is put in hides no symbol of another one but by taking its identifier. -/
lemma HasNothing.of_insertFile (h : (x.insertFile file e).HasNothing other) (hx : x.Sound)
    (he : e.SpeaksOf file) (hne : file ≠ other) (hids : x.KeepsIds (x.insertFile file e) other) :
    x.HasNothing other := by
  refine ⟨fun s hs hfile => ?_, ?_⟩
  · have hknown : (x.insertFile file e).Knows s.id :=
      (knows_insertFile_iff hx).mpr (Or.inr ⟨s, hs, rfl⟩)
    obtain ⟨s', hs', hid⟩ := hknown
    exact h.file_ne s' hs' (hids s hs hfile s' hs' hid)
  · rw [← includes_insertFile_of_ne x he hne, h.includes]

/-- The calls of a file that is put in come from its own symbols, and its edges lead to symbols that
are there. -/
lemma Accounts.insertFile (h : x.Accounts ids) (hx : x.Sound) (he : e.SpeaksOf file) :
    (x.insertFile file e).Accounts ids := by
  obtain ⟨S, hS, -⟩ := hx.symbols
  obtain ⟨R, hR, -⟩ := hx.calls
  obtain ⟨E, hE⟩ := hx.edges
  obtain ⟨T, hT, -⟩ := hS.exists_insertAll hS e.symbols
  obtain ⟨hcalls, hedges⟩ := holds_insertFile file hE hR hT
  have hown : ∀ r ∈ e.calls, (x.insertFile file e).Knows r.caller := by
    intro r hr
    obtain ⟨s, hs, -, hid⟩ := he.caller_mem r hr
    exact (knows_insertFile_iff hx).mpr (Or.inl ⟨s, hs, hid⟩)
  have hold : ∀ {id}, x.Knows id → (x.insertFile file e).Knows id := fun hknown =>
    (knows_insertFile_iff hx).mpr (Or.inr hknown)
  have hcaller : ∀ r, r ∈ R ∨ r ∈ e.calls → r.caller ∈ ids →
      (x.insertFile file e).Knows r.caller := by
    rintro r (hr | hr) hid
    · exact hold (h.calls r ((hR.mem_toList r).mpr hr) hid)
    · exact hown r hr
  refine ⟨fun r hr hid => hcaller r ((hcalls.mem_toList r).mp hr) hid, fun d hd id hid htouch => ?_⟩
  rcases (hedges.mem_edges d).mp hd with (hd | ⟨r, hr, hrcaller, s, hs, -, -, hscallee⟩) |
    ⟨s, hs, hscallee, hr⟩
  · exact hold (h.edges d ((hE.mem_edges d).mpr hd) id hid htouch)
  · rcases htouch with rfl | rfl
    · exact hrcaller ▸ hown r hr
    · exact ⟨s, (hT.mem_toList s).mpr hs, hscallee⟩
  · rcases htouch with rfl | rfl
    · exact hcaller _ hr hid
    · have hmem := (List.mem_filter.mp hs).1
      exact (knows_insertFile_iff hx).mpr (Or.inl ⟨s, hmem, hscallee⟩)

/-! ### Sequences of edits -/

variable {edits : List FileEdit}

/-- An edit keeps accounts. -/
lemma Accounts.onIndex (h : x.Accounts ids) (hx : x.Sound) {edit : FileEdit}
    (hedit : ∀ g e, edit = .replace g e → e.SpeaksOf g) : (edit.onIndex x).Accounts ids := by
  cases edit with
  | replace g e => exact (h.removeFile hx g).insertFile (Agrees.removeFile hx g) (hedit g e rfl)
  | remove g => exact h.removeFile hx g

/-- Edits keep accounts. -/
lemma Accounts.foldl_onIndex (h : x.Accounts ids) (hx : x.Sound)
    (hedits : ∀ g e, .replace g e ∈ edits → e.SpeaksOf g) :
    (edits.foldl FileEdit.onIndex x).Accounts ids := by
  induction edits generalizing x with
  | nil => exact h
  | cons edit edits ih =>
    have hfirst := h.onIndex hx fun g e heq => hedits g e (heq ▸ List.mem_cons_self)
    exact ih hfirst (Agrees.onIndex hx edit) fun g e he => hedits g e (List.mem_cons_of_mem _ he)

/-- An edit of another file says nothing about a file, and the removal of the file itself leaves
nothing. -/
lemma HasNothing.onIndex (hx : x.Sound) {edit : FileEdit}
    (hedit : ∀ g e, edit = .replace g e → e.SpeaksOf g ∧ g ≠ file)
    (h : x.HasNothing file ∨ edit = .remove file) : (edit.onIndex x).HasNothing file := by
  cases edit with
  | replace g e =>
    obtain ⟨hspeaks, hne⟩ := hedit g e rfl
    have h : x.HasNothing file := h.resolve_right (by simp)
    have hremoved := (hasNothing_removeFile_iff hx hne).mpr h
    exact hremoved.insertFile (Agrees.removeFile hx g) hspeaks hne
  | remove g =>
    by_cases hsame : g = file
    · exact hsame ▸ hasNothing_removeFile hx g
    · have h : x.HasNothing file := h.resolve_right fun heq => hsame (FileEdit.remove.inj heq)
      exact (hasNothing_removeFile_iff hx hsame).mpr h

/-- Once a file was removed, edits of other files do not bring it back. -/
lemma hasNothing_foldl_onIndex (hx : x.Sound)
    (hedits : ∀ g e, .replace g e ∈ edits → e.SpeaksOf g ∧ g ≠ file)
    (h : x.HasNothing file ∨ .remove file ∈ edits) :
    (edits.foldl FileEdit.onIndex x).HasNothing file := by
  induction edits generalizing x with
  | nil => exact h.resolve_right (by simp)
  | cons edit edits ih =>
    refine ih (Agrees.onIndex hx edit) (fun g e he => hedits g e (List.mem_cons_of_mem _ he)) ?_
    have hedit : ∀ g e, edit = .replace g e → e.SpeaksOf g ∧ g ≠ file := fun g e heq =>
      hedits g e (heq ▸ List.mem_cons_self)
    rcases h with h | h
    · exact Or.inl (.onIndex hx hedit (Or.inl h))
    · rcases List.mem_cons.mp h with h | h
      · exact Or.inl (.onIndex hx hedit (Or.inr h.symm))
      · exact Or.inr h

/-- Removals of other files leave what there is of a file. -/
lemma foldl_remove_iff (hx : x.Sound) {others : List String} (hne : file ∉ others) :
    ((others.map FileEdit.remove).foldl FileEdit.onIndex x).Sound ∧
    (∀ s, s.file = file →
      (s ∈ ((others.map FileEdit.remove).foldl FileEdit.onIndex x).symbols.toList ↔
        s ∈ x.symbols.toList)) ∧
    (((others.map FileEdit.remove).foldl FileEdit.onIndex x).HasNothing file ↔
      x.HasNothing file) := by
  induction others generalizing x with
  | nil => exact ⟨hx, fun s _ => Iff.rfl, Iff.rfl⟩
  | cons g others ih =>
    rw [List.mem_cons, not_or] at hne
    obtain ⟨hsound, hsymbols, hiff⟩ := ih (x := (x.removeFile g).2) (Agrees.removeFile hx g) hne.2
    refine ⟨hsound, fun s hfile => (hsymbols s hfile).trans ?_,
      hiff.trans (hasNothing_removeFile_iff hx (Ne.symm hne.1))⟩
    rw [mem_symbols_removeFile hx, and_iff_left]
    exact fun hsame => hne.1 (hfile.symm.trans hsame)

/-! ### Indexes that are made at once -/

/-- An index that is made at once has nothing of a file that its extraction does not speak of. -/
lemma hasNothing_ofMerged (hsymbols : ∀ s ∈ merged.extraction.symbols, s.file ≠ file)
    (hincludes : ∀ i ∈ merged.extraction.includes, i.file ≠ file) :
    (ofMerged projectId root merged).HasNothing file where
  file_ne s hs := by
    rcases SymbolTable.consistent_empty.mem_or_mem_of_insertAll hs with hs | hs
    · exact hsymbols s hs
    · rw [SymbolTable.Holds.empty.mem_toList] at hs
      exact absurd hs (Set.notMem_empty s)
  includes := by
    have hnone : merged.extraction.includes.filter (fun i => i.file == file) = [] := by
      rw [List.filter_eq_nil_iff]
      intro i hi
      simpa using hincludes i hi
    rw [ofMerged, CallGraph.includes_addIncludes, CallGraph.includes_addEdges, hnone]
    simp [CallGraph.empty]

/-- An index that is made at once accounts for all identifiers, if all calls come from its symbols.
-/
lemma accounts_ofMerged
    (hcalls : ∀ r ∈ merged.extraction.calls, ∃ s ∈ merged.extraction.symbols, s.id = r.caller)
    (ids : Set SymbolId) : (ofMerged projectId root merged).Accounts ids := by
  have hknows : ∀ {id}, (∃ s ∈ merged.extraction.symbols, s.id = id) →
      (ofMerged projectId root merged).Knows id := fun hs =>
    SymbolTable.consistent_empty.exists_mem_toList_insertAll_iff.mpr (Or.inl hs)
  have hreferences : (ofMerged projectId root merged).calls.Holds
      {r | r ∈ (∅ : Set CallReference) ∨ r ∈ merged.extraction.calls} :=
    CallTable.Holds.empty.insertAll merged.extraction.calls
  have hedges := (CallGraph.holds_empty.addEdges
    ((CallTargets.ofSymbols merged.extraction.symbols).resolve merged.extraction.calls)).addIncludes
      merged.extraction.includes
  refine ⟨fun r hr _ => ?_, fun d hd id _ htouch => ?_⟩
  · have hr := ((hreferences.mem_toList r).mp hr).resolve_left (Set.notMem_empty r)
    exact hknows (hcalls r hr)
  · have hd := ((hedges.mem_edges d).mp hd).resolve_left (Set.notMem_empty d)
    obtain ⟨r, hr, hcaller, hcallee⟩ := (CallTargets.mem_resolve _ _ d).mp hd
    rcases htouch with rfl | rfl
    · exact hcaller ▸ hknows (hcalls r hr)
    · obtain ⟨s, hs, -, -, hid⟩ := (CallTargets.mem_of_ofSymbols _ _ _).mp hcallee
      exact hknows ⟨s, hs, hid⟩

end ProjectIndex

end CodeAtlas
