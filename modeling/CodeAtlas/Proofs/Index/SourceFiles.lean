import CodeAtlas.Index.Project
import Mathlib.Data.List.Nodup
import Mathlib.Data.Set.Basic
import Mathlib.Tactic.Lemma
import Mathlib.Tactic.SplitIfs
import Mathlib.Tactic.Tauto

/-!
# The source files of a project and what they say together

The extractions of a project's files, by path, are the plain description of the project from which
its index is made.  They say which symbols there are, which calls are recorded, and which edges
follow: one from the caller of a reference to each function of the name that is called, in whatever
file it stands.

An extraction is well formed if it speaks of its own file only.  Together the files are well formed
if moreover no identifier stands for symbols of two files; an identifier then stands for one symbol,
and taking out the identifiers of a file takes out exactly what the file says.
-/

namespace CodeAtlas

open Std (ExtTreeMap)

/-- An extraction that speaks of one file: its symbols stand in it and have distinct identifiers,
its calls come from its functions, and its includes are those of the file. -/
structure Extraction.WellFormed (e : Extraction) (file : String) : Prop where
  file_eq : ∀ s ∈ e.symbols, s.file = file
  nodup_ids : (e.symbols.map (·.id)).Nodup
  caller_mem : ∀ r ∈ e.calls, ∃ s ∈ e.symbols, s.isFunction = true ∧ s.id = r.caller
  include_file : ∀ i ∈ e.includes, i.file = file

/-- The extractions of a project's files, by path. -/
abbrev SourceFiles := ExtTreeMap String Extraction

namespace SourceFiles

variable {live : SourceFiles} {file : String} {e : Extraction}

/-- What one part of the extractions gives over all files. -/
def collect (live : SourceFiles) (part : Extraction → List α) : Set α :=
  {a | ∃ (file : String) (e : Extraction), live[file]? = some e ∧ a ∈ part e}

/-- The symbols of all files. -/
def symbols (live : SourceFiles) : Set Symbol := live.collect Extraction.symbols

/-- The calls of all files. -/
def calls (live : SourceFiles) : Set CallReference := live.collect Extraction.calls

/-- An edge leads from a recorded caller to a function of the name that is called. -/
def edges (live : SourceFiles) : Set CallEdge :=
  {e | ∃ r ∈ live.calls, r.caller = e.caller ∧
    ∃ s ∈ live.symbols, s.isFunction = true ∧ s.name = r.callee ∧ s.id = e.callee}

/-- Every file is well formed, and no identifier stands for symbols of two files. -/
structure WellFormed (live : SourceFiles) : Prop where
  extraction : ∀ (file : String) (e : Extraction), live[file]? = some e → e.WellFormed file
  file_eq_of_id_eq : ∀ s ∈ live.symbols, ∀ s' ∈ live.symbols, s.id = s'.id → s.file = s'.file

/-! ### Files that are put in and taken out -/

/-- A new file adds what its own extraction gives. -/
lemma mem_collect_insert (hnew : live[file]? = none) (part : Extraction → List α) (a : α) :
    a ∈ collect (live.insert file e) part ↔ a ∈ live.collect part ∨ a ∈ part e := by
  simp only [collect, Set.mem_ofPred_eq, ExtTreeMap.getElem?_insert,
    Std.LawfulEqCmp.compare_eq_iff_eq]
  constructor
  · rintro ⟨f, e', he', ha⟩
    split_ifs at he' with hf
    · exact Or.inr (Option.some.inj he' ▸ ha)
    · exact Or.inl ⟨f, e', he', ha⟩
  · rintro (⟨f, e', he', ha⟩ | ha)
    · refine ⟨f, e', ?_, ha⟩
      rwa [if_neg fun hf => by rw [← hf, hnew] at he'; cases he']
    · exact ⟨file, e, if_pos rfl, ha⟩

/-- The symbols after a new file was put in. -/
lemma mem_symbols_insert (hnew : live[file]? = none) (s : Symbol) :
    s ∈ symbols (live.insert file e) ↔ s ∈ live.symbols ∨ s ∈ e.symbols :=
  mem_collect_insert hnew _ s

/-- The calls after a new file was put in. -/
lemma mem_calls_insert (hnew : live[file]? = none) (r : CallReference) :
    r ∈ calls (live.insert file e) ↔ r ∈ live.calls ∨ r ∈ e.calls :=
  mem_collect_insert hnew _ r

/-- What stands in the files after one of them was taken out. -/
lemma getElem?_erase_eq_some_iff (live : SourceFiles) (file f : String) (e : Extraction) :
    (live.erase file)[f]? = some e ↔ f ≠ file ∧ live[f]? = some e := by
  simp only [ExtTreeMap.getElem?_erase, Std.LawfulEqCmp.compare_eq_iff_eq]
  split_ifs with hf
  · simp [hf]
  · simp [Ne.symm hf]

namespace WellFormed

/-- Files stay well formed when one of them is taken out. -/
lemma erase (h : live.WellFormed) (file : String) : WellFormed (live.erase file) := by
  have hsub : ∀ s, s ∈ symbols (live.erase file) → s ∈ live.symbols := by
    rintro s ⟨f, e, he, hs⟩
    exact ⟨f, e, ((getElem?_erase_eq_some_iff live file f e).mp he).2, hs⟩
  exact ⟨fun f e he => h.extraction f e ((getElem?_erase_eq_some_iff live file f e).mp he).2,
    fun s hs s' hs' => h.file_eq_of_id_eq s (hsub s hs) s' (hsub s' hs')⟩

/-- A symbol stands in the extraction of its own file. -/
lemma mem_of_mem_symbols (h : live.WellFormed) {s : Symbol} (hs : s ∈ live.symbols) :
    ∃ e, live[s.file]? = some e ∧ s ∈ e.symbols := by
  obtain ⟨f, e, he, hse⟩ := hs
  rw [(h.extraction f e he).file_eq s hse]
  exact ⟨e, he, hse⟩

/-- An identifier stands for one symbol. -/
lemma eq_of_id_eq (h : live.WellFormed) {s s' : Symbol} (hs : s ∈ live.symbols)
    (hs' : s' ∈ live.symbols) (hid : s.id = s'.id) : s = s' := by
  obtain ⟨e, he, hse⟩ := h.mem_of_mem_symbols hs
  obtain ⟨e', he', hse'⟩ := h.mem_of_mem_symbols hs'
  rw [h.file_eq_of_id_eq s hs s' hs' hid, he'] at he
  obtain rfl := Option.some.inj he
  exact List.inj_on_of_nodup_map (h.extraction _ _ he').nodup_ids hse hse' hid

/-- The symbols that stay when a file is taken out are those of other files. -/
lemma mem_symbols_erase (h : live.WellFormed) (file : String) (s : Symbol) :
    s ∈ symbols (live.erase file) ↔ s ∈ live.symbols ∧ s.file ≠ file := by
  constructor
  · rintro ⟨f, e, he, hs⟩
    obtain ⟨hf, he⟩ := (getElem?_erase_eq_some_iff live file f e).mp he
    exact ⟨⟨f, e, he, hs⟩, (h.extraction f e he).file_eq s hs ▸ hf⟩
  · rintro ⟨hs, hf⟩
    obtain ⟨e, he, hse⟩ := h.mem_of_mem_symbols hs
    exact ⟨s.file, e, (getElem?_erase_eq_some_iff live file s.file e).mpr ⟨hf, he⟩, hse⟩

/-- The caller of a recorded call is a function of the file in which the call stands. -/
lemma exists_caller (h : live.WellFormed) {r : CallReference} (hr : r ∈ live.calls) :
    ∃ s ∈ live.symbols, s.isFunction = true ∧ s.id = r.caller := by
  obtain ⟨f, e, he, hre⟩ := hr
  obtain ⟨s, hs, hfun, hid⟩ := (h.extraction f e he).caller_mem r hre
  exact ⟨s, ⟨f, e, he, hs⟩, hfun, hid⟩

/-- The calls that stay when a file is taken out are those whose caller stands in another file. -/
lemma mem_calls_erase (h : live.WellFormed) (file : String) (r : CallReference) :
    r ∈ calls (live.erase file) ↔
      r ∈ live.calls ∧ ∀ s ∈ live.symbols, s.file = file → s.id ≠ r.caller := by
  constructor
  · rintro ⟨f, e, he, hr⟩
    obtain ⟨hf, he⟩ := (getElem?_erase_eq_some_iff live file f e).mp he
    obtain ⟨s', hs', -, hid'⟩ := (h.extraction f e he).caller_mem r hr
    refine ⟨⟨f, e, he, hr⟩, fun s hs hfile hid => hf ?_⟩
    have hfile' : s'.file = f := (h.extraction f e he).file_eq s' hs'
    rw [← hfile, ← hfile']
    exact h.file_eq_of_id_eq s' ⟨f, e, he, hs'⟩ s hs (hid'.trans hid.symm)
  · rintro ⟨⟨f, e, he, hr⟩, hne⟩
    obtain ⟨s, hs, -, hid⟩ := (h.extraction f e he).caller_mem r hr
    refine ⟨f, e, (getElem?_erase_eq_some_iff live file f e).mpr ⟨fun hf => ?_, he⟩, hr⟩
    exact hne s ⟨f, e, he, hs⟩ (((h.extraction f e he).file_eq s hs).trans hf) hid

/-- The edges that stay when a file is taken out are those with both ends in other files. -/
lemma mem_edges_erase (h : live.WellFormed) (file : String) (e : CallEdge) :
    e ∈ edges (live.erase file) ↔
      e ∈ live.edges ∧
        ∀ s ∈ live.symbols, s.file = file → s.id ≠ e.caller ∧ s.id ≠ e.callee := by
  constructor
  · rintro ⟨r, hr, hcaller, s, hs, hfun, hname, hid⟩
    obtain ⟨hr, hne⟩ := (h.mem_calls_erase file r).mp hr
    obtain ⟨hs, hfile⟩ := (h.mem_symbols_erase file s).mp hs
    refine ⟨⟨r, hr, hcaller, s, hs, hfun, hname, hid⟩, fun s' hs' hfile' => ⟨?_, fun hid' => ?_⟩⟩
    · exact hcaller ▸ hne s' hs' hfile'
    · exact hfile ((h.file_eq_of_id_eq s hs s' hs' (hid.trans hid'.symm)).trans hfile')
  · rintro ⟨⟨r, hr, hcaller, s, hs, hfun, hname, hid⟩, hne⟩
    refine ⟨r, (h.mem_calls_erase file r).mpr ⟨hr, fun s' hs' hfile => ?_⟩, hcaller, s,
      (h.mem_symbols_erase file s).mpr ⟨hs, fun hfile => ?_⟩, hfun, hname, hid⟩
    · exact hcaller ▸ (hne s' hs' hfile).1
    · exact (hne s hs hfile).2 hid

end WellFormed

/-- Both ends of an edge are symbols. -/
lemma WellFormed.exists_ends (h : live.WellFormed) {e : CallEdge} (he : e ∈ live.edges) :
    (∃ s ∈ live.symbols, s.id = e.caller) ∧ ∃ s ∈ live.symbols, s.id = e.callee := by
  obtain ⟨r, hr, hcaller, s, hs, -, -, hid⟩ := he
  obtain ⟨s', hs', -, hid'⟩ := h.exists_caller hr
  exact ⟨⟨s', hs', hid'.trans hcaller⟩, ⟨s, hs, hid⟩⟩

/-- A new file gives identifiers that no other file gives. -/
lemma WellFormed.id_ne_of_insert (h : WellFormed (live.insert file e)) (hnew : live[file]? = none) :
    ∀ s ∈ e.symbols, ∀ s' ∈ live.symbols, s.id ≠ s'.id := by
  intro s hs s' hs' hid
  have hself : (live.insert file e)[file]? = some e := by simp
  have hfile : s.file = s'.file := h.file_eq_of_id_eq s ⟨file, e, hself, hs⟩ s'
    ((mem_symbols_insert hnew s').mpr (Or.inl hs')) hid
  obtain ⟨f, e', he', hs'⟩ := hs'
  have hf : f ≠ file := fun hf => by rw [hf, hnew] at he'; cases he'
  have hfe : (live.insert file e)[f]? = some e' := by
    simpa [ExtTreeMap.getElem?_insert, Ne.symm hf] using he'
  rw [(h.extraction file e hself).file_eq s hs, (h.extraction f e' hfe).file_eq s' hs'] at hfile
  exact hf hfile.symm

/-- The edges after a new file was put in: those that were there, those of its own calls, and those
of calls recorded anywhere to its functions. -/
lemma mem_edges_insert (hnew : live[file]? = none) (d : CallEdge) :
    d ∈ edges (live.insert file e) ↔ d ∈ live.edges ∨
      (∃ r ∈ e.calls, r.caller = d.caller ∧ ∃ s ∈ symbols (live.insert file e),
        s.isFunction = true ∧ s.name = r.callee ∧ s.id = d.callee) ∨
      ∃ s ∈ e.symbols, s.isFunction = true ∧ s.id = d.callee ∧
        ⟨d.caller, s.name⟩ ∈ calls (live.insert file e) := by
  constructor
  · rintro ⟨r, hr, hcaller, s, hs, hfun, hname, hid⟩
    rcases (mem_calls_insert hnew r).mp hr with hr' | hr'
    · rcases (mem_symbols_insert hnew s).mp hs with hs' | hs'
      · exact Or.inl ⟨r, hr', hcaller, s, hs', hfun, hname, hid⟩
      · refine Or.inr (Or.inr ⟨s, hs', hfun, hid, ?_⟩)
        rwa [hname, ← hcaller]
    · exact Or.inr (Or.inl ⟨r, hr', hcaller, s, hs, hfun, hname, hid⟩)
  · rintro (⟨r, hr, hcaller, s, hs, hfun, hname, hid⟩ | ⟨r, hr, hcaller, hs⟩ |
      ⟨s, hs, hfun, hid, hr⟩)
    · exact ⟨r, (mem_calls_insert hnew r).mpr (Or.inl hr), hcaller, s,
        (mem_symbols_insert hnew s).mpr (Or.inl hs), hfun, hname, hid⟩
    · exact ⟨r, (mem_calls_insert hnew r).mpr (Or.inr hr), hcaller, hs⟩
    · exact ⟨_, hr, rfl, s, (mem_symbols_insert hnew s).mpr (Or.inr hs), hfun, rfl, hid⟩

end SourceFiles

end CodeAtlas
