import CodeAtlas.Extraction.Basic
import CodeAtlas.Proofs.Extraction.Visits
import CodeAtlas.Proofs.Index.SourceFiles

/-!
# An extraction speaks of its own file

What is extracted from a file names that file in all its symbols and includes, and a call is
recorded only for a function that was found there.  The second is a fact about the walk over the
syntax tree: of all the findings of a tree, only those of function definitions call anything
(`SyntaxNode.callsFromFunctions_findings`).  Like whatever can be said of a finding by itself, it is
read off the nodes that contribute (`SyntaxNode.isRegular_ownFindings`).

So an extraction speaks of its file (`FileContent.speaksOf_of_extract`), and all that keeps it from
being well formed is that two of its identifiers, which are digests, might agree.
-/

namespace CodeAtlas

/-- Only a function calls. -/
def Finding.CallsFromFunctions : Finding → Prop
  | .symbol draft callees => callees ≠ [] → draft.detail.kind = .function
  | .include_ _ _ => True

/-- What can be said of a finding by itself: a symbol stands on the line of some node, it calls no
name twice, and it calls something only if it is a function. -/
def Finding.IsRegular : Finding → Prop
  | .symbol draft callees =>
    (∃ node : SyntaxNode, draft.line = node.line) ∧ callees.Nodup ∧
      (callees ≠ [] → draft.detail.kind = .function)
  | .include_ _ _ => True

/-- Of regular findings, only functions call. -/
lemma Finding.IsRegular.callsFromFunctions {f : Finding} (h : f.IsRegular) :
    f.CallsFromFunctions := by
  cases f with
  | symbol draft callees => exact h.2.2
  | include_ target style => trivial

namespace SyntaxNode

variable (read : Reading)

/-- A symbol of a node without calls is regular. -/
lemma isRegular_nil {draft : SymbolDraft} (node : SyntaxNode) (hline : draft.line = node.line) :
    Finding.IsRegular (.symbol draft []) :=
  ⟨⟨node, hline⟩, .nil, fun h => absurd rfl h⟩

/-- The repetitions that are dropped are no new names. -/
lemma mem_firstOccurrences {x : String} (xs : List String) :
    x ∈ firstOccurrences xs ↔ x ∈ xs := by
  fun_induction firstOccurrences xs with
  | case1 => rfl
  | case2 y xs ih =>
    simp only [List.unattach_filter, List.unattach_attach] at ih
    rw [List.mem_cons, List.mem_cons, ih, List.mem_filter, bne_iff_ne]
    by_cases hxy : x = y
    · simp [hxy]
    · simp [hxy]

/-- No name is left twice. -/
lemma nodup_firstOccurrences (xs : List String) : (firstOccurrences xs).Nodup := by
  fun_induction firstOccurrences xs with
  | case1 => exact .nil
  | case2 y xs ih =>
    simp only [List.unattach_filter, List.unattach_attach] at ih
    refine List.nodup_cons.mpr ⟨fun hy => ?_, ih⟩
    simpa using (mem_firstOccurrences _).mp hy

/-- What a node contributes by itself is regular. -/
lemma isRegular_ownFindings (scope : Scope) (n : SyntaxNode) :
    ∀ f ∈ ownFindings read scope n, f.IsRegular := by
  intro f hf
  unfold ownFindings at hf
  cases hrole : NodeRole.ofKind n.kind <;> simp only [hrole] at hf
  case function =>
    unfold functionFindings at hf
    split at hf
    · rw [List.mem_singleton] at hf
      subst hf
      refine ⟨⟨n, rfl⟩, ?_, fun _ => rfl⟩
      cases n.inField? "body" with
      | none => exact .nil
      | some body => exact nodup_firstOccurrences _
    · cases hf
  case record =>
    unfold recordFindings at hf
    split at hf
    · exact List.mem_singleton.mp hf ▸ isRegular_nil n rfl
    · cases hf
  case enumeration =>
    unfold enumerationFindings at hf
    split at hf
    · exact List.mem_singleton.mp hf ▸ isRegular_nil n rfl
    · cases hf
  case typeDefinition =>
    unfold typeDefinitionFindings at hf
    split_ifs at hf
    · split at hf
      · exact List.mem_singleton.mp hf ▸ isRegular_nil n rfl
      · cases hf
    · obtain ⟨d, -, hd⟩ := List.mem_filterMap.mp hf
      obtain ⟨name, -, rfl⟩ := Option.map_eq_some_iff.mp hd
      exact isRegular_nil n rfl
  case define =>
    unfold defineFindings at hf
    split at hf
    · exact List.mem_singleton.mp hf ▸ isRegular_nil n rfl
    · cases hf
  case include_ =>
    unfold includeFindings at hf
    split at hf
    · split_ifs at hf
      · exact List.mem_singleton.mp hf ▸ trivial
      · exact List.mem_singleton.mp hf ▸ trivial
      · cases hf
    · cases hf
  case declaration =>
    split_ifs at hf
    · unfold variableFindings at hf
      split at hf
      · obtain ⟨d, -, hd⟩ := List.mem_filterMap.mp hf
        simp only at hd
        split_ifs at hd
        obtain ⟨name, -, rfl⟩ := Option.map_eq_some_iff.mp hd
        exact isRegular_nil d rfl
      · cases hf
    · cases hf
  case block => cases hf
  case transparent => cases hf

/-- Everything that is found in a tree is regular. -/
lemma isRegular_findings (scope : Scope) (n : SyntaxNode) :
    ∀ f ∈ findings read scope n, f.IsRegular :=
  forall_mem_findings read (isRegular_ownFindings read) scope n

/-- Of all that is found in a tree, only functions call. -/
lemma callsFromFunctions_findings (scope : Scope) (n : SyntaxNode) :
    ∀ f ∈ findings read scope n, f.CallsFromFunctions :=
  fun f hf => (isRegular_findings read scope n f hf).callsFromFunctions

end SyntaxNode

namespace Extraction

/-- An extraction that speaks of one file: its symbols stand in it, its calls come from its
functions, and its includes are those of the file. -/
structure SpeaksOf (e : Extraction) (file : String) : Prop where
  file_eq : ∀ s ∈ e.symbols, s.file = file
  caller_mem : ∀ r ∈ e.calls, ∃ s ∈ e.symbols, s.isFunction = true ∧ s.id = r.caller
  include_file : ∀ i ∈ e.includes, i.file = file

variable {file : String} {found : List Finding} {e : Extraction}

/-- The numbered symbols of findings stand in the file, and those that call are functions. -/
lemma of_mem_numbered (hcalls : ∀ f ∈ found, f.CallsFromFunctions) {ordinal : Nat}
    {p : Symbol × List String} (hp : p ∈ numbered file ordinal found) :
    p.1.file = file ∧ (p.2 ≠ [] → p.1.isFunction = true) := by
  induction found generalizing ordinal with
  | nil => cases hp
  | cons f found ih =>
    rw [List.forall_mem_cons] at hcalls
    cases f with
    | symbol d callees =>
      rw [numbered, List.mem_cons] at hp
      rcases hp with rfl | hp
      · refine ⟨rfl, fun hne => ?_⟩
        rw [Symbol.isFunction, beq_iff_eq]
        exact hcalls.1 hne
      · exact ih hcalls.2 hp
    | include_ target style => exact ih hcalls.2 hp

/-- What findings amount to speaks of their file. -/
lemma speaksOf_ofFindings (hcalls : ∀ f ∈ found, f.CallsFromFunctions) :
    (ofFindings file found).SpeaksOf file where
  file_eq s hs := by
    obtain ⟨p, hp, rfl⟩ := List.mem_map.mp hs
    exact (of_mem_numbered hcalls hp).1
  caller_mem r hr := by
    obtain ⟨p, hp, hr⟩ := List.mem_flatMap.mp hr
    obtain ⟨callee, hcallee, rfl⟩ := List.mem_map.mp hr
    refine ⟨p.1, List.mem_map_of_mem hp, (of_mem_numbered hcalls hp).2 ?_, rfl⟩
    exact List.ne_nil_of_mem hcallee
  include_file i hi := by
    obtain ⟨f, -, hf⟩ := List.mem_filterMap.mp hi
    cases f with
    | symbol d callees => cases hf
    | include_ target style => rw [← Option.some.inj hf]

/-- Scores change no identifier. -/
@[simp] lemma id_scored (scores : Scores) (s : Symbol) : (scored scores s).id = s.id := by
  unfold scored
  split <;> rfl

/-- Scores change no file. -/
@[simp] lemma file_scored (scores : Scores) (s : Symbol) : (scored scores s).file = s.file := by
  unfold scored
  split <;> rfl

/-- Scores make no function and unmake none. -/
@[simp] lemma isFunction_scored (scores : Scores) (s : Symbol) :
    (scored scores s).isFunction = s.isFunction := by
  unfold scored
  split
  · simp [Symbol.isFunction, Symbol.kind, Symbol.withScore]
  · rfl

/-- An extraction with scores speaks of the same file. -/
lemma SpeaksOf.withScores (h : e.SpeaksOf file) (scores : Scores) :
    (e.withScores scores).SpeaksOf file where
  file_eq s hs := by
    obtain ⟨s', hs', rfl⟩ := List.mem_map.mp hs
    rw [file_scored, h.file_eq s' hs']
  caller_mem r hr := by
    obtain ⟨s, hs, hfun, hid⟩ := h.caller_mem r hr
    refine ⟨scored scores s, List.mem_map_of_mem hs, ?_, ?_⟩
    · rwa [isFunction_scored]
    · rwa [id_scored]
  include_file := h.include_file

/-- An extraction that speaks of a file is well formed if its identifiers are distinct. -/
lemma SpeaksOf.wellFormed (h : e.SpeaksOf file) (hids : (e.symbols.map (·.id)).Nodup) :
    e.WellFormed file :=
  ⟨h.file_eq, hids, h.caller_mem, h.include_file⟩

end Extraction

/-- What is extracted from a file speaks of it. -/
lemma FileContent.speaksOf_of_extract {measurer : Measurer} {file : String}
    {content : FileContent} {e : Extraction} (h : content.extract measurer file = .ok e) :
    e.SpeaksOf file := by
  unfold extract at h
  split at h
  · cases h
  · split at h
    · cases h
    · rename_i tree _
      obtain rfl := Except.ok.inj h
      exact (Extraction.speaksOf_ofFindings
        (SyntaxNode.callsFromFunctions_findings _ .file tree)).withScores _

end CodeAtlas
