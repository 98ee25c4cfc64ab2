import CodeAtlas.Proofs.Index.Merging

/-!
# Who is heard first

Supplementary tools may report what the syntax trees have given already, what another tool has
reported, or the same thing twice.  What a merge takes over of all that is described without the
keys that it has to remember on the way: `AddsFirst` says which symbols are added to the given ones,
and in which order, by looking at the reports as a whole.

The keys are put together step by step over the tools and their lists.  That the steps may be taken
over all reports at once (`MergedExtraction.foldl_supplement`) reduces the tools to one list, and an
induction on this list gives the description (`MergedExtraction.addsFirst_unseen`).  A merge is then
an equation (`FileTree.merge_addsFirst`).
-/

namespace CodeAtlas

/-- Which of some reported symbols are added to given ones: of each key that no given symbol has,
the first symbol with this key, and the keys come in the order in which they appear first. -/
structure AddsFirst (given reported added : List Symbol) : Prop where
  mem_iff : ∀ s, s ∈ added ↔ (∀ g ∈ given, g.mergeKey ≠ s.mergeKey) ∧
    reported.find? (fun r => r.mergeKey == s.mergeKey) = some s
  ordered : added.Pairwise fun s s' =>
    reported.findIdx (fun r => r.mergeKey == s.mergeKey) <
      reported.findIdx fun r => r.mergeKey == s'.mergeKey

/-- Whether a tool is there and succeeds. -/
def SymbolSource.answers (source : SymbolSource) (root : String) (files : List String) : Bool :=
  source.isAvailable && (source.extract root files).isOk

/-- What a tool reports if it succeeds. -/
def SymbolSource.reports (source : SymbolSource) (root : String) (files : List String) :
    List Symbol :=
  (source.extract root files).toOption.getD []

/-- The tools that answer give what they report, and the others nothing. -/
lemma SymbolSource.symbols?_eq (source : SymbolSource) (root : String) (files : List String) :
    source.symbols? root files =
      if source.answers root files then some (source.reports root files) else none := by
  unfold symbols? answers reports
  cases source.isAvailable with
  | false => rfl
  | true =>
    cases source.extract root files with
    | error e => rfl
    | ok symbols => rfl

namespace MergedExtraction

variable {given : List Symbol} {seen : Keys} {s s' : Symbol}

/-- Symbols are remembered by their keys. -/
lemma keyOf_eq_iff : keyOf s = keyOf s' ↔ s.mergeKey = s'.mergeKey := by
  simp [keyOf, Symbol.mergeKey]

/-- What is remembered at first are the keys of the given symbols. -/
lemma contains_keysOf : (keysOf given).contains (keyOf s) = true ↔
    ∃ g ∈ given, g.mergeKey = s.mergeKey := by
  rw [keysOf, Std.ExtTreeSet.contains_ofList, List.contains_iff_mem, List.mem_map]
  simp only [keyOf_eq_iff]

/-! ### One list of reports -/

/-- Two lists can be gone over one after the other. -/
lemma unseen_append (seen : Keys) (xs ys : List Symbol) :
    unseen seen (xs ++ ys) =
      ((unseen seen xs).1 ++ (unseen (unseen seen xs).2 ys).1,
        (unseen (unseen seen xs).2 ys).2) := by
  induction xs generalizing seen with
  | nil => rfl
  | cons x xs ih =>
    rw [List.cons_append, unseen, unseen]
    split_ifs with hseen
    · exact ih seen
    · simp only [ih, List.cons_append]

/-- The reports of several tools are taken over as if they were one report. -/
lemma foldl_supplement (supplements : List (Origin × List Symbol)) (added : List Symbol)
    (origins : List Origin) (seen : Keys) :
    supplements.foldl (fun state (origin, symbols) => supplement state origin symbols)
        (added, origins, seen) =
      (added ++ (unseen seen (supplements.flatMap Prod.snd)).1, origins ++ supplements.map Prod.fst,
        (unseen seen (supplements.flatMap Prod.snd)).2) := by
  induction supplements generalizing added origins seen with
  | nil => simp [unseen]
  | cons p supplements ih =>
    obtain ⟨origin, symbols⟩ := p
    have hrest :=
      ih (added ++ (unseen seen symbols).1) (origins ++ [origin]) (unseen seen symbols).2
    rw [List.foldl_cons, List.flatMap_cons, unseen_append]
    refine hrest.trans ?_
    simp only [List.append_assoc, List.map_cons, List.cons_append, List.nil_append]

/-- The symbols that are taken over from a list are the first ones of the keys that were not
seen. -/
lemma mem_unseen_iff (reported : List Symbol) :
    s ∈ (unseen seen reported).1 ↔ seen.contains (keyOf s) = false ∧
      reported.find? (fun r => r.mergeKey == s.mergeKey) = some s := by
  induction reported generalizing seen with
  | nil => simp [unseen]
  | cons r reported ih =>
    rw [unseen]
    split_ifs with hseen
    · -- A symbol of the key that was seen is not asked for.
      rw [ih]
      refine and_congr_right fun hs => ?_
      have hne : r.mergeKey ≠ s.mergeKey := fun heq => by
        rw [keyOf_eq_iff.mpr heq, hs] at hseen
        cases hseen
      rw [List.find?_cons_of_neg (by simpa using hne)]
    · rw [Bool.not_eq_true] at hseen
      simp only [List.mem_cons, ih, Std.ExtTreeSet.contains_insert, Bool.or_eq_false_iff]
      by_cases heq : r.mergeKey = s.mergeKey
      · have hkey := keyOf_eq_iff.mpr heq
        rw [List.find?_cons_of_pos (by simpa using heq), ← hkey]
        simp [hseen, eq_comm]
      · have hkey : keyOf r ≠ keyOf s := fun h => heq (keyOf_eq_iff.mp h)
        have hne : s ≠ r := fun h => heq (congrArg Symbol.mergeKey h.symm)
        rw [List.find?_cons_of_neg (by simpa using heq)]
        simp [hkey, hne]

/-- The symbols that are taken over from a list stand in the order in which their keys appear
first. -/
lemma pairwise_unseen (reported : List Symbol) :
    (unseen seen reported).1.Pairwise fun s s' =>
      reported.findIdx (fun r => r.mergeKey == s.mergeKey) <
        reported.findIdx fun r => r.mergeKey == s'.mergeKey := by
  induction reported generalizing seen with
  | nil => exact List.Pairwise.nil
  | cons r reported ih =>
    -- A symbol of another key than the first one is found one place later.
    have hlater : ∀ s : Symbol, r.mergeKey ≠ s.mergeKey →
        (r :: reported).findIdx (fun r => r.mergeKey == s.mergeKey) =
          reported.findIdx (fun r => r.mergeKey == s.mergeKey) + 1 := by
      intro s hne
      rw [List.findIdx_cons, beq_false_of_ne hne]
      rfl
    have hrest : ∀ keys : Keys, keys.contains (keyOf r) = true →
        ∀ s ∈ (unseen keys reported).1, r.mergeKey ≠ s.mergeKey := by
      intro keys hkeys s hs heq
      have hunseen := ((mem_unseen_iff reported).mp hs).1
      rw [← keyOf_eq_iff.mpr heq, hkeys] at hunseen
      cases hunseen
    have htail : ∀ keys : Keys, keys.contains (keyOf r) = true →
        (unseen keys reported).1.Pairwise fun s s' =>
          (r :: reported).findIdx (fun r => r.mergeKey == s.mergeKey) <
            (r :: reported).findIdx fun r => r.mergeKey == s'.mergeKey := by
      intro keys hkeys
      refine (@ih keys).imp_of_mem fun {s s'} hs hs' hlt => ?_
      rw [hlater s (hrest keys hkeys s hs), hlater s' (hrest keys hkeys s' hs')]
      exact Nat.succ_lt_succ hlt
    rw [unseen]
    split_ifs with hseen
    · exact htail seen hseen
    · have hinsert : (seen.insert (keyOf r)).contains (keyOf r) = true :=
        Std.ExtTreeSet.contains_insert_self
      refine List.Pairwise.cons (fun s hs => ?_) (htail _ hinsert)
      rw [hlater s (hrest _ hinsert s hs), List.findIdx_cons, beq_self_eq_true]
      exact Nat.succ_pos _

/-- What is taken over from a list after some symbols were given are the first ones of the new
keys. -/
lemma addsFirst_unseen (given reported : List Symbol) :
    AddsFirst given reported (unseen (keysOf given) reported).1 where
  mem_iff s := by
    rw [mem_unseen_iff, ← Bool.not_eq_true, contains_keysOf]
    simp only [not_exists, not_and, ne_eq]
  ordered := pairwise_unseen reported

/-- The parts of a merge, with all reports taken as one list. -/
lemma ofParts_eq (files : List String) (extractions : List Extraction)
    (supplements : List (Origin × List Symbol)) :
    let primary := extractions.flatMap Extraction.symbols
    ofParts files extractions supplements =
      { extraction :=
          { symbols := primary ++ (unseen (keysOf primary) (supplements.flatMap Prod.snd)).1
            calls := extractions.flatMap Extraction.calls
            includes := extractions.flatMap Extraction.includes }
        files
        origins :=
          (if extractions = [] then [] else [.syntaxTree]) ++ supplements.map Prod.fst } := by
  have hprimary := ProjectIndex.foldl_append extractions {}
  simp only [List.nil_append] at hprimary
  simp only [ofParts, hprimary, foldl_supplement, List.nil_append, List.isEmpty_iff]

end MergedExtraction

namespace FileTree

/-- What the tools that answer contribute. -/
lemma filterMap_symbols? (sources : List SymbolSource) (root : String) (paths : List String) :
    (sources.filterMap fun source =>
        (source.symbols? root paths).map fun symbols => (source.origin, symbols)) =
      (sources.filter fun source => source.answers root paths).map fun source =>
        (source.origin, source.reports root paths) := by
  rw [← List.filterMap_eq_map, List.filterMap_filter]
  refine List.filterMap_congr fun source _ => ?_
  rw [SymbolSource.symbols?_eq]
  split_ifs <;> rfl

/-- A merge keeps all symbols of the files that can be extracted, in the order of the files, and
adds of each new key the symbol that is reported first, in the order in which the keys are first
reported by the tools that answer.  Calls and includes are those of the files, and the origins are
the syntax trees, if any file could be extracted, and the tools that answer.  It fails exactly if no
symbol is left, and tools that do not answer make no difference. -/
theorem merge_addsFirst (t : FileTree) (measurer : Measurer) (sources : List SymbolSource)
    (projectId root : String) (paths : List String) :
    let extracted := paths.filterMap fun path => (t.extractFile measurer root path).toOption
    let primary := extracted.flatMap Extraction.symbols
    let answering := sources.filter fun source => source.answers root paths
    let reported := answering.flatMap fun source => source.reports root paths
    (∃ added, AddsFirst primary reported added ∧
      t.merge measurer sources projectId root paths =
        if primary ++ added = [] then .error (.nothingExtracted projectId)
        else .ok
          { extraction :=
              { symbols := primary ++ added
                calls := extracted.flatMap Extraction.calls
                includes := extracted.flatMap Extraction.includes }
            files := paths.map (Path.relative root)
            origins := (if extracted = [] then [] else [.syntaxTree]) ++
              answering.map SymbolSource.origin }) ∧
    ∀ others : List SymbolSource,
      (others.filter fun source => source.answers root paths) = answering →
        t.merge measurer others projectId root paths =
          t.merge measurer sources projectId root paths := by
  intro extracted primary answering reported
  refine ⟨⟨_, MergedExtraction.addsFirst_unseen primary reported, ?_⟩, fun others hothers => ?_⟩
  · have hreported : (answering.map fun source =>
        (source.origin, source.reports root paths)).flatMap Prod.snd = reported := by
      rw [List.flatMap_map]
    have horigins : (answering.map fun source =>
        (source.origin, source.reports root paths)).map Prod.fst =
          answering.map SymbolSource.origin := by
      rw [List.map_map]
      rfl
    simp only [merge, filterMap_symbols?, MergedExtraction.ofParts_eq, List.isEmpty_iff]
    rw [hreported, horigins]
  · simp only [merge, filterMap_symbols?, hothers]
    rfl

end FileTree

end CodeAtlas
