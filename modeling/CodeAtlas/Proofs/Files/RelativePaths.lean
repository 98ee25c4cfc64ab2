import CodeAtlas.Proofs.Files.Steps

/-!
# Relative paths identify files

A project files everything under relative paths, so two spellings have to be filed alike exactly if
they spell one path, and a relative path has to lead back to what it was made from.

Both are read off the steps of a path.  An absolute path lies below another exactly if its steps
begin with those of the other; and a relative path is the steps behind this beginning, joined by
slashes, of which each is again a step of the text that they make.
-/

namespace CodeAtlas.Path

variable {root p q : String}

/-! ### Below a root -/

/-- A path below a root is absolute, its steps begin with those of the root, and it is filed under
the others. -/
lemma exists_steps_below (hroot : isAbsolute root = true) (hp : components root <+: components p) :
    isAbsolute p = true ∧
      ∃ names, steps p = steps root ++ names ∧ relative root p = "/".intercalate names := by
  have habs : isAbsolute p = true := by
    rw [← root_mem_components_iff] at hroot ⊢
    exact hp.subset hroot
  rw [components_eq_map_steps hroot, components_eq_map_steps habs, List.cons_prefix_cons,
    List.prefix_map_iff_of_injective componentOfStep_injective] at hp
  obtain ⟨names, hsteps⟩ := hp.2
  refine ⟨habs, names, hsteps.symm, ?_⟩
  have hbelow : below? root p = some (names.map componentOfStep) := by
    rw [below?, components_eq_map_steps hroot, components_eq_map_steps habs, ← hsteps,
      List.map_append, ← List.cons_append, dropComponents?_append]
  have htexts : Component.text ∘ componentOfStep = id := funext text_componentOfStep
  rw [relative, hbelow]
  simp only [joinComponents, List.map_map, htexts, List.map_id]

/-- Below an absolute root, relative paths identify files: two texts are filed alike exactly if they
spell the same path, that is, if they have the same steps, and the root joined with what a path is
filed under spells the path again. -/
theorem relative_identifies (hroot : isAbsolute root = true)
    (hp : components root <+: components p) (hq : components root <+: components q) :
    (relative root p = relative root q ↔ same p q = true) ∧
    (same p q = true ↔ steps p = steps q) ∧
    same (join root (relative root p)) p = true := by
  obtain ⟨hpabs, names, hpsteps, hprelative⟩ := exists_steps_below hroot hp
  obtain ⟨hqabs, names', hqsteps, hqrelative⟩ := exists_steps_below hroot hq
  have hnames : ∀ name ∈ names, IsStep name ∧ '/' ∉ name.toList := fun name hname =>
    of_mem_steps (hpsteps ▸ List.mem_append_right _ hname)
  have hnames' : ∀ name ∈ names', IsStep name ∧ '/' ∉ name.toList := fun name hname =>
    of_mem_steps (hqsteps ▸ List.mem_append_right _ hname)
  have hsame : same p q = true ↔ steps p = steps q := by
    rw [same, beq_iff_eq, components_eq_iff hpabs hqabs]
  refine ⟨?_, hsame, ?_⟩
  · rw [hsame, hprelative, hqrelative, hpsteps, hqsteps, List.append_cancel_left_eq]
    refine ⟨fun h => ?_, congrArg _⟩
    rw [← steps_intercalate hnames, h, steps_intercalate hnames']
  · have hrelative : isAbsolute (relative root p) = false := by
      rw [hprelative]
      exact isAbsolute_intercalate_steps hnames
    have hjoin : isAbsolute (join root (relative root p)) = true := by
      rw [isAbsolute_join root hrelative, hroot]
    rw [same, beq_iff_eq, components_eq_iff hjoin hpabs, steps_join root hrelative, hprelative,
      steps_intercalate hnames, hpsteps]

/-- Slashes that are repeated or trail behind and dots between them do not tell spellings apart; a
step up does. -/
theorem relative_identifies_spellings :
    isAbsolute "/w//p/" = true ∧ components "/w//p/" <+: components "/w/p/./src//../a.c/" ∧
      components "/w//p/" <+: components "/w/./p/src/../a.c" ∧
      components "/w//p/" <+: components "/w/p/a.c" ∧
      relative "/w//p/" "/w/p/./src//../a.c/" = relative "/w//p/" "/w/./p/src/../a.c" ∧
      relative "/w//p/" "/w/p/./src//../a.c/" ≠ relative "/w//p/" "/w/p/a.c" ∧
      same (join "/w//p/" (relative "/w//p/" "/w/p/./src//../a.c/"))
        "/w/p/./src//../a.c/" = true := by
  have habs : isAbsolute "/w//p/" = true := by decide
  have hp : components "/w//p/" <+: components "/w/p/./src//../a.c/" := by decide
  have hq : components "/w//p/" <+: components "/w/./p/src/../a.c" := by decide
  have hr : components "/w//p/" <+: components "/w/p/a.c" := by decide
  refine ⟨habs, hp, hq, hr, ?_, ?_, (relative_identifies habs hp hq).2.2⟩
  · exact (relative_identifies habs hp hq).1.mpr (by decide)
  · exact fun h => absurd ((relative_identifies habs hp hr).1.mp h) (by decide)

end CodeAtlas.Path
