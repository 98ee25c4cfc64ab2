import CodeAtlas.Proofs.Files.PlacePaths

/-!
# The steps of a path

A path is walked step by step: its steps (`Path.steps`) are the pieces between its slashes, less the
empty ones and the dots.  An absolute path is its steps, as they are its components with the root
before them; a relative path that is joined to another one adds its steps to it, and names joined by
slashes are the steps of the text that they make.  A step up stays a step: nothing here asks what it
would lead to.
-/

namespace CodeAtlas.Path

/-- Whether a piece of a path leads anywhere: the empty one and the dot do not. -/
def IsStep (piece : String) : Prop := piece ≠ "" ∧ piece ≠ "."

instance (piece : String) : Decidable (IsStep piece) := inferInstanceAs (Decidable (_ ∧ _))

/-- The steps of a path: its pieces, less those that lead nowhere. -/
def steps (p : String) : List String := (pieces p).filter IsStep

/-- What is no step is empty or a dot. -/
lemma eq_of_not_isStep {piece : String} (h : ¬IsStep piece) : piece = "" ∨ piece = "." := by
  rwa [IsStep, not_and_or, not_not, not_not] at h

/-- A step is neither empty nor a dot. -/
lemma IsStep.not_dot {piece : String} (h : IsStep piece) : ¬(piece = "" ∨ piece = ".") :=
  fun hdot => hdot.elim h.1 h.2

/-- The steps among pieces, read from the first of them. -/
lemma filter_isStep_cons (piece : String) (pieces : List String) :
    (piece :: pieces).filter IsStep =
      if IsStep piece then piece :: pieces.filter IsStep else pieces.filter IsStep := by
  simp [List.filter_cons]

/-- A plain name is a step. -/
lemma IsPlainName.isStep {name : String} (h : IsPlainName name) : IsStep name := ⟨h.1, h.2.1⟩

/-- Plain names are all of them steps. -/
lemma filter_isStep_of_plain {names : List String} (h : ∀ name ∈ names, IsPlainName name) :
    names.filter IsStep = names :=
  List.filter_eq_self.mpr fun name hname => decide_eq_true (h name hname).isStep

/-- The component that a step stands for. -/
def componentOfStep (step : String) : Component := if step = ".." then .parent else .name step

variable {p q : String}

/-- A component has the text of its step. -/
@[simp] lemma text_componentOfStep (step : String) : (componentOfStep step).text = step := by
  unfold componentOfStep
  split_ifs with hup
  · exact hup.symm
  · rfl

/-- Steps are told apart by their components. -/
lemma componentOfStep_injective : Function.Injective componentOfStep :=
  Function.LeftInverse.injective text_componentOfStep

/-- A piece stands for a component exactly if it is a step. -/
lemma componentOfPiece?_eq (piece : String) :
    componentOfPiece? piece.toList =
      if IsStep piece then some (componentOfStep piece) else none := by
  rcases componentOfPiece?_cases piece with ⟨hdot, hnone⟩ | ⟨rfl, hup⟩ | ⟨hdot, hup, hname⟩
  · have hstep : ¬IsStep piece := fun h => hdot.elim h.1 h.2
    rw [hnone, if_neg hstep]
  · rw [hup, if_pos (by decide), componentOfStep, if_pos rfl]
  · have hstep : IsStep piece := not_or.mp hdot
    rw [hname, if_pos hstep, componentOfStep, if_neg hup]

/-- The components of pieces are those of the steps among them. -/
lemma filterMap_eq_map_componentOfStep (pieces : List String) :
    pieces.filterMap (fun piece => componentOfPiece? piece.toList) =
      (pieces.filter IsStep).map componentOfStep := by
  induction pieces with
  | nil => rfl
  | cons piece pieces ih =>
    rw [List.filterMap_cons, componentOfPiece?_eq, ih]
    by_cases hstep : IsStep piece
    · simp [hstep]
    · simp [hstep]

/-- The components of an absolute path are the root and its steps. -/
lemma components_eq_map_steps (h : isAbsolute p = true) :
    components p = .root :: (steps p).map componentOfStep := by
  rw [components_of_isAbsolute h, filterMap_eq_map_componentOfStep, steps]

/-- Two absolute paths are the same exactly if they have the same steps. -/
lemma components_eq_iff (hp : isAbsolute p = true) (hq : isAbsolute q = true) :
    components p = components q ↔ steps p = steps q := by
  rw [components_eq_map_steps hp, components_eq_map_steps hq, List.cons.injEq,
    componentOfStep_injective.list_map.eq_iff]
  exact and_iff_right rfl

/-- A step leads somewhere and has no slash. -/
lemma of_mem_steps {step : String} (h : step ∈ steps p) : IsStep step ∧ '/' ∉ step.toList := by
  obtain ⟨hpiece, hstep⟩ := List.mem_filter.mp h
  obtain ⟨cs, hcs, rfl⟩ := List.mem_map.mp hpiece
  refine ⟨of_decide_eq_true hstep, fun hslash => ?_⟩
  rw [String.toList_ofList] at hslash
  simpa using not_of_mem_splitAtClass hcs '/' hslash

/-- Steps that are joined by slashes are the steps of the text that they make. -/
lemma steps_intercalate {names : List String}
    (h : ∀ name ∈ names, IsStep name ∧ '/' ∉ name.toList) :
    steps ("/".intercalate names) = names := by
  by_cases hne : names = []
  · rw [hne]
    decide
  · rw [steps, pieces_intercalate hne fun name hname => (h name hname).2, List.filter_eq_self]
    exact fun name hname => decide_eq_true (h name hname).1

/-- Steps that are joined by slashes make no absolute path. -/
lemma isAbsolute_intercalate_steps {names : List String}
    (h : ∀ name ∈ names, IsStep name ∧ '/' ∉ name.toList) :
    isAbsolute ("/".intercalate names) = false := by
  cases names with
  | nil => rfl
  | cons name names =>
    obtain ⟨hstep, hslash⟩ := h name List.mem_cons_self
    exact isAbsolute_intercalate hstep.1 hslash

/-- A relative path adds its steps to those of the directory that it is joined to. -/
lemma steps_join (p : String) (hq : isAbsolute q = false) :
    steps (join p q) = steps p ++ steps q := by
  have hstem : steps p = (stem p).filter IsStep := by
    rcases pieces_eq_stem_or p with hpieces | hpieces
    · rw [steps, hpieces]
    · rw [steps, hpieces, List.filter_append]
      exact List.append_nil _
  rw [hstem, steps, pieces_join p hq, List.filter_append, steps]

end CodeAtlas.Path
