import CodeAtlas.Path
import CodeAtlas.Proofs.Text.Lines
import Mathlib.Data.List.Basic

/-!
# The pieces of a path

A path is walked piece by piece, the pieces being what stands between its slashes.  Joining two
paths puts the pieces of the second behind those of the first, where the first counts without the
empty piece that a trailing slash leaves (`Path.stem`).  A plain name, which is what a single file
or directory can be called, is one piece of its own.
-/

namespace CodeAtlas

namespace Path

/-- The pieces of a path between its slashes. -/
abbrev pieces (p : String) : List String := Text.splitAt '/' p

/-- The pieces of a path to which something is joined: a trailing slash adds none, and the empty
path has none. -/
def stem (p : String) : List String :=
  if p.isEmpty then []
  else if p.toList.getLast? = some '/' then (pieces p).dropLast
  else pieces p

/-- The pieces of two texts with a slash between them. -/
lemma pieces_append_slash (p q : String) : pieces (p ++ "/" ++ q) = pieces p ++ pieces q := by
  have hchars : (p ++ "/" ++ q).toList = p.toList ++ '/' :: q.toList := by simp
  simp only [pieces, Text.splitAt, hchars]
  rw [splitAtClass_append_cons (by decide), List.map_append]

/-- A path that ends in a slash has an empty last piece. -/
lemma pieces_of_trailing_slash {p : String} (h : p.toList.getLast? = some '/') :
    ∃ p', p = p' ++ "/" ∧ pieces p = pieces p' ++ [""] := by
  obtain ⟨cs, hcs⟩ := List.getLast?_eq_some_iff.mp h
  have hp : p = String.ofList cs ++ "/" := by
    rw [← String.toList_inj]
    simp [hcs]
  refine ⟨String.ofList cs, hp, ?_⟩
  have hslash := pieces_append_slash (String.ofList cs) ""
  rwa [String.append_empty, ← hp] at hslash

/-- Joining a relative path puts its pieces behind the stem. -/
lemma pieces_join (p : String) {q : String} (hq : isAbsolute q = false) :
    pieces (join p q) = stem p ++ pieces q := by
  unfold join stem
  rw [hq, Bool.false_or]
  by_cases he : p.isEmpty
  · simp [he]
  · rw [if_neg he, if_neg he]
    by_cases hlast : p.toList.getLast? = some '/'
    · obtain ⟨p', hp, hpieces⟩ := pieces_of_trailing_slash hlast
      rw [if_pos hlast, if_pos hlast, hpieces, List.dropLast_concat, hp, pieces_append_slash]
    · rw [if_neg hlast, if_neg hlast, pieces_append_slash]

/-- The pieces of a path are its stem, behind which a trailing slash leaves an empty piece. -/
lemma pieces_eq_stem_or (p : String) : pieces p = stem p ∨ pieces p = stem p ++ [""] := by
  unfold stem
  by_cases he : p.isEmpty
  · right
    rw [if_pos he, String.isEmpty_iff.mp he]
    rfl
  · rw [if_neg he]
    by_cases hlast : p.toList.getLast? = some '/'
    · obtain ⟨p', -, hpieces⟩ := pieces_of_trailing_slash hlast
      rw [if_pos hlast, hpieces, List.dropLast_concat]
      exact Or.inr rfl
    · rw [if_neg hlast]
      exact Or.inl rfl

/-- Whether a joined path starts at the root is decided by its first part. -/
lemma isAbsolute_join (p : String) {q : String} (hq : isAbsolute q = false) :
    isAbsolute (join p q) = isAbsolute p := by
  unfold join
  rw [hq, Bool.false_or]
  by_cases he : p.isEmpty
  · rw [if_pos he, hq, String.isEmpty_iff.mp he]
    rfl
  · have hcs : p.toList ≠ [] := fun h => he (by
      rw [String.isEmpty_iff, ← String.toList_inj]
      simpa using h)
    rw [if_neg he]
    obtain ⟨c, cs, hp⟩ := List.exists_cons_of_ne_nil hcs
    split_ifs <;> simp [isAbsolute, hp]

/-- A name that a single file or directory can have. -/
def IsPlainName (name : String) : Prop :=
  name ≠ "" ∧ name ≠ "." ∧ name ≠ ".." ∧ '/' ∉ name.toList

instance (name : String) : Decidable (IsPlainName name) :=
  inferInstanceAs (Decidable (_ ∧ _ ∧ _ ∧ _))

/-- A text without slashes is one piece. -/
lemma pieces_of_slash_not_mem {name : String} (h : '/' ∉ name.toList) : pieces name = [name] := by
  simp [pieces, Text.splitAt, splitAtClass_of_not_mem h]

/-- A text without slashes is a relative path. -/
lemma isAbsolute_of_slash_not_mem {name : String} (h : '/' ∉ name.toList) :
    isAbsolute name = false := by
  cases hcs : name.toList with
  | nil => simp [isAbsolute, hcs]
  | cons c cs =>
    have hc : c ≠ '/' := fun heq => h (by simp [hcs, heq])
    simp [isAbsolute, hcs, hc]

end Path

end CodeAtlas
