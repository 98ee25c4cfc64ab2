import CodeAtlas.Text.Blank
import Mathlib.Data.List.DropRight
import Mathlib.Tactic.Lemma

/-!
# Trimming

A text is trimmed at an end if its character there, if there is one, is not of the class that is
trimmed.  What trimming leaves is a part of the text, and of a text that is trimmed already it
leaves everything.
-/

namespace CodeAtlas

variable {p : Char → Bool} {c : Char} {cs ds : List Char}

/-- Trimming on the left leaves an end of the text. -/
lemma trimLeftBy_isSuffix (p : Char → Bool) (cs : List Char) : trimLeftBy p cs <:+ cs :=
  List.dropWhile_suffix p

/-- Trimming on the right leaves a beginning of the text. -/
lemma trimRightBy_isPrefix (p : Char → Bool) (cs : List Char) : trimRightBy p cs <+: cs :=
  List.rdropWhile_prefix p cs

/-- Trimming leaves characters of the text, in their order. -/
lemma trimBy_sublist (p : Char → Bool) (cs : List Char) : (trimBy p cs).Sublist cs :=
  (trimRightBy_isPrefix p _).sublist.trans (trimLeftBy_isSuffix p cs).sublist

/-- A text that begins with another character is trimmed on the left. -/
lemma trimLeftBy_cons_of_neg (h : p c = false) : trimLeftBy p (c :: cs) = c :: cs := by
  simp [trimLeftBy, h]

/-- A text that begins with a character of the class is trimmed without it. -/
lemma trimLeftBy_cons_of_pos (h : p c = true) : trimLeftBy p (c :: cs) = trimLeftBy p cs := by
  simp [trimLeftBy, h]

/-- A text that ends with another character is trimmed on the right. -/
lemma trimRightBy_concat_of_neg (h : p c = false) : trimRightBy p (cs ++ [c]) = cs ++ [c] :=
  List.rdropWhile_concat_neg p cs c (by simp [h])

/-- A text that ends with a character of the class is trimmed without it. -/
lemma trimRightBy_concat_of_pos (h : p c = true) :
    trimRightBy p (cs ++ [c]) = trimRightBy p cs :=
  List.rdropWhile_concat_pos p cs c h

/-- Characters of the class at the end are trimmed. -/
lemma trimRightBy_append_of_pos (h : ∀ c ∈ ds, p c = true) (cs : List Char) :
    trimRightBy p (cs ++ ds) = trimRightBy p cs := by
  induction ds using List.reverseRecOn with
  | nil => rw [List.append_nil]
  | append_singleton ds d ih =>
    rw [List.forall_mem_append] at h
    rw [← List.append_assoc, trimRightBy_concat_of_pos (h.2 d List.mem_cons_self), ih h.1]

/-- Trimming on the right does not go beyond another character. -/
lemma trimRightBy_append_cons_of_neg (h : p c = false) (before after : List Char) :
    trimRightBy p (before ++ c :: after) = before ++ c :: trimRightBy p after := by
  induction after using List.reverseRecOn with
  | nil => exact trimRightBy_concat_of_neg h
  | append_singleton after d ih =>
    rw [← List.cons_append, ← List.append_assoc]
    cases hd : p d with
    | true => rw [trimRightBy_concat_of_pos hd, trimRightBy_concat_of_pos hd, ih]
    | false => rw [trimRightBy_concat_of_neg hd, trimRightBy_concat_of_neg hd, List.append_assoc,
        List.cons_append]

/-- With another character something is left. -/
lemma isEmpty_trimRightBy (h : ∃ c ∈ cs, p c = false) : (trimRightBy p cs).isEmpty = false := by
  obtain ⟨c, hc, hother⟩ := h
  obtain ⟨before, after, rfl⟩ := List.append_of_mem hc
  rw [trimRightBy_append_cons_of_neg hother]
  cases before <;> rfl

/-- Trimming on the right takes off characters of the class only. -/
lemma count_trimRightBy (h : p c = false) (cs : List Char) :
    (trimRightBy p cs).count c = cs.count c := by
  induction cs using List.reverseRecOn with
  | nil => rfl
  | append_singleton cs d ih =>
    cases hd : p d with
    | true =>
      have hne : d ≠ c := by
        rintro rfl
        rw [hd] at h
        cases h
      rw [trimRightBy_concat_of_pos hd, ih, List.count_append, List.count_singleton,
        if_neg (by simpa using hne), Nat.add_zero]
    | false => rw [trimRightBy_concat_of_neg hd]

/-- Trimming on the left takes off characters of the class only. -/
lemma count_trimLeftBy (h : p c = false) (cs : List Char) :
    (trimLeftBy p cs).count c = cs.count c := by
  rw [trimLeftBy]
  conv_rhs => rw [← List.takeWhile_append_dropWhile (p := p) (l := cs), List.count_append]
  have hnone : (cs.takeWhile p).count c = 0 := List.count_eq_zero.mpr fun hmem => by
    rw [List.mem_takeWhile_imp hmem] at h
    cases h
  rw [hnone, Nat.zero_add]

/-- Trimming takes off characters of the class only. -/
lemma count_trimBy (h : p c = false) (cs : List Char) : (trimBy p cs).count c = cs.count c := by
  rw [trimBy, count_trimRightBy h, count_trimLeftBy h]

/-- A text is trimmed on the left exactly if it does not begin with a character of the class. -/
lemma trimLeftBy_eq_self_iff : trimLeftBy p cs = cs ↔ ∀ c ∈ cs.head?, p c = false := by
  cases cs with
  | nil => simp [trimLeftBy]
  | cons c cs =>
    rw [trimLeftBy, List.dropWhile_eq_self_iff]
    simp

/-- Trimming on the left does not go on behind other text. -/
lemma trimLeftBy_append_of_neg (h : ∀ c ∈ ds.head?, p c = false) (cs : List Char) :
    trimLeftBy p (cs ++ ds) = trimLeftBy p cs ++ ds := by
  rw [trimLeftBy, trimLeftBy, List.dropWhile_append]
  split_ifs with hempty
  · rw [List.isEmpty_iff.mp hempty, List.nil_append]
    exact trimLeftBy_eq_self_iff.mpr h
  · rfl

/-- A text is trimmed on the right exactly if it does not end with a character of the class. -/
lemma trimRightBy_eq_self_iff : trimRightBy p cs = cs ↔ ∀ c ∈ cs.getLast?, p c = false := by
  rw [show trimRightBy p cs = cs.rdropWhile p from rfl, List.rdropWhile_eq_self_iff]
  cases cs using List.reverseRecOn <;> simp

/-- A text is trimmed exactly if neither its first nor its last character is of the class. -/
lemma trimBy_eq_self_iff :
    trimBy p cs = cs ↔ (∀ c ∈ cs.head?, p c = false) ∧ ∀ c ∈ cs.getLast?, p c = false := by
  rw [← trimLeftBy_eq_self_iff, ← trimRightBy_eq_self_iff]
  refine ⟨fun h => ?_, fun ⟨hleft, hright⟩ => by rw [trimBy, hleft, hright]⟩
  have hlength : cs.length ≤ (trimLeftBy p cs).length := by
    have := (trimRightBy_isPrefix p (trimLeftBy p cs)).length_le
    rwa [show trimRightBy p (trimLeftBy p cs) = cs from h] at this
  have hleft : trimLeftBy p cs = cs := (trimLeftBy_isSuffix p cs).eq_of_length_le hlength
  exact ⟨hleft, by rw [trimBy, hleft] at h; exact h⟩

/-- Trimmed text is trimmed. -/
@[simp] lemma trimBy_trimBy (p : Char → Bool) (cs : List Char) :
    trimBy p (trimBy p cs) = trimBy p cs := by
  refine trimBy_eq_self_iff.mpr ⟨fun c hc => ?_, ?_⟩
  · have hleft : trimLeftBy p (trimLeftBy p cs) = trimLeftBy p cs := List.dropWhile_idempotent p cs
    obtain ⟨rest, hrest⟩ := trimRightBy_isPrefix p (trimLeftBy p cs)
    refine trimLeftBy_eq_self_iff.mp hleft c ?_
    rw [← hrest]
    exact List.mem_head?_append_of_mem_head? hc
  · exact trimRightBy_eq_self_iff.mp (List.rdropWhile_idempotent p (trimLeftBy p cs))

end CodeAtlas
