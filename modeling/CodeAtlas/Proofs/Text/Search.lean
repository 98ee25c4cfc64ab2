import CodeAtlas.Text.Search
import Mathlib.Data.List.Infix
import Mathlib.Tactic.Lemma

/-!
# Searching and replacing, as equations

What a search or a replacement does at the front of a text, where the pattern stands there or not,
and where a text is parted by a character that the pattern does not hold; and what is left of a text
when the copies of a pattern at one of its ends are taken off.  A list is parted at the first
occurrence of an element in one way only (`append_cons_inj_of_not_mem`).
-/

namespace CodeAtlas

variable {c x : Char} {cs ds pattern replacement before before' rest rest' : List Char}

/-- A list is parted at the first occurrence of an element in one way only. -/
lemma append_cons_inj_of_not_mem {α : Type} {x : α} {before before' rest rest' : List α}
    (h : x ∉ before) (h' : x ∉ before')
    (heq : before ++ x :: rest = before' ++ x :: rest') : before = before' ∧ rest = rest' := by
  induction before generalizing before' with
  | nil =>
    cases before' with
    | nil => exact ⟨rfl, (List.cons_eq_cons.mp heq).2⟩
    | cons b before' =>
      exact absurd ((List.cons_eq_cons.mp heq).1 ▸ List.mem_cons_self) h'
  | cons b before ih =>
    cases before' with
    | nil => exact absurd ((List.cons_eq_cons.mp heq).1 ▸ List.mem_cons_self) h
    | cons b' before' =>
      obtain ⟨rfl, htail⟩ := List.cons_eq_cons.mp heq
      obtain ⟨rfl, rfl⟩ := ih (fun hx => h (List.mem_cons_of_mem _ hx))
        (fun hx => h' (List.mem_cons_of_mem _ hx)) htail
      exact ⟨rfl, rfl⟩

/-- Cutting at a character finds its first occurrence. -/
lemma splitOnce?_append (h : x ∉ before) (rest : List Char) :
    splitOnce? x (before ++ x :: rest) = some (before, rest) := by
  induction before with
  | nil => simp [splitOnce?]
  | cons b before ih =>
    rw [List.mem_cons, not_or] at h
    simp [splitOnce?, Ne.symm h.1, ih h.2]

/-- A text without a character is not cut at it. -/
lemma splitOnce?_eq_none_iff : splitOnce? x cs = none ↔ x ∉ cs := by
  induction cs with
  | nil => simp [splitOnce?]
  | cons c cs ih =>
    by_cases hc : c = x
    · simp [splitOnce?, hc]
    · simp [splitOnce?, hc, Ne.symm hc, ih]

/-- Cutting at a character gives the parts before and behind its first occurrence. -/
lemma splitOnce?_eq_some_iff :
    splitOnce? x cs = some (before, rest) ↔ x ∉ before ∧ cs = before ++ x :: rest := by
  refine ⟨fun h => ?_, fun ⟨hx, hcs⟩ => hcs ▸ splitOnce?_append hx rest⟩
  have hmem : x ∈ cs := by
    by_contra hnone
    rw [splitOnce?_eq_none_iff.mpr hnone] at h
    cases h
  obtain ⟨before', rest', rfl, hx⟩ := List.eq_append_cons_of_mem hmem
  rw [splitOnce?_append hx] at h
  obtain ⟨rfl, rfl⟩ := Prod.mk.inj (Option.some.inj h)
  exact ⟨hx, rfl⟩

/-- A beginning does not reach beyond a character that it does not hold. -/
lemma afterBeginning?_append_cons (hx : x ∉ pattern) (cs ds : List Char) :
    afterBeginning? pattern (cs ++ x :: ds) = (afterBeginning? pattern cs).map (· ++ x :: ds) := by
  induction pattern generalizing cs with
  | nil => rfl
  | cons b pattern ih =>
    rw [List.mem_cons, not_or] at hx
    cases cs with
    | nil => simp [afterBeginning?, Ne.symm hx.1]
    | cons c cs =>
      simp only [List.cons_append, afterBeginning?]
      split_ifs
      · exact ih hx.2 cs
      · rfl

/-- What follows a beginning makes up the text with it. -/
lemma afterBeginning?_eq_some_iff :
    afterBeginning? pattern cs = some rest ↔ cs = pattern ++ rest := by
  induction pattern generalizing cs with
  | nil => simp [afterBeginning?]
  | cons b pattern ih =>
    cases cs with
    | nil => simp [afterBeginning?]
    | cons c cs =>
      simp only [afterBeginning?, List.cons_append, List.cons_eq_cons]
      split_ifs with hbc
      · rw [ih]
        simp [hbc]
      · simp [Ne.symm hbc]

/-! ### Searching -/

/-- A pattern at the front is found there. -/
lemma splitAtInfix?_append (hne : pattern ≠ []) (rest : List Char) :
    splitAtInfix? pattern (pattern ++ rest) = some ([], pattern ++ rest) := by
  cases pattern with
  | nil => exact absurd rfl hne
  | cons b pattern =>
    have hfront : (b :: pattern).isPrefixOf (b :: (pattern ++ rest)) = true :=
      List.isPrefixOf_iff_prefix.mpr ⟨rest, rfl⟩
    rw [List.cons_append, splitAtInfix?, if_pos hfront]

/-- A pattern that does not stand at the front is looked for behind the first character. -/
lemma splitAtInfix?_cons_of_not_isPrefix (h : ¬ pattern <+: c :: cs) :
    splitAtInfix? pattern (c :: cs) =
      (splitAtInfix? pattern cs).map fun (before, found) => (c :: before, found) := by
  rw [splitAtInfix?, if_neg (by rwa [List.isPrefixOf_iff_prefix])]

/-- A pattern is found if it occurs. -/
lemma hasInfix_append (hne : pattern ≠ []) (before rest : List Char) :
    hasInfix pattern (before ++ pattern ++ rest) = true := by
  induction before with
  | nil => rw [List.nil_append, hasInfix, splitAtInfix?_append hne]; rfl
  | cons c before ih =>
    rw [hasInfix] at ih ⊢
    rw [List.cons_append, List.cons_append]
    by_cases h : pattern <+: c :: (before ++ pattern ++ rest)
    · rw [splitAtInfix?, if_pos (List.isPrefixOf_iff_prefix.mpr h)]
      rfl
    · rw [splitAtInfix?_cons_of_not_isPrefix h, Option.isSome_map]
      exact ih

/-! ### Replacing -/

/-- The characters left of an occurrence are passed over. -/
lemma replaceFrom_eq_drop (pattern replacement : List Char) (skip : Nat) (cs : List Char) :
    replaceFrom pattern replacement skip cs = replaceAll pattern replacement (cs.drop skip) := by
  induction skip generalizing cs with
  | zero => rfl
  | succ skip ih =>
    cases cs with
    | nil => rfl
    | cons c cs => exact ih cs

/-- A pattern at the front is replaced. -/
lemma replaceAll_append (hne : pattern ≠ []) (replacement rest : List Char) :
    replaceAll pattern replacement (pattern ++ rest) =
      replacement ++ replaceAll pattern replacement rest := by
  cases pattern with
  | nil => exact absurd rfl hne
  | cons b pattern =>
    have hfront : (b :: pattern).isPrefixOf (b :: (pattern ++ rest)) = true :=
      List.isPrefixOf_iff_prefix.mpr ⟨rest, rfl⟩
    rw [replaceAll, List.cons_append, replaceFrom, if_pos hfront, replaceFrom_eq_drop,
      List.length_cons, Nat.add_sub_cancel, List.drop_left]

/-- A character at which the pattern does not stand is kept. -/
lemma replaceAll_cons_of_not_isPrefix (h : ¬ pattern <+: c :: cs) (replacement : List Char) :
    replaceAll pattern replacement (c :: cs) = c :: replaceAll pattern replacement cs := by
  rw [replaceAll, replaceFrom, if_neg (by rwa [List.isPrefixOf_iff_prefix]), replaceAll]

/-- A text in which the pattern does not occur is kept. -/
lemma replaceAll_of_not_isInfix (h : ¬ pattern <:+: cs) (replacement : List Char) :
    replaceAll pattern replacement cs = cs := by
  induction cs with
  | nil => rfl
  | cons c cs ih =>
    rw [replaceAll_cons_of_not_isPrefix fun hfront => h hfront.isInfix,
      ih fun hfound => h (hfound.trans (List.suffix_cons c cs).isInfix)]

/-! ### Copies at an end -/

/-- Characters that are skipped might as well not be there. -/
lemma dropCopiesFrom_eq (pattern : List Char) (skip : Nat) (cs : List Char) :
    dropCopiesFrom pattern skip cs = dropCopiesFrom pattern 0 (cs.drop skip) := by
  induction cs generalizing skip with
  | nil => simp [dropCopiesFrom]
  | cons c cs ih =>
    cases skip with
    | zero => rfl
    | succ skip => rw [dropCopiesFrom, ih, List.drop_succ_cons]

/-- A copy at the front is taken off. -/
lemma dropLeadingCopies_append (hpattern : pattern ≠ []) (cs : List Char) :
    dropLeadingCopies pattern (pattern ++ cs) = dropLeadingCopies pattern cs := by
  obtain ⟨p, ps, rfl⟩ := List.exists_cons_of_ne_nil hpattern
  have hfront : (p :: ps).isPrefixOf (p :: (ps ++ cs)) = true := by
    rw [List.isPrefixOf_iff_prefix]
    exact List.prefix_append (p :: ps) cs
  rw [dropLeadingCopies, dropLeadingCopies, List.cons_append, dropCopiesFrom, if_pos hfront,
    dropCopiesFrom_eq]
  simp

/-- Without a copy at the front nothing is taken off. -/
lemma dropLeadingCopies_of_not_prefix (h : ¬pattern <+: cs) :
    dropLeadingCopies pattern cs = cs := by
  cases cs with
  | nil => rfl
  | cons c cs => rw [dropLeadingCopies, dropCopiesFrom, if_neg (by simpa using h)]

/-- The only copy at the end is taken off. -/
lemma dropTrailingCopies_append (hpattern : pattern ≠ []) (h : ¬pattern <:+ cs) :
    dropTrailingCopies pattern (cs ++ pattern) = cs := by
  rw [dropTrailingCopies, List.reverse_append, dropLeadingCopies_append (by simpa using hpattern),
    dropLeadingCopies_of_not_prefix (by rwa [List.reverse_prefix]), List.reverse_reverse]

/-- No copy is left at the front. -/
lemma not_prefix_dropCopiesFrom (hpattern : pattern ≠ []) (skip : Nat) (cs : List Char) :
    ¬pattern <+: dropCopiesFrom pattern skip cs := by
  induction cs generalizing skip with
  | nil => simpa [dropCopiesFrom] using hpattern
  | cons c cs ih =>
    cases skip with
    | zero =>
      rw [dropCopiesFrom]
      split_ifs with hfront
      · exact ih _
      · simpa using hfront
    | succ skip => exact ih skip

end CodeAtlas
