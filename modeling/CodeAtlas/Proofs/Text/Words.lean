import CodeAtlas.Proofs.Text.Lines
import CodeAtlas.Text.WordChar
import Mathlib.Data.List.Induction

/-!
# Words and single spaces

A blank parts the words of a text, and everything about words follows from that
(`wordsOf_append_cons`).  Joining the words by single spaces forgets how many blanks stood between
them, but not where they stood.  This is made precise by reading a text from the left and writing
down one space for each run of blanks (`singleSpaced`): what is written for a text that is cut in
two is what is written for the first part and then for the second, and a text in which something is
found after it has been rewritten has the same thing at a corresponding place.
-/

namespace CodeAtlas

variable {c x : Char} {cs ds w rest : List Char} {behind : Bool}

/-! ### Words -/

/-- A blank parts the words. -/
lemma wordsOf_append_cons (hc : isBlank c = true) (cs ds : List Char) :
    wordsOf (cs ++ c :: ds) = wordsOf cs ++ wordsOf ds := by
  rw [wordsOf, splitAtClass_append_cons hc, List.filter_append, wordsOf, wordsOf]

/-- A blank at the front belongs to no word. -/
lemma wordsOf_cons_of_blank (hc : isBlank c = true) (cs : List Char) :
    wordsOf (c :: cs) = wordsOf cs := by
  rw [← List.nil_append (c :: cs), wordsOf_append_cons hc]
  rfl

/-- A text without blanks is one word. -/
lemma wordsOf_of_none (hne : w ≠ []) (h : ∀ c ∈ w, isBlank c = false) : wordsOf w = [w] := by
  rw [wordsOf, splitAtClass_of_none h]
  simp [hne]

/-- Blanks at the end belong to no word. -/
lemma wordsOf_append_of_blank (cs : List Char) (h : ∀ c ∈ ds, isBlank c = true) :
    wordsOf (cs ++ ds) = wordsOf cs := by
  induction ds using List.reverseRecOn with
  | nil => rw [List.append_nil]
  | append_singleton ds d ih =>
    rw [List.forall_mem_append] at h
    rw [← List.append_assoc, wordsOf_append_cons (h.2 d List.mem_cons_self), ih h.1]
    exact List.append_nil _

/-- A text with a word has a character that is not blank. -/
lemma exists_not_blank (h : wordsOf cs ≠ []) : ∃ c ∈ cs, isBlank c = false := by
  by_contra hnone
  push Not at hnone
  refine h ?_
  rw [← List.nil_append cs, wordsOf_append_of_blank [] fun c hc => by simpa using hnone c hc]
  rfl

/-- The code points of the blanks. -/
def blankCodes : List Nat :=
  [9, 10, 11, 12, 13, 0x20, 0x85, 0xA0, 0x1680, 0x2000, 0x2001, 0x2002, 0x2003, 0x2004, 0x2005,
    0x2006, 0x2007, 0x2008, 0x2009, 0x200A, 0x2028, 0x2029, 0x202F, 0x205F, 0x3000]

/-- A blank has one of these code points. -/
lemma toNat_mem_blankCodes (h : isBlank c = true) : c.toNat ∈ blankCodes := by
  simp only [isBlank, Bool.or_eq_true, Bool.and_eq_true, decide_eq_true_eq, beq_iff_eq] at h
  simp only [blankCodes, List.mem_cons, List.not_mem_nil, or_false]
  omega

/-- A character of a word is not blank: the blanks are few, and none of them is in the table. -/
lemma isBlank_eq_false_of_isWordCharacter (h : isWordCharacter c = true) : isBlank c = false := by
  have hnone : ∀ n ∈ blankCodes, isWordCharacter (Char.ofNat n) = false := by decide +kernel
  by_contra hblank
  rw [Bool.not_eq_false] at hblank
  have hword := hnone c.toNat (toNat_mem_blankCodes hblank)
  rw [Char.ofNat_toNat, h] at hword
  cases hword

/-- A character that is not blank is in the words as often as in the text. -/
lemma count_flatten_wordsOf (hx : isBlank x = false) (cs : List Char) :
    (wordsOf cs).flatten.count x = cs.count x := by
  have hfilter : ∀ pieces : List (List Char),
      (pieces.filter fun w => !w.isEmpty).flatten = pieces.flatten := by
    intro pieces
    induction pieces with
    | nil => rfl
    | cons piece pieces ih => cases piece <;> simp [ih]
  rw [wordsOf, hfilter]
  induction cs with
  | nil => rfl
  | cons c cs ih =>
    rw [splitAtClass, List.count_cons, ← ih]
    cases hc : isBlank c with
    | true =>
      have hne : c ≠ x := by
        rintro rfl
        rw [hc] at hx
        cases hx
      simp [hne]
    | false =>
      cases hpieces : splitAtClass isBlank cs with
      | nil => exact absurd hpieces (splitAtClass_ne_nil isBlank cs)
      | cons piece pieces => simp [List.count_cons]

/-- A character that is not in what stands between joined texts is in the texts only. -/
lemma count_intercalate {sep : List Char} (hx : x ∉ sep) (texts : List (List Char)) :
    (sep.intercalate texts).count x = texts.flatten.count x := by
  induction texts with
  | nil => rfl
  | cons text texts ih =>
    by_cases hne : texts = []
    · simp [hne]
    · rw [List.intercalate_cons_of_ne_nil hne, List.count_append, List.count_append, ih,
        List.count_eq_zero_of_not_mem hx, List.flatten_cons, List.count_append, Nat.add_zero]

/-! ### Runs of blanks -/

/-- The text with one space for each run of blanks.  A run that begins before the text, which is
told first, counts as written already. -/
def singleSpaced : Bool → List Char → List Char
  | _, [] => []
  | behind, c :: cs =>
    if isBlank c then
      if behind then singleSpaced true cs else ' ' :: singleSpaced true cs
    else c :: singleSpaced false cs

/-- A blank behind a blank is not written. -/
lemma singleSpaced_true_cons (hc : isBlank c = true) (cs : List Char) :
    singleSpaced true (c :: cs) = singleSpaced true cs := by
  simp [singleSpaced, hc]

/-- A blank behind another character is written as a space. -/
lemma singleSpaced_false_cons (hc : isBlank c = true) (cs : List Char) :
    singleSpaced false (c :: cs) = ' ' :: singleSpaced true cs := by
  simp [singleSpaced, hc]

/-- Another character is written as it is. -/
lemma singleSpaced_cons_of_neg (hc : isBlank c = false) (behind : Bool) (cs : List Char) :
    singleSpaced behind (c :: cs) = c :: singleSpaced false cs := by
  simp [singleSpaced, hc]

/-- Whether a blank stands right before what follows a text. -/
def endsBlank : Bool → List Char → Bool
  | behind, [] => behind
  | _, c :: cs => endsBlank (isBlank c) cs

/-- A text may be cut in two. -/
lemma singleSpaced_append (behind : Bool) (cs ds : List Char) :
    singleSpaced behind (cs ++ ds) =
      singleSpaced behind cs ++ singleSpaced (endsBlank behind cs) ds := by
  induction cs generalizing behind with
  | nil => rfl
  | cons c cs ih =>
    simp only [List.cons_append, singleSpaced, endsBlank]
    cases hc : isBlank c <;> cases behind <;> simp [ih]

/-- Blanks behind a blank are not written. -/
lemma singleSpaced_of_blank (h : ∀ c ∈ cs, isBlank c = true) : singleSpaced true cs = [] := by
  induction cs with
  | nil => rfl
  | cons c cs ih =>
    rw [List.forall_mem_cons] at h
    rw [singleSpaced_true_cons h.1, ih h.2]

/-- Blanks behind another character are written as a space. -/
lemma singleSpaced_false_of_blank (h : ∀ c ∈ cs, isBlank c = true) :
    singleSpaced false cs = [] ∨ singleSpaced false cs = [' '] := by
  cases cs with
  | nil => exact .inl rfl
  | cons c cs =>
    rw [List.forall_mem_cons] at h
    exact .inr (by rw [singleSpaced_false_cons h.1, singleSpaced_of_blank h.2])

/-- A word is written as it is. -/
lemma singleSpaced_append_of_none (hne : w ≠ []) (h : ∀ c ∈ w, isBlank c = false)
    (behind : Bool) (cs : List Char) :
    singleSpaced behind (w ++ cs) = w ++ singleSpaced false cs := by
  induction w generalizing behind with
  | nil => exact absurd rfl hne
  | cons c w ih =>
    rw [List.forall_mem_cons] at h
    rw [List.cons_append, singleSpaced_cons_of_neg h.1]
    by_cases hw : w = []
    · rw [hw, List.nil_append, List.singleton_append]
    · rw [ih hw h.2, List.cons_append]

/-- Nothing is added. -/
lemma length_singleSpaced_le (behind : Bool) (cs : List Char) :
    (singleSpaced behind cs).length ≤ cs.length := by
  induction cs generalizing behind with
  | nil => exact Nat.le_refl _
  | cons c cs ih =>
    have htrue := ih true
    have hfalse := ih false
    simp only [singleSpaced]
    split_ifs <;> simp only [List.length_cons] <;> omega

/-- The words are kept.  The induction carries along the word that the text may continue. -/
lemma wordsOf_append_singleSpaced (cs : List Char) :
    wordsOf (singleSpaced true cs) = wordsOf cs ∧
      ∀ w : List Char, wordsOf (w ++ singleSpaced false cs) = wordsOf (w ++ cs) := by
  induction cs with
  | nil => exact ⟨rfl, fun _ => rfl⟩
  | cons c cs ih =>
    cases hc : isBlank c with
    | true =>
      refine ⟨by rw [singleSpaced_true_cons hc, wordsOf_cons_of_blank hc, ih.1], fun w => ?_⟩
      rw [singleSpaced_false_cons hc, wordsOf_append_cons (by rfl), wordsOf_append_cons hc, ih.1]
    | false =>
      refine ⟨by rw [singleSpaced_cons_of_neg hc]; exact ih.2 [c], fun w => ?_⟩
      rw [singleSpaced_cons_of_neg hc, List.append_cons, ih.2, ← List.append_cons]

/-- The words are kept. -/
lemma wordsOf_singleSpaced (cs : List Char) : wordsOf (singleSpaced true cs) = wordsOf cs :=
  (wordsOf_append_singleSpaced cs).1

/-- A text is words joined by spaces, and behind the last of them there may be one more space. -/
def Joins (words : List (List Char)) (text : List Char) : Prop :=
  ∃ trail, (trail = [] ∨ trail = [' ']) ∧ (words = [] → trail = []) ∧
    text = [' '].intercalate words ++ trail

/-- One more word goes in front. -/
lemma Joins.cons {words : List (List Char)} {text : List Char} (h : Joins words text)
    (w : List Char) : Joins (w :: words) (w ++ ' ' :: text) := by
  obtain ⟨trail, htrail, hnone, rfl⟩ := h
  by_cases hwords : words = []
  · exact ⟨[' '], .inr rfl, by simp, by simp [hwords, hnone hwords]⟩
  · refine ⟨trail, htrail, by simp, ?_⟩
    rw [List.intercalate_cons_of_ne_nil hwords, List.append_assoc, List.append_assoc,
      List.singleton_append]

/-- What is written is the words joined by spaces.  The induction carries along the word that the
text may continue. -/
lemma joins_append_singleSpaced (cs : List Char) :
    Joins (wordsOf cs) (singleSpaced true cs) ∧
      ∀ w, w ≠ [] → (∀ c ∈ w, isBlank c = false) →
        Joins (wordsOf (w ++ cs)) (w ++ singleSpaced false cs) := by
  induction cs with
  | nil =>
    refine ⟨⟨[], .inl rfl, fun _ => rfl, rfl⟩, fun w hne hw => ⟨[], .inl rfl, fun _ => rfl, ?_⟩⟩
    simp [singleSpaced, wordsOf_of_none hne hw]
  | cons c cs ih =>
    cases hc : isBlank c with
    | true =>
      rw [singleSpaced_true_cons hc, wordsOf_cons_of_blank hc]
      refine ⟨ih.1, fun w hne hw => ?_⟩
      rw [singleSpaced_false_cons hc, wordsOf_append_cons hc, wordsOf_of_none hne hw]
      exact ih.1.cons w
    | false =>
      rw [singleSpaced_cons_of_neg hc, singleSpaced_cons_of_neg hc]
      refine ⟨ih.2 [c] (by simp) (by simpa using hc), fun w _ hw => ?_⟩
      rw [List.append_cons, List.append_cons w c (singleSpaced false cs)]
      refine ih.2 (w ++ [c]) (by simp) ?_
      rw [List.forall_mem_append]
      exact ⟨hw, by simpa using hc⟩

/-- What is written is the words joined by spaces, and a space behind them if the text ends with a
blank. -/
lemma singleSpaced_eq_intercalate (cs : List Char) :
    ∃ trail, (trail = [] ∨ trail = [' ']) ∧
      singleSpaced true cs = [' '].intercalate (wordsOf cs) ++ trail := by
  obtain ⟨trail, htrail, -, heq⟩ := (joins_append_singleSpaced cs).1
  exact ⟨trail, htrail, heq⟩

/-! ### From what is written to the text -/

/-- A text of which only blanks are written has only blanks. -/
lemma forall_isBlank_of_singleSpaced (h : ∀ c ∈ singleSpaced behind cs, isBlank c = true) :
    ∀ c ∈ cs, isBlank c = true := by
  induction cs generalizing behind with
  | nil => simp
  | cons c cs ih =>
    rw [List.forall_mem_cons]
    cases hc : isBlank c with
    | true =>
      have hrest : ∀ d ∈ singleSpaced true cs, isBlank d = true := fun d hd =>
        h d (by cases behind <;> simp [singleSpaced, hc, hd])
      exact ⟨rfl, ih hrest⟩
    | false =>
      have hwritten := h c (by simp [singleSpaced, hc])
      rw [hc] at hwritten
      cases hwritten

/-- A cut of what is written is a cut of the text. -/
lemma exists_of_singleSpaced_eq_append (h : singleSpaced behind cs = ds ++ rest) :
    ∃ us vs, cs = us ++ vs ∧ singleSpaced behind us = ds ∧
      singleSpaced (endsBlank behind us) vs = rest := by
  induction cs generalizing behind ds with
  | nil =>
    obtain ⟨rfl, rfl⟩ := List.append_eq_nil_iff.mp h.symm
    exact ⟨[], [], rfl, rfl, rfl⟩
  | cons c cs ih =>
    cases ds with
    | nil => exact ⟨[], c :: cs, rfl, rfl, h⟩
    | cons d ds =>
      cases hc : isBlank c with
      | true =>
        cases behind with
        | true =>
          rw [singleSpaced_true_cons hc] at h
          obtain ⟨us, vs, rfl, hus, hvs⟩ := ih h
          exact ⟨c :: us, vs, rfl, by rw [singleSpaced_true_cons hc, hus],
            by rw [endsBlank, hc, hvs]⟩
        | false =>
          rw [singleSpaced_false_cons hc, List.cons_append] at h
          obtain ⟨rfl, hrest⟩ := List.cons_eq_cons.mp h
          obtain ⟨us, vs, rfl, hus, hvs⟩ := ih hrest
          exact ⟨c :: us, vs, rfl, by rw [singleSpaced_false_cons hc, hus],
            by rw [endsBlank, hc, hvs]⟩
      | false =>
        rw [singleSpaced_cons_of_neg hc, List.cons_append] at h
        obtain ⟨rfl, hrest⟩ := List.cons_eq_cons.mp h
        obtain ⟨us, vs, rfl, hus, hvs⟩ := ih hrest
        exact ⟨c :: us, vs, rfl, by rw [singleSpaced_cons_of_neg hc, hus],
          by rw [endsBlank, hc, hvs]⟩

/-- Where a character that is not blank is written first, only blanks that are not written stand
before it. -/
lemma exists_of_singleSpaced_eq_cons (hx : isBlank x = false)
    (h : singleSpaced behind cs = x :: rest) :
    ∃ blanks ds, cs = blanks ++ x :: ds ∧ (∀ c ∈ blanks, isBlank c = true) ∧
      singleSpaced behind blanks = [] ∧ singleSpaced false ds = rest := by
  induction cs generalizing behind with
  | nil => cases h
  | cons c cs ih =>
    cases hc : isBlank c with
    | true =>
      cases behind with
      | true =>
        rw [singleSpaced_true_cons hc] at h
        obtain ⟨blanks, ds, rfl, hblanks, hnil, hrest⟩ := ih h
        have hall : ∀ d ∈ c :: blanks, isBlank d = true := List.forall_mem_cons.mpr ⟨hc, hblanks⟩
        exact ⟨c :: blanks, ds, rfl, hall, singleSpaced_of_blank hall, hrest⟩
      | false =>
        rw [singleSpaced_false_cons hc] at h
        rw [← (List.cons_eq_cons.mp h).1] at hx
        cases hx
    | false =>
      rw [singleSpaced_cons_of_neg hc] at h
      obtain ⟨rfl, hrest⟩ := List.cons_eq_cons.mp h
      exact ⟨[], cs, rfl, by simp, by cases behind <;> rfl, hrest⟩

/-- Where a word is written behind a character that is not blank, it stands there. -/
lemma exists_of_singleSpaced_false_eq_append (h : ∀ c ∈ w, isBlank c = false)
    (heq : singleSpaced false cs = w ++ rest) :
    ∃ ds, cs = w ++ ds ∧ singleSpaced false ds = rest := by
  induction w generalizing cs with
  | nil => exact ⟨cs, rfl, heq⟩
  | cons x w ih =>
    rw [List.forall_mem_cons] at h
    obtain ⟨blanks, ds, rfl, hblanks, hnil, hrest⟩ := exists_of_singleSpaced_eq_cons h.1 heq
    obtain ⟨ds, rfl, hds⟩ := ih h.2 hrest
    cases blanks with
    | nil => exact ⟨ds, rfl, hds⟩
    | cons c blanks =>
      rw [List.forall_mem_cons] at hblanks
      rw [singleSpaced_false_cons hblanks.1] at hnil
      cases hnil

end CodeAtlas
