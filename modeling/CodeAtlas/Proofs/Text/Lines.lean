import CodeAtlas.Text.Lines
import Mathlib.Data.List.Basic
import Mathlib.Data.List.Induction

/-!
# Pieces and lines

A text that is cut at the characters of a class falls apart at each of them, so cutting is read from
the left, piece by piece.  Its lines are the pieces between line feeds: a line feed ends the first
of them (`linesOf_append_lineFeed`), less the carriage return that may stand before it.
-/

namespace CodeAtlas

variable {c : Char}

/-! ### Pieces -/

/-- Cutting at a character of the class parts the list there. -/
lemma splitAtClass_append_cons {p : Char → Bool} {x : Char} (hx : p x = true) (cs ds : List Char) :
    splitAtClass p (cs ++ x :: ds) = splitAtClass p cs ++ splitAtClass p ds := by
  induction cs with
  | nil => simp [splitAtClass, hx]
  | cons c cs ih =>
    by_cases hc : p c
    · simp [splitAtClass, hc, ih]
    · simp only [List.cons_append, splitAtClass, hc, Bool.false_eq_true, if_false, ih]
      cases h : splitAtClass p cs with
      | nil => exact absurd h (splitAtClass_ne_nil p cs)
      | cons piece pieces => rfl

/-- A list without characters of the class is one piece. -/
lemma splitAtClass_of_none {p : Char → Bool} {cs : List Char} (h : ∀ c ∈ cs, p c = false) :
    splitAtClass p cs = [cs] := by
  induction cs with
  | nil => rfl
  | cons c cs ih =>
    rw [List.forall_mem_cons] at h
    simp [splitAtClass, h.1, ih h.2]

/-- A list without a character is one piece when it is cut at that character. -/
lemma splitAtClass_of_not_mem {x : Char} {cs : List Char} (h : x ∉ cs) :
    splitAtClass (· == x) cs = [cs] := by
  refine splitAtClass_of_none fun c hc => ?_
  simpa using fun heq : c = x => h (heq ▸ hc)

/-- Pieces hold no character of the class at which they were cut. -/
lemma not_of_mem_splitAtClass {p : Char → Bool} {cs piece : List Char}
    (h : piece ∈ splitAtClass p cs) : ∀ c ∈ piece, p c = false := by
  induction cs generalizing piece with
  | nil => simp_all [splitAtClass]
  | cons c cs ih =>
    by_cases hc : p c
    · rw [splitAtClass, if_pos hc, List.mem_cons] at h
      rcases h with rfl | h
      · simp
      · exact ih h
    · cases hcut : splitAtClass p cs with
      | nil => exact absurd hcut (splitAtClass_ne_nil p cs)
      | cons first rest =>
        rw [hcut] at ih
        simp only [splitAtClass, hc, hcut, Bool.false_eq_true, if_false, List.mem_cons] at h
        rcases h with rfl | h
        · rw [List.forall_mem_cons]
          exact ⟨by simpa using hc, ih List.mem_cons_self⟩
        · exact ih (List.mem_cons_of_mem _ h)

/-- Characters that are not cut at belong to the last piece. -/
lemma splitAtClass_append_of_none {p : Char → Bool} (cs : List Char) {ds : List Char}
    (h : ∀ d ∈ ds, p d = false) :
    ∃ front last, splitAtClass p cs = front ++ [last] ∧
      splitAtClass p (cs ++ ds) = front ++ [last ++ ds] := by
  induction cs with
  | nil => exact ⟨[], [], rfl, splitAtClass_of_none h⟩
  | cons c cs ih =>
    obtain ⟨front, last, hcut, hcut'⟩ := ih
    by_cases hc : p c
    · exact ⟨[] :: front, last, by simp [splitAtClass, hc, hcut], by simp [splitAtClass, hc, hcut']⟩
    · cases front with
      | nil =>
        exact ⟨[], c :: last, by simp [splitAtClass, hc, hcut], by simp [splitAtClass, hc, hcut']⟩
      | cons first front =>
        exact ⟨(c :: first) :: front, last, by simp [splitAtClass, hc, hcut],
          by simp [splitAtClass, hc, hcut']⟩

/-! ### Carriage returns at the ends of lines -/

/-- A line is kept, or a carriage return is taken off its end. -/
lemma dropReturn_cases (line : List Char) :
    dropReturn line = line ∨ line = dropReturn line ++ ['\r'] := by
  rw [dropReturn]
  split
  · rename_i rest heq
    right
    rw [← List.reverse_cons, ← heq, List.reverse_reverse]
  · exact .inl rfl

/-- A line with no carriage return in its last part is kept. -/
lemma dropReturn_append {after : List Char} (hne : after ≠ []) (h : '\r' ∉ after)
    (before : List Char) : dropReturn (before ++ after) = before ++ after := by
  refine (dropReturn_cases (before ++ after)).resolve_right fun heq => h ?_
  have hlast : (before ++ after).getLast? = some '\r' := by rw [heq, List.getLast?_concat]
  rw [List.getLast?_append_of_ne_nil _ hne] at hlast
  exact List.mem_of_mem_getLast? hlast

/-- A carriage return at the end is dropped whatever stands before it. -/
lemma dropReturn_cons (hc : c ≠ '\r') (cs : List Char) :
    dropReturn (c :: cs) = c :: dropReturn cs := by
  cases cs using List.reverseRecOn with
  | nil => simp [dropReturn, hc]
  | append_singleton cs d =>
    simp only [dropReturn, List.reverse_cons, List.reverse_append, List.reverse_nil,
      List.nil_append, List.cons_append]
    split
    · rename_i rest hrest
      obtain ⟨rfl, rfl⟩ := List.cons_eq_cons.mp hrest
      simp
    · rename_i hother
      split
      · rename_i rest hrest
        exact absurd (by rw [(List.cons_eq_cons.mp hrest).1]) (hother (cs.reverse ++ [c]))
      · rfl

/-! ### Lines -/

/-- A line feed ends the first line. -/
lemma linesOf_append_lineFeed {line : List Char} (h : '\n' ∉ line) (rest : List Char) :
    linesOf (line ++ '\n' :: rest) = dropReturn line :: linesOf rest := by
  rw [linesOf, splitAtClass_append_cons (by rfl), splitAtClass_of_not_mem h,
    List.singleton_append, linesOfPieces, linesOf]
  exact splitAtClass_ne_nil _ _

/-- A line feed at the front ends an empty line. -/
lemma linesOf_lineFeed (cs : List Char) : linesOf ('\n' :: cs) = [] :: linesOf cs :=
  linesOf_append_lineFeed List.not_mem_nil cs

/-- So does a carriage return before it. -/
lemma linesOf_return_lineFeed (cs : List Char) :
    linesOf ('\r' :: '\n' :: cs) = [] :: linesOf cs := by
  have hreturn : '\n' ∉ ['\r'] := by decide
  exact linesOf_append_lineFeed hreturn cs

/-- Another character at the front belongs to the first line. -/
lemma linesOf_cons (hfeed : c ≠ '\n') (hreturn : c ≠ '\r') (cs : List Char) :
    linesOf (c :: cs) =
      match linesOf cs with
      | [] => [[c]]
      | line :: lines => (c :: line) :: lines := by
  rw [linesOf, linesOf, splitAtClass, if_neg (by simpa using hfeed)]
  cases splitAtClass (· == '\n') cs with
  | nil => rfl
  | cons piece pieces =>
    cases pieces with
    | nil => cases piece <;> rfl
    | cons piece' pieces => simp only [linesOfPieces, dropReturn_cons hreturn]

end CodeAtlas
