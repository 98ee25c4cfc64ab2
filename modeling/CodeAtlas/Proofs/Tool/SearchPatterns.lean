import CodeAtlas.Proofs.Text.Search
import CodeAtlas.Proofs.Text.Trimming
import CodeAtlas.Tool.Tags

/-!
# Source lines in search patterns

A tag stream tells where a definition stands by a search for its line: the whole line between `/^`
and `$/`, with a backslash before every backslash and every slash of it.  The line is recorded as
the declaration of the symbol.

The escapes of slashes are undone, those of backslashes are not, so what is recorded has every
backslash of the line twice (`replaceAll_escaped`).  Besides, a caret at the beginning of the line
and a dollar sign at its end are taken for anchors.  `patternText_searchCommand_iff` says that there
are no other losses: a line is recorded as it is, up to blanks at its ends, exactly if none of these
three occurs.
-/

namespace CodeAtlas.TagEntry

variable {c : Char} {cs : List Char}

/-- A character of a line as it stands in a search pattern. -/
def escapeInPattern (c : Char) : List Char := if c = '\\' ∨ c = '/' then ['\\', c] else [c]

/-- A text with every backslash twice. -/
def doubleBackslashes (cs : List Char) : List Char :=
  cs.flatMap fun c => if c = '\\' then ['\\', '\\'] else [c]

/-- The command that searches for a line. -/
def searchCommand (line : String) : String :=
  String.ofList ('/' :: '^' :: line.toList.flatMap escapeInPattern ++ ['$', '/'])

/-! ### Escapes -/

/-- An escaped text does not begin with a slash. -/
lemma not_isPrefix_escaped (cs : List Char) : ¬ ['/'] <+: cs.flatMap escapeInPattern := by
  cases cs with
  | nil => simp
  | cons c cs =>
    by_cases hescaped : c = '\\' ∨ c = '/'
    · simp [escapeInPattern, hescaped]
    · have hslash : '/' ≠ c := fun h => hescaped (.inr h.symm)
      simp [escapeInPattern, hescaped, hslash]

/-- The escapes of slashes are undone, and those of backslashes stay. -/
lemma replaceAll_escaped (cs : List Char) :
    replaceAll ['\\', '/'] ['/'] (cs.flatMap escapeInPattern) = doubleBackslashes cs := by
  induction cs with
  | nil => rfl
  | cons c cs ih =>
    rw [List.flatMap_cons, doubleBackslashes, List.flatMap_cons, ← doubleBackslashes, ← ih]
    by_cases hslash : c = '/'
    · subst hslash
      have hescape : ['\\', '/'] ≠ [] := by simp
      exact replaceAll_append hescape ['/'] _
    by_cases hbackslash : c = '\\'
    · subst hbackslash
      -- Neither the escape nor the backslash behind it has a slash right behind it.
      have hfirst : ¬ ['\\', '/'] <+: '\\' :: '\\' :: cs.flatMap escapeInPattern := by simp
      have hsecond : ¬ ['\\', '/'] <+: '\\' :: cs.flatMap escapeInPattern := by
        rw [List.cons_prefix_cons]
        exact fun h => not_isPrefix_escaped cs h.2
      have hescape : escapeInPattern '\\' ++ cs.flatMap escapeInPattern =
          '\\' :: '\\' :: cs.flatMap escapeInPattern := rfl
      rw [hescape, replaceAll_cons_of_not_isPrefix hfirst,
        replaceAll_cons_of_not_isPrefix hsecond]
      rfl
    · have hfront : ¬ ['\\', '/'] <+: c :: cs.flatMap escapeInPattern := by
        rw [List.cons_prefix_cons]
        exact fun h => hbackslash h.1.symm
      have hescape : escapeInPattern c = [c] := by simp [escapeInPattern, hslash, hbackslash]
      rw [hescape, List.singleton_append, replaceAll_cons_of_not_isPrefix hfront,
        if_neg hbackslash, List.singleton_append]

/-- A character that needs no escape is trimmed on the left of the text itself. -/
lemma trimLeftBy_escaped (hbackslash : c ≠ '\\') (hslash : c ≠ '/') (cs : List Char) :
    trimLeftBy (· == c) (cs.flatMap escapeInPattern) =
      (trimLeftBy (· == c) cs).flatMap escapeInPattern := by
  induction cs with
  | nil => rfl
  | cons d cs ih =>
    by_cases hd : d = c
    · subst hd
      have hescape : escapeInPattern d = [d] := by simp [escapeInPattern, hslash, hbackslash]
      rw [List.flatMap_cons, hescape, List.singleton_append, trimLeftBy_cons_of_pos (by simp),
        trimLeftBy_cons_of_pos (by simp), ih]
    · rw [trimLeftBy_cons_of_neg (by simpa using hd), List.flatMap_cons]
      by_cases hescaped : d = '\\' ∨ d = '/'
      · rw [escapeInPattern, if_pos hescaped, List.cons_append]
        exact trimLeftBy_cons_of_neg (by simpa using Ne.symm hbackslash)
      · rw [escapeInPattern, if_neg hescaped, List.singleton_append]
        exact trimLeftBy_cons_of_neg (by simpa using hd)

/-- A character that needs no escape is trimmed on the right of the text itself. -/
lemma trimRightBy_escaped (hbackslash : c ≠ '\\') (hslash : c ≠ '/') (cs : List Char) :
    trimRightBy (· == c) (cs.flatMap escapeInPattern) =
      (trimRightBy (· == c) cs).flatMap escapeInPattern := by
  induction cs using List.reverseRecOn with
  | nil => rfl
  | append_singleton cs d ih =>
    -- The last character of an escaped text is that of the text.
    obtain ⟨escape, hescape⟩ : ∃ escape, escapeInPattern d = escape ++ [d] := by
      by_cases hescaped : d = '\\' ∨ d = '/'
      · exact ⟨['\\'], by simp [escapeInPattern, hescaped]⟩
      · exact ⟨[], by simp [escapeInPattern, hescaped]⟩
    rw [List.flatMap_append, List.flatMap_singleton]
    by_cases hd : d = c
    · subst hd
      have hsingle : escapeInPattern d = [d] := by simp [escapeInPattern, hslash, hbackslash]
      rw [hsingle, trimRightBy_concat_of_pos (by simp), trimRightBy_concat_of_pos (by simp), ih]
    · rw [hescape, ← List.append_assoc, trimRightBy_concat_of_neg (by simpa using hd),
        trimRightBy_concat_of_neg (by simpa using hd), List.flatMap_append,
        List.flatMap_singleton, hescape, List.append_assoc]

/-! ### What is recorded -/

/-- A line without the characters at its ends that are taken for anchors. -/
def withoutAnchors (line : List Char) : List Char :=
  trimRightBy (· == '$') (trimLeftBy (· == '^') line)

/-- The delimiter and the anchor in front of a line are trimmed, with all carets that follow. -/
lemma trimLeft_searchCommand (line : List Char) :
    trimLeftBy (· == '^') (trimLeftBy (· == '?') (trimLeftBy (· == '/')
        ('/' :: '^' :: line.flatMap escapeInPattern ++ ['$', '/']))) =
      (trimLeftBy (· == '^') line).flatMap escapeInPattern ++ ['$', '/'] := by
  have hslash : trimLeftBy (· == '/')
      ('/' :: '^' :: line.flatMap escapeInPattern ++ ['$', '/']) =
        '^' :: (line.flatMap escapeInPattern ++ ['$', '/']) := by
    rw [List.cons_append, trimLeftBy_cons_of_pos (by rfl)]
    exact trimLeftBy_cons_of_neg (by rfl)
  rw [hslash, trimLeftBy_cons_of_neg (by rfl), trimLeftBy_cons_of_pos (by rfl),
    trimLeftBy_append_of_neg (by simp), trimLeftBy_escaped (by decide) (by decide)]

/-- The anchor and the delimiter behind a line are trimmed, with all dollar signs before them. -/
lemma trimRight_searchCommand (line : List Char) :
    trimRightBy (· == '$') (trimRightBy (· == '?') (trimRightBy (· == '/')
        (line.flatMap escapeInPattern ++ ['$', '/']))) =
      (trimRightBy (· == '$') line).flatMap escapeInPattern := by
  rw [List.append_cons, trimRightBy_concat_of_pos (by rfl), trimRightBy_concat_of_neg (by rfl),
    trimRightBy_concat_of_neg (by rfl), trimRightBy_concat_of_pos (by rfl),
    trimRightBy_escaped (by decide) (by decide)]

/-- What is recorded of a line. -/
lemma patternText_searchCommand (line : String) :
    patternText (searchCommand line) =
      String.ofList (trimBy isBlank (doubleBackslashes (withoutAnchors line.toList))) := by
  have htrim : trimBy isBlank (searchCommand line).toList = (searchCommand line).toList := by
    rw [trimBy_eq_self_iff, searchCommand, String.toList_ofList]
    constructor
    · intro c hc
      obtain rfl : '/' = c := Option.mem_some_iff.mp hc
      decide
    · intro c hc
      rw [List.append_cons, List.getLast?_concat] at hc
      obtain rfl : '/' = c := Option.mem_some_iff.mp hc
      decide
  rw [patternText, htrim, searchCommand, String.toList_ofList]
  simp only [trimLeft_searchCommand, trimRight_searchCommand, replaceAll_escaped]
  rfl

/-- Doubling the backslashes doubles their number. -/
lemma count_backslash_doubleBackslashes (cs : List Char) :
    (doubleBackslashes cs).count '\\' = 2 * cs.count '\\' := by
  induction cs with
  | nil => rfl
  | cons c cs ih =>
    rw [doubleBackslashes, List.flatMap_cons, ← doubleBackslashes, List.count_append, ih,
      List.count_cons]
    by_cases hc : c = '\\'
    · simp [hc]
      omega
    · simp [hc]

/-- Other characters stay as many as they are. -/
lemma count_doubleBackslashes (hc : c ≠ '\\') (cs : List Char) :
    (doubleBackslashes cs).count c = cs.count c := by
  induction cs with
  | nil => rfl
  | cons d cs ih =>
    rw [doubleBackslashes, List.flatMap_cons, ← doubleBackslashes, List.count_append, ih,
      List.count_cons]
    by_cases hd : d = '\\'
    · simp [hd, Ne.symm hc]
    · simp [hd, List.count_cons, Nat.add_comm]

/-- A text without backslashes has none to double. -/
lemma doubleBackslashes_of_not_mem (h : '\\' ∉ cs) : doubleBackslashes cs = cs := by
  induction cs with
  | nil => rfl
  | cons c cs ih =>
    rw [List.mem_cons, not_or] at h
    rw [doubleBackslashes, List.flatMap_cons, ← doubleBackslashes, ih h.2,
      if_neg (Ne.symm h.1), List.singleton_append]

/-- Taking off anchors takes off no other characters. -/
lemma count_withoutAnchors (hcaret : c ≠ '^') (hdollar : c ≠ '$') (line : List Char) :
    (withoutAnchors line).count c = line.count c := by
  rw [withoutAnchors, count_trimRightBy (by simpa using hdollar),
    count_trimLeftBy (by simpa using hcaret)]

/-- A caret at the beginning of a line is lost. -/
lemma count_caret_withoutAnchors {line : List Char} (h : '^' ∈ line.head?) :
    (withoutAnchors line).count '^' < line.count '^' := by
  obtain ⟨rest, rfl⟩ := List.head?_eq_some_iff.mp h
  have hle : (trimLeftBy (· == '^') rest).count '^' ≤ rest.count '^' :=
    (trimLeftBy_isSuffix _ rest).sublist.count_le '^'
  rw [withoutAnchors, count_trimRightBy (by decide), trimLeftBy_cons_of_pos (by rfl),
    List.count_cons_self]
  exact Nat.lt_succ_of_le hle

/-- A dollar sign at the end of a line is lost. -/
lemma count_dollar_withoutAnchors {line : List Char} (h : '$' ∈ line.getLast?) :
    (withoutAnchors line).count '$' < line.count '$' := by
  obtain ⟨rest, rfl⟩ := List.getLast?_eq_some_iff.mp h
  have hle : (trimRightBy (· == '$') (trimLeftBy (· == '^') rest)).count '$' ≤ rest.count '$' :=
    ((trimRightBy_isPrefix _ _).sublist.trans (trimLeftBy_isSuffix _ rest).sublist).count_le '$'
  rw [withoutAnchors, trimLeftBy_append_of_neg (by simp), trimRightBy_concat_of_pos (by rfl),
    List.count_append, List.count_singleton_self]
  exact Nat.lt_succ_of_le hle

/-- What is recorded of a line is the line, without the blanks at its ends, exactly if the line has
no backslash and neither begins with a caret nor ends with a dollar sign. -/
theorem patternText_searchCommand_iff (line : String) :
    patternText (searchCommand line) = Text.trim line ↔
      '\\' ∉ line.toList ∧ '^' ∉ line.toList.head? ∧ '$' ∉ line.toList.getLast? := by
  rw [patternText_searchCommand, Text.trim, String.ofList_inj]
  constructor
  · intro h
    -- Trimming blanks changes the number of no other character.
    have hcount : ∀ c, isBlank c = false →
        (doubleBackslashes (withoutAnchors line.toList)).count c = line.toList.count c := by
      intro c hc
      rw [← count_trimBy hc, h, count_trimBy hc]
    have hbackslash : '\\' ∉ line.toList := by
      have htwice := hcount '\\' (by decide)
      rw [count_backslash_doubleBackslashes, count_withoutAnchors (by decide) (by decide)] at htwice
      rw [← List.count_eq_zero]
      omega
    refine ⟨hbackslash, fun hcaret => ?_, fun hdollar => ?_⟩
    · have hless := count_caret_withoutAnchors hcaret
      rw [← hcount '^' (by decide), count_doubleBackslashes (by decide)] at hless
      exact Nat.lt_irrefl _ hless
    · have hless := count_dollar_withoutAnchors hdollar
      rw [← hcount '$' (by decide), count_doubleBackslashes (by decide)] at hless
      exact Nat.lt_irrefl _ hless
  · rintro ⟨hbackslash, hcaret, hdollar⟩
    have hleft : trimLeftBy (· == '^') line.toList = line.toList := by
      refine trimLeftBy_eq_self_iff.mpr fun c hc => ?_
      simpa using fun heq : c = '^' => hcaret (heq ▸ hc)
    have hright : trimRightBy (· == '$') line.toList = line.toList := by
      refine trimRightBy_eq_self_iff.mpr fun c hc => ?_
      simpa using fun heq : c = '$' => hdollar (heq ▸ hc)
    rw [withoutAnchors, hleft, hright, doubleBackslashes_of_not_mem hbackslash]

/-- The first line of a definition that goes on in the next is recorded with two backslashes at its
end. -/
theorem not_patternText_searchCommand :
    ¬ ∀ line : String, '\n' ∉ line.toList →
      (∀ c ∈ (Text.trim line).toList.head?, c ∉ ['^', '/', '?']) →
      (∀ c ∈ (Text.trim line).toList.getLast?, c ∉ ['$', '/', '?']) →
      patternText (searchCommand line) = Text.trim line := by
  intro h
  have hhead : (Text.trim "#define A(x) \\").toList.head? = some '#' := by decide +kernel
  have hlast : (Text.trim "#define A(x) \\").toList.getLast? = some '\\' := by decide +kernel
  have hline := h "#define A(x) \\" (by decide)
  rw [hhead, hlast] at hline
  have hequal := hline (by rintro c ⟨⟩; decide) (by rintro c ⟨⟩; decide)
  revert hequal
  decide +kernel

end CodeAtlas.TagEntry
