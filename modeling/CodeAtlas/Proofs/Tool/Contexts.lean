import CodeAtlas.Proofs.Tool.CalledNames

/-!
# What a name and its parenthesis add to a context

The context of a function is a return type, a space, the name, and behind an opening parenthesis
the parameters.  The tests that come before the one for functions look for a keyword and then for
names and blanks, and none of them goes on at the parenthesis: a keyword cannot be followed by the
name and the parenthesis alone (`afterKeyword_eq_none`), and the name is followed neither by a brace
nor by a colon nor by the end.

So what a test finds in the context it finds in the return type or in the parameters.  There is one
exception: if the return type is the beginning of a definition of the preprocessor, the name
completes it (`afterDefinedName?_context`).
-/

namespace CodeAtlas.CrossReference

variable {name parameters cs ds rest keyword : List Char} {p : Char → Bool} {x : Char}

/-- What follows a return type in the context of a function. -/
def nameAndList (name parameters : List Char) : List Char := name ++ '(' :: parameters

/-- Dropping characters of a class ends at a character that is not of the class. -/
lemma dropWhile_append_cons (hx : p x = false) (cs ds : List Char) :
    (cs ++ x :: ds).dropWhile p = cs.dropWhile p ++ x :: ds := by
  induction cs with
  | nil => simp [hx]
  | cons c cs ih =>
    rw [List.cons_append, List.dropWhile_cons, List.dropWhile_cons]
    split_ifs
    · exact ih
    · rfl

namespace IsIdentifier

/-- A name begins with no blank. -/
lemma dropWhile_isBlank (h : IsIdentifier name) (rest : List Char) :
    (name ++ rest).dropWhile isBlank = name ++ rest := by
  obtain ⟨x, xs, rfl⟩ := List.exists_cons_of_ne_nil h.ne_nil
  rw [List.cons_append, List.dropWhile_cons_of_neg]
  simp [h.isBlank_eq_false x List.mem_cons_self]

/-- A word that begins with a name is the name, if a parenthesis follows. -/
lemma skipWord?_nameAndList (h : IsIdentifier name) (parameters : List Char) :
    skipWord? (nameAndList name parameters) = some ('(' :: parameters) := by
  obtain ⟨x, xs, rfl⟩ := List.exists_cons_of_ne_nil h.ne_nil
  have hword := h.isWord
  rw [List.forall_mem_cons] at hword
  rw [nameAndList, List.cons_append, skipWord?, if_pos hword.1, dropWhile_append_cons (by rfl),
    List.dropWhile_eq_nil_iff.mpr hword.2, List.nil_append]

/-- No body is opened behind a name that a parenthesis follows. -/
lemma opensBody_nameAndList (h : IsIdentifier name) (parameters : List Char) :
    opensBody (nameAndList name parameters) = false := by
  rw [opensBody, h.skipWord?_nameAndList]
  rfl

/-- No keyword is followed by a blank in a name and its parenthesis. -/
lemma afterKeyword_eq_none (h : IsIdentifier name) (hkeyword : '(' ∉ keyword)
    (parameters : List Char) :
    (afterBeginning? keyword (nameAndList name parameters)).bind skipBlanks? = none := by
  rw [nameAndList, afterBeginning?_append_cons hkeyword]
  cases hafter : afterBeginning? keyword name with
  | none => rfl
  | some after =>
    cases after with
    | nil => rfl
    | cons c after =>
      have hc : isBlank c = false := h.isBlank_eq_false c (by
        rw [afterBeginning?_eq_some_iff.mp hafter]
        simp)
      simp [skipBlanks?, hc]

/-- No enumeration is defined at a name that a parenthesis follows. -/
lemma enumerationHere_nameAndList (h : IsIdentifier name) (parameters : List Char) :
    enumerationHere (nameAndList name parameters) = false := by
  rw [enumerationHere, h.afterKeyword_eq_none (by decide)]

end IsIdentifier

/-! ### A space and a name behind a text -/

/-- Blanks are dropped up to the end of the text, and then up to the name, or within the text. -/
lemma skipBlanks?_append (hname : IsIdentifier name)
    (h : skipBlanks? (cs ++ ' ' :: nameAndList name parameters) = some rest) :
    rest = nameAndList name parameters ∨
      ∃ rest', skipBlanks? cs = some rest' ∧
        rest = rest' ++ ' ' :: nameAndList name parameters := by
  cases cs with
  | nil =>
    left
    simp only [List.nil_append, skipBlanks?, isBlank] at h
    exact ((Option.some.inj h).symm.trans (hname.dropWhile_isBlank _))
  | cons c cs =>
    simp only [List.cons_append, skipBlanks?] at h ⊢
    split_ifs at h ⊢ with hc
    rw [List.dropWhile_append] at h
    split_ifs at h with hempty
    · left
      rw [← Option.some.inj h, List.dropWhile_cons_of_pos (by rfl)]
      exact hname.dropWhile_isBlank _
    · exact .inr ⟨_, rfl, (Option.some.inj h).symm⟩

/-- A space does not open a body. -/
lemma opensBody_of_append (h : opensBody (cs ++ ' ' :: ds) = true) : opensBody cs = true := by
  cases cs with
  | nil => simp [opensBody, skipWord?, isWordCharacter] at h
  | cons c cs =>
    simp only [opensBody, List.cons_append, skipWord?] at h ⊢
    split_ifs at h ⊢ with hc
    simp only at h ⊢
    rw [dropWhile_append_cons (by rfl), List.dropWhile_append] at h
    split
    · rfl
    · rename_i d after hafter
      rw [hafter] at h
      simpa using h

/-- An enumeration that is defined at the start of the context is defined within the return type. -/
lemma enumerationHere_of_append (hname : IsIdentifier name)
    (h : enumerationHere (cs ++ ' ' :: nameAndList name parameters) = true) :
    enumerationHere cs = true := by
  unfold enumerationHere at h ⊢
  rw [afterBeginning?_append_cons (by decide)] at h
  cases hafter : afterBeginning? "enum".toList cs with
  | none => rw [hafter] at h; cases h
  | some after =>
    rw [hafter, Option.map_some, Option.bind_some] at h
    rw [Option.bind_some]
    cases hskip : skipBlanks? (after ++ ' ' :: nameAndList name parameters) with
    | none => rw [hskip] at h; cases h
    | some rest =>
      rw [hskip] at h
      rcases skipBlanks?_append hname hskip with rfl | ⟨rest, hrest, rfl⟩
      · have hclass : '(' ∉ "class".toList := by decide
        simp only [hname.opensBody_nameAndList, hname.afterKeyword_eq_none hclass, Bool.or_self,
          Bool.false_eq_true] at h
      · rw [hrest]
        simp only [Bool.or_eq_true] at h ⊢
        rcases h with h | h
        · exact .inl (opensBody_of_append h)
        · right
          rw [afterBeginning?_append_cons (by decide)] at h
          cases hclass : afterBeginning? "class".toList rest with
          | none => rw [hclass] at h; cases h
          | some after =>
            rw [hclass, Option.map_some, Option.bind_some] at h
            rw [Option.bind_some]
            cases hskip : skipBlanks? (after ++ ' ' :: nameAndList name parameters) with
            | none => rw [hskip] at h; cases h
            | some rest =>
              rw [hskip] at h
              rcases skipBlanks?_append hname hskip with rfl | ⟨rest, hrest, rfl⟩
              · simp only [hname.opensBody_nameAndList, Bool.false_eq_true] at h
              · rw [hrest]
                exact opensBody_of_append h

/-! ### Tests of the context -/

/-- Within a word no test is made. -/
lemma atWordStart_append_of_isWord (test : List Char → Bool) {w : List Char}
    (hw : ∀ c ∈ w, isWordCharacter c = true) (cs : List Char) :
    atWordStart test true (w ++ cs) = atWordStart test true cs := by
  induction w with
  | nil => rfl
  | cons c w ih =>
    rw [List.forall_mem_cons] at hw
    rw [List.cons_append, atWordStart, hw.1, ih hw.2]
    rfl

/-- A name and its parenthesis pass a test only if it holds for the name or the parameters. -/
lemma atWordStart_nameAndList (hname : IsIdentifier name) (test : List Char → Bool)
    (htest : test (nameAndList name parameters) = false) (inWord : Bool)
    (h : atWordStart test inWord (nameAndList name parameters) = true) :
    atWordStart test false parameters = true := by
  obtain ⟨x, xs, rfl⟩ := List.exists_cons_of_ne_nil hname.ne_nil
  have hword := hname.isWord
  rw [List.forall_mem_cons] at hword
  rw [nameAndList, List.cons_append] at htest
  rw [nameAndList, List.cons_append, atWordStart, htest, hword.1, Bool.and_false, Bool.false_or,
    atWordStart_append_of_isWord test hword.2, atWordStart] at h
  simpa [isWordCharacter] using h

/-- An enumeration that is defined in the context is defined in the return type or in the
parameters. -/
lemma atWordStart_enumerationHere (hname : IsIdentifier name) {inWord : Bool}
    (h : atWordStart enumerationHere inWord (cs ++ ' ' :: nameAndList name parameters) = true) :
    atWordStart enumerationHere inWord cs = true ∨
      atWordStart enumerationHere false parameters = true := by
  induction cs generalizing inWord with
  | nil =>
    have hspace : enumerationHere (' ' :: nameAndList name parameters) = false := by
      simp [enumerationHere, afterBeginning?]
    rw [List.nil_append, atWordStart, hspace, Bool.and_false, Bool.false_or] at h
    exact .inr (atWordStart_nameAndList hname _ (hname.enumerationHere_nameAndList parameters) _ h)
  | cons c cs ih =>
    rw [List.cons_append, atWordStart, Bool.or_eq_true, Bool.and_eq_true] at h
    rw [atWordStart, Bool.or_eq_true, Bool.and_eq_true]
    rcases h with ⟨hstart, htest⟩ | h
    · exact .inl (.inl ⟨hstart, enumerationHere_of_append hname htest⟩)
    · exact (ih h).imp_left .inr

/-- The blanks in front of a text that has a word end within it. -/
lemma exists_dropWhile_isBlank (h : wordsOf cs ≠ []) (ds : List Char) :
    cs.dropWhile isBlank ≠ [] ∧ (cs ++ ds).dropWhile isBlank = cs.dropWhile isBlank ++ ds := by
  obtain ⟨c, hc, hblank⟩ := exists_not_blank h
  have hne : cs.dropWhile isBlank ≠ [] := fun hnil => by
    rw [List.dropWhile_eq_nil_iff] at hnil
    rw [hnil c hc] at hblank
    cases hblank
  refine ⟨hne, ?_⟩
  rw [List.dropWhile_append, if_neg (by simpa using hne)]

/-- A context is a type definition only if its return type is. -/
lemma isTypeDefinition_of_append (hwords : wordsOf cs ≠ [])
    (h : isTypeDefinition (cs ++ ' ' :: ds) = true) : isTypeDefinition cs = true := by
  unfold isTypeDefinition at h ⊢
  rw [(exists_dropWhile_isBlank hwords _).2, afterBeginning?_append_cons (by decide)] at h
  cases hafter : afterBeginning? "typedef".toList (cs.dropWhile isBlank) with
  | none => rw [hafter] at h; cases h
  | some after =>
    rw [hafter] at h
    cases after with
    | nil => rfl
    | cons c after => exact h

/-- What follows the name in a definition of the preprocessor, step by step. -/
lemma afterDefinedName?_eq (cs : List Char) :
    afterDefinedName? cs = (afterBeginning? ['#'] (cs.dropWhile isBlank)).bind fun rest =>
      ((afterBeginning? "define".toList (rest.dropWhile isBlank)).bind skipBlanks?).bind
        skipWord? := by
  rw [afterDefinedName?]
  cases afterBeginning? ['#'] (cs.dropWhile isBlank) with
  | none => rfl
  | some rest =>
    simp only [Option.bind_eq_bind, Option.bind_some]
    cases afterBeginning? "define".toList (rest.dropWhile isBlank) <;> rfl

/-- Where a return type is no definition of the preprocessor but its context is one, the name of the
function is the name that is defined. -/
lemma afterDefinedName?_context (hname : IsIdentifier name) (hwords : wordsOf cs ≠ [])
    (hnone : afterDefinedName? cs = none)
    (h : afterDefinedName? (cs ++ ' ' :: nameAndList name parameters) = some rest) :
    rest = '(' :: parameters := by
  rw [afterDefinedName?_eq] at h hnone
  rw [(exists_dropWhile_isBlank hwords _).2, afterBeginning?_append_cons (by decide)] at h
  cases hhash : afterBeginning? ['#'] (cs.dropWhile isBlank) with
  | none => rw [hhash] at h; cases h
  | some after =>
    rw [hhash, Option.map_some, Option.bind_some, List.dropWhile_append] at h
    rw [hhash, Option.bind_some] at hnone
    split_ifs at h with hempty
    · rw [List.dropWhile_cons_of_pos (by rfl), nameAndList, hname.dropWhile_isBlank, ← nameAndList,
        hname.afterKeyword_eq_none (by decide)] at h
      cases h
    · rw [afterBeginning?_append_cons (by decide)] at h
      cases hdefine : afterBeginning? "define".toList (after.dropWhile isBlank) with
      | none => rw [hdefine] at h; cases h
      | some behind =>
        rw [hdefine, Option.map_some, Option.bind_some] at h
        rw [hdefine, Option.bind_some] at hnone
        obtain ⟨next, hskip, hword⟩ := Option.bind_eq_some_iff.mp h
        rcases skipBlanks?_append hname hskip with rfl | ⟨next, hnext, rfl⟩
        · rw [hname.skipWord?_nameAndList] at hword
          exact (Option.some.inj hword).symm
        · -- A word stands there already, so the return type would be a definition by itself.
          rw [hnext, Option.bind_some] at hnone
          cases next with
          | nil => simp [skipWord?, isWordCharacter] at hword
          | cons c next =>
            simp only [List.cons_append, skipWord?] at hword hnone
            split_ifs at hword hnone

end CodeAtlas.CrossReference
