import CodeAtlas.Proofs.Text.Search
import CodeAtlas.Proofs.Text.Words
import CodeAtlas.Tool.CrossReference
import Mathlib.Data.List.TakeWhile

/-!
# Names that are followed by a parenthesis

A definition in a cross-reference listing is taken for a function if its name is followed by an
opening parenthesis, and what stands before the name then gives the return type.  The search for it
goes through a rewritten text, in which every run of blanks is one space and the space between the
name and a parenthesis is taken out.  Neither step makes up an occurrence or loses one
(`calls_of_callsCompact`, `Calls.exists_callsCompact`), so what is found is the first place of the
text as it was written (`exists_isFirstCall`).

The place that is found need not be a whole identifier: the name may be the end of a longer one.
The parentheses before a place tell the places apart, so a return type belongs to one place only,
and the guess is about the name itself exactly if the first place stands alone
(`classify_standsAlone_iff`).
-/

namespace CodeAtlas.CrossReference

/-- A name is made of the characters of words. -/
structure IsIdentifier (name : List Char) : Prop where
  ne_nil : name ≠ []
  isWord : ∀ c ∈ name, isWordCharacter c = true

instance (name : List Char) : Decidable (IsIdentifier name) :=
  decidable_of_iff (name ≠ [] ∧ name.all isWordCharacter = true)
    ⟨fun ⟨h₁, h₂⟩ => ⟨h₁, List.all_eq_true.mp h₂⟩, fun ⟨h₁, h₂⟩ => ⟨h₁, List.all_eq_true.mpr h₂⟩⟩

/-- Behind the beginning `before` of a text stands a name, and behind the name, except for blanks,
an opening parenthesis. -/
def Calls (name text before : List Char) : Prop :=
  ∃ blanks rest, (∀ c ∈ blanks, isBlank c = true) ∧ text = before ++ name ++ blanks ++ '(' :: rest

/-- The first place of a text at which a name is followed by a parenthesis. -/
def IsFirstCall (name text before : List Char) : Prop :=
  Calls name text before ∧ ∀ before', Calls name text before' → before <+: before'

/-- What stands behind the beginning of a text is no continuation of a word. -/
def StandsAlone (before : List Char) : Prop := ∀ c ∈ before.getLast?, isWordCharacter c = false

instance (before : List Char) : Decidable (StandsAlone before) :=
  decidable_of_iff (before.getLast?.all (!isWordCharacter ·) = true)
    (by cases h : before.getLast? <;> simp [StandsAlone, h])

/-- The return type that a text before a name amounts to: its words without those that say how a
function is stored, joined by spaces. -/
def returnTypeBefore (before : List Char) : String :=
  let words := (wordsOf before).filter (fun w => !storageWords.contains w)
  if words.isEmpty then "void" else " ".intercalate (words.map String.ofList)

variable {name text before before' rest : List Char}

/-- Whether a name is called can be looked up. -/
lemma calls_iff : Calls name text before ↔ before ++ name <+: text ∧
    ((text.drop (before ++ name).length).dropWhile isBlank).head? = some '(' := by
  constructor
  · rintro ⟨blanks, rest, hblanks, rfl⟩
    refine ⟨⟨_, (List.append_assoc _ _ _).symm⟩, ?_⟩
    rw [List.append_assoc, List.drop_left, List.dropWhile_append_of_pos hblanks]
    rfl
  · rintro ⟨⟨after, rfl⟩, hopening⟩
    rw [List.drop_left] at hopening
    obtain ⟨rest, hrest⟩ := List.head?_eq_some_iff.mp hopening
    refine ⟨after.takeWhile isBlank, rest, fun c hc => List.mem_takeWhile_imp hc, ?_⟩
    rw [List.append_assoc (before ++ name), ← hrest, List.takeWhile_append_dropWhile]

instance (name text before : List Char) : Decidable (Calls name text before) :=
  decidable_of_iff _ calls_iff.symm

namespace IsIdentifier

lemma isBlank_eq_false (h : IsIdentifier name) : ∀ c ∈ name, isBlank c = false := fun c hc =>
  isBlank_eq_false_of_isWordCharacter (h.isWord c hc)

lemma not_mem_of_isWordCharacter (h : IsIdentifier name) {x : Char}
    (hx : isWordCharacter x = false) : x ∉ name := fun hmem => by
  rw [h.isWord x hmem] at hx
  cases hx

lemma opening_not_mem (h : IsIdentifier name) : '(' ∉ name := h.not_mem_of_isWordCharacter (by rfl)

end IsIdentifier

/-! ### The text without a space before the parenthesis -/

/-- A text in which the name is followed by its parenthesis without a space between them. -/
def closeUp (name text : List Char) : List Char :=
  replaceAll (name ++ [' ', '(']) (name ++ ['(']) text

/-- The name stands behind a beginning of a text, and a parenthesis behind the name, perhaps after
one space. -/
def CallsCompact (name text before rest : List Char) : Prop :=
  text = before ++ (name ++ '(' :: rest) ∨ text = before ++ (name ++ ' ' :: '(' :: rest)

lemma name_parenthesis_append (name rest : List Char) :
    name ++ ['('] ++ rest = name ++ '(' :: rest := by
  rw [List.append_assoc, List.singleton_append]

lemma name_space_append (name rest : List Char) :
    name ++ [' ', '('] ++ rest = name ++ ' ' :: '(' :: rest := by
  rw [List.append_assoc, List.cons_append, List.singleton_append]

/-- The space between the name and a parenthesis is taken out. -/
lemma closeUp_name_space (name rest : List Char) :
    closeUp name (name ++ ' ' :: '(' :: rest) = name ++ '(' :: closeUp name rest := by
  rw [closeUp, ← name_space_append name rest, replaceAll_append (by simp),
    name_parenthesis_append, closeUp]

/-- Text before a parenthesis is kept if it is not longer than the name: there is no room for the
name and a space in it. -/
lemma closeUp_append_cons {w : List Char} (hw : '(' ∉ w) (hname : '(' ∉ name)
    (hle : w.length ≤ name.length) (rest : List Char) :
    closeUp name (w ++ '(' :: rest) = w ++ '(' :: closeUp name rest := by
  have hfront : ∀ w : List Char, '(' ∉ w → w.length ≤ name.length →
      ¬ name ++ [' ', '('] <+: w ++ '(' :: rest := by
    intro w hw hle ⟨t, ht⟩
    rw [name_space_append, List.append_cons] at ht
    have hspace : '(' ∉ name ++ [' '] := by simpa using hname
    have heq := (append_cons_inj_of_not_mem hspace hw ht).1
    have hlength := congrArg List.length heq
    rw [List.length_append, List.length_singleton] at hlength
    omega
  induction w with
  | nil =>
    rw [closeUp, List.nil_append, replaceAll_cons_of_not_isPrefix (hfront [] hw hle),
      List.nil_append, closeUp]
  | cons x w ih =>
    have hcons := hfront (x :: w) hw hle
    rw [List.cons_append] at hcons
    rw [List.mem_cons, not_or] at hw
    rw [List.length_cons] at hle
    have htail := ih hw.2 (by omega)
    rw [closeUp] at htail ⊢
    rw [List.cons_append, replaceAll_cons_of_not_isPrefix hcons, htail, List.cons_append]

/-- Closing up does not make the end of a name followed by a parenthesis. -/
lemma isPrefix_of_isPrefix_closeUp {w cs : List Char} (hname : IsIdentifier name) (hw : w <:+ name)
    (hlt : w.length < name.length) (h : w ++ ['('] <+: closeUp name cs) : w ++ ['('] <+: cs := by
  induction w generalizing cs with
  | nil =>
    cases cs with
    | nil => simp [closeUp, replaceAll, replaceFrom] at h
    | cons c cs =>
      by_cases hspaced : name ++ [' ', '('] <+: c :: cs
      · obtain ⟨t, ht⟩ := hspaced
        rw [← ht, name_space_append, closeUp_name_space] at h
        obtain ⟨x, xs, hx⟩ := List.exists_cons_of_ne_nil hname.ne_nil
        rw [hx, List.nil_append, List.cons_append, List.cons_prefix_cons] at h
        exact absurd (h.1 ▸ hx ▸ List.mem_cons_self) hname.opening_not_mem
      · rw [closeUp, replaceAll_cons_of_not_isPrefix hspaced, List.nil_append,
          List.cons_prefix_cons] at h
        rw [List.nil_append, List.cons_prefix_cons]
        exact ⟨h.1, List.nil_prefix⟩
  | cons x w ih =>
    have hends : w <:+ name := (List.suffix_cons x w).trans hw
    have hopening : '(' ∉ x :: w := fun hmem => hname.opening_not_mem (hw.subset hmem)
    cases cs with
    | nil => simp [closeUp, replaceAll, replaceFrom] at h
    | cons c cs =>
      by_cases hspaced : name ++ [' ', '('] <+: c :: cs
      · obtain ⟨t, ht⟩ := hspaced
        rw [← ht, name_space_append, closeUp_name_space] at h
        obtain ⟨u, hu⟩ := h
        rw [name_parenthesis_append] at hu
        have heq := (append_cons_inj_of_not_mem hopening hname.opening_not_mem hu).1
        rw [heq] at hlt
        exact absurd hlt (Nat.lt_irrefl _)
      · rw [closeUp, replaceAll_cons_of_not_isPrefix hspaced, List.cons_append,
          List.cons_prefix_cons] at h
        rw [List.cons_append, List.cons_prefix_cons]
        exact ⟨h.1, ih hends (by rw [List.length_cons] at hlt; omega) h.2⟩

/-- The search in the closed up text finds the first place, whether a space stands there or not, and
no place only if there is none. -/
lemma splitAtInfix?_closeUp (hname : IsIdentifier name) (text : List Char) :
    (∃ before rest, CallsCompact name text before rest ∧
      splitAtInfix? (name ++ ['(']) (closeUp name text) =
        some (before, name ++ '(' :: closeUp name rest) ∧
      ∀ before' rest', CallsCompact name text before' rest' → before.length ≤ before'.length) ∨
    (splitAtInfix? (name ++ ['(']) (closeUp name text) = none ∧
      ∀ before rest, ¬ CallsCompact name text before rest) := by
  induction text with
  | nil =>
    refine .inr ⟨?_, fun before rest h => ?_⟩
    · rw [closeUp, replaceAll, replaceFrom, splitAtInfix?]
      simp
    · rcases h with h | h <;> simp at h
  | cons c cs ih =>
    by_cases hspaced : name ++ [' ', '('] <+: c :: cs
    · obtain ⟨rest, hrest⟩ := hspaced
      rw [name_space_append] at hrest
      refine .inl ⟨[], rest, .inr hrest.symm, ?_, fun _ _ _ => Nat.zero_le _⟩
      rw [← hrest, closeUp_name_space, ← name_parenthesis_append name (closeUp name rest),
        splitAtInfix?_append (by simp)]
    · by_cases hcalled : name ++ ['('] <+: c :: cs
      · obtain ⟨rest, hrest⟩ := hcalled
        rw [name_parenthesis_append] at hrest
        refine .inl ⟨[], rest, .inl hrest.symm, ?_, fun _ _ _ => Nat.zero_le _⟩
        rw [← hrest, closeUp_append_cons hname.opening_not_mem hname.opening_not_mem
          (Nat.le_refl _), ← name_parenthesis_append name (closeUp name rest),
          splitAtInfix?_append (by simp)]
      · -- Neither form stands at the front, so every place is behind the first character.
        have hclosed : closeUp name (c :: cs) = c :: closeUp name cs := by
          rw [closeUp, replaceAll_cons_of_not_isPrefix hspaced, closeUp]
        have hnot : ¬ name ++ ['('] <+: c :: closeUp name cs := by
          intro hfront
          apply hcalled
          obtain ⟨x, w, hw⟩ := List.exists_cons_of_ne_nil hname.ne_nil
          have hends : w <:+ name := hw ▸ List.suffix_cons x w
          have hlt : w.length < name.length := by rw [hw, List.length_cons]; omega
          have hsplit : ∀ ds, name ++ ['('] <+: c :: ds ↔ x = c ∧ w ++ ['('] <+: ds := fun ds => by
            rw [hw, List.cons_append, List.cons_prefix_cons]
          rw [hsplit] at hfront ⊢
          exact ⟨hfront.1, isPrefix_of_isPrefix_closeUp hname hends hlt hfront.2⟩
        have htail : ∀ before rest, CallsCompact name (c :: cs) before rest →
            ∃ before', before = c :: before' ∧ CallsCompact name cs before' rest := by
          intro before rest h
          cases before with
          | nil =>
            rcases h with h | h
            · exact absurd ⟨rest, (name_parenthesis_append name rest).trans h.symm⟩ hcalled
            · exact absurd ⟨rest, (name_space_append name rest).trans h.symm⟩ hspaced
          | cons b before =>
            rcases h with h | h <;> obtain ⟨rfl, htext⟩ := List.cons_eq_cons.mp h
            · exact ⟨before, rfl, .inl htext⟩
            · exact ⟨before, rfl, .inr htext⟩
        rw [hclosed, splitAtInfix?_cons_of_not_isPrefix hnot]
        rcases ih with ⟨before, rest, hcalls, hfound, hfirst⟩ | ⟨hfound, hnone⟩
        · refine .inl ⟨c :: before, rest, ?_, by rw [hfound]; rfl, fun before' rest' h => ?_⟩
          · rcases hcalls with h | h <;> rw [h]
            · exact .inl rfl
            · exact .inr rfl
          · obtain ⟨before', rfl, htext⟩ := htail before' rest' h
            simpa using hfirst before' rest' htext
        · refine .inr ⟨by rw [hfound]; rfl, fun before rest h => ?_⟩
          obtain ⟨before', -, htext⟩ := htail before rest h
          exact hnone before' rest htext

/-! ### The text as it was written -/

/-- A place of the squeezed text is a place of the text. -/
lemma exists_calls_of_callsCompact (hname : IsIdentifier name)
    (h : CallsCompact name (squeeze text) before rest) :
    ∃ before', Calls name text before' ∧ singleSpaced true before' = before := by
  obtain ⟨trail, -, heq⟩ := singleSpaced_eq_intercalate text
  obtain ⟨gap, hgap, hwritten⟩ : ∃ gap : List Char, (∀ c ∈ gap, isBlank c = true) ∧
      singleSpaced true text = before ++ (name ++ (gap ++ '(' :: (rest ++ trail))) := by
    rw [heq, ← squeeze]
    rcases h with h | h <;> rw [h]
    · exact ⟨[], by simp, by simp⟩
    · exact ⟨[' '], by simp [isBlank], by simp⟩
  obtain ⟨us, vs, rfl, hus, hvs⟩ := exists_of_singleSpaced_eq_append hwritten
  obtain ⟨x, xs, rfl⟩ := List.exists_cons_of_ne_nil hname.ne_nil
  have hname := hname.isBlank_eq_false
  rw [List.forall_mem_cons] at hname
  obtain ⟨blanks, ds, rfl, -, hnil, hds⟩ := exists_of_singleSpaced_eq_cons hname.1 hvs
  obtain ⟨es, rfl, hes⟩ := exists_of_singleSpaced_false_eq_append hname.2 hds
  obtain ⟨us', vs', rfl, hus', hvs'⟩ := exists_of_singleSpaced_eq_append hes
  obtain ⟨blanks', rest', rfl, hblanks', -, -⟩ := exists_of_singleSpaced_eq_cons (by rfl) hvs'
  rw [← hus'] at hgap
  refine ⟨us ++ blanks, ⟨us' ++ blanks', rest', ?_, by simp⟩, ?_⟩
  · rw [List.forall_mem_append]
    exact ⟨forall_isBlank_of_singleSpaced hgap, hblanks'⟩
  · rw [singleSpaced_append, hus, hnil, List.append_nil]

/-- A place of the text is a place of the squeezed text. -/
lemma Calls.exists_callsCompact (hname : IsIdentifier name) (h : Calls name text before) :
    ∃ rest, CallsCompact name (squeeze text) (singleSpaced true before) rest := by
  obtain ⟨blanks, rest, hblanks, rfl⟩ := h
  obtain ⟨trail, htrail, heq⟩ :=
    singleSpaced_eq_intercalate (before ++ name ++ blanks ++ '(' :: rest)
  rw [← squeeze, List.append_assoc, List.append_assoc, singleSpaced_append,
    singleSpaced_append_of_none hname.ne_nil hname.isBlank_eq_false, singleSpaced_append,
    singleSpaced_cons_of_neg (by rfl), ← List.append_assoc, ← List.append_assoc] at heq
  -- The text does not end before the parenthesis, so the parenthesis belongs to the squeezed text.
  obtain ⟨rest', hrest'⟩ : ∃ rest', squeeze (before ++ (name ++ (blanks ++ '(' :: rest))) =
      singleSpaced true before ++ name ++ singleSpaced false blanks ++ '(' :: rest' := by
    rcases htrail with rfl | rfl
    · exact ⟨_, by rw [heq, List.append_nil]⟩
    · rcases List.eq_nil_or_concat (singleSpaced false rest) with hnil | ⟨rest', c, hrest'⟩
      · rw [hnil] at heq
        have hlast := (List.append_inj' heq rfl).2
        cases hlast
      · rw [hrest', List.concat_eq_append, ← List.cons_append, ← List.append_assoc] at heq
        exact ⟨rest', (List.append_inj' heq rfl).1.symm⟩
  refine ⟨rest', ?_⟩
  rw [List.append_assoc, List.append_assoc, CallsCompact, hrest']
  rcases singleSpaced_false_of_blank hblanks with hnil | hspace
  · exact .inl (by rw [hnil]; simp)
  · exact .inr (by rw [hspace]; simp)

/-- A place is the first of the text if what is written before it is shortest. -/
lemma isFirstCall_of_length_le (h : Calls name text before) (hname : IsIdentifier name)
    (hle : ∀ before', Calls name text before' →
      (singleSpaced true before).length ≤ (singleSpaced true before').length) :
    IsFirstCall name text before := by
  refine ⟨h, fun before' h' => ?_⟩
  have hwritten := hle before' h'
  obtain ⟨blanks, rest, -, htext⟩ := h
  obtain ⟨blanks', rest', -, htext'⟩ := h'
  have hbegins : before <+: text := ⟨_, by rw [htext, List.append_assoc, List.append_assoc]⟩
  have hbegins' : before' <+: text := ⟨_, by rw [htext', List.append_assoc, List.append_assoc]⟩
  rcases List.prefix_or_prefix_of_prefix hbegins hbegins' with hle | ⟨z, rfl⟩
  · exact hle
  · cases z with
    | nil => rw [List.append_nil]
    | cons d z =>
      -- The name begins with `d`, which is therefore not blank and would be written.
      obtain ⟨x, xs, rfl⟩ := List.exists_cons_of_ne_nil hname.ne_nil
      rw [htext] at htext'
      simp only [List.append_assoc, List.append_cancel_left_eq, List.cons_append,
        List.cons_eq_cons] at htext'
      have hd : isBlank d = false := hname.isBlank_eq_false d (htext'.1 ▸ List.mem_cons_self)
      rw [singleSpaced_append, List.length_append, singleSpaced_cons_of_neg hd, List.length_cons]
        at hwritten
      omega

/-! ### What is recorded of a function -/

/-- The parameters at the front of a text: what stands up to the first closing parenthesis. -/
def parametersAtFront (text : List Char) : List (List Char) :=
  match splitOnce? ')' text with
  | some (list, _) => parametersOf (list ++ [')'])
  | none => []

/-- A function is recorded for the first place of the text at which the name is followed by a
parenthesis, and none if there is no such place. -/
lemma functionDetail?_closeUp (hname : IsIdentifier name) (text : List Char) :
    (∃ before rest, IsFirstCall name text before ∧
      CallsCompact name (squeeze text) (singleSpaced true before) rest ∧
      functionDetail? name (closeUp name (squeeze text)) =
        some (.unmeasured (returnTypeBefore before)
          ((parametersAtFront ('(' :: closeUp name rest)).map String.ofList))) ∨
    (functionDetail? name (closeUp name (squeeze text)) = none ∧
      ∀ before, ¬ Calls name text before) := by
  rcases splitAtInfix?_closeUp hname (squeeze text) with
    ⟨before, rest, hcompact, hfound, hfirst⟩ | ⟨hfound, hnone⟩
  · obtain ⟨before', hcalls, rfl⟩ := exists_calls_of_callsCompact hname hcompact
    refine .inl ⟨before', rest, isFirstCall_of_length_le hcalls hname fun b hb => ?_, hcompact, ?_⟩
    · obtain ⟨rest', hrest'⟩ := hb.exists_callsCompact hname
      exact hfirst _ rest' hrest'
    · rw [functionDetail?, hfound, Option.map_some]
      simp only [wordsOf_singleSpaced, List.drop_left]
      rfl
  · refine .inr ⟨by rw [functionDetail?, hfound]; rfl, fun before hcalls => ?_⟩
    obtain ⟨rest, hrest⟩ := hcalls.exists_callsCompact hname
    exact hnone _ rest hrest

/-- What is guessed to be a function has been found. -/
lemma functionDetail?_of_classify {returnType : String} {parameters : List String}
    {complexity : Complexity} {score : UInt32}
    (h : classify name text = .function returnType parameters complexity score) :
    functionDetail? name (closeUp name (squeeze text)) =
      some (.function returnType parameters complexity score) := by
  unfold classify at h
  simp only at h
  split at h
  · cases h
  · split_ifs at h
    split at h
    · rename_i detail hfound
      rw [← h, closeUp]
      exact hfound
    · cases h

/-- A return type has as many opening parentheses as the text that it was taken from. -/
lemma count_returnTypeBefore (before : List Char) :
    (returnTypeBefore before).toList.count '(' = before.count '(' := by
  have hstorage : ∀ words : List (List Char),
      (words.filter fun w => !storageWords.contains w).flatten.count '(' =
        words.flatten.count '(' := by
    intro words
    induction words with
    | nil => rfl
    | cons w words ih =>
      rw [List.filter_cons]
      split_ifs with hw
      · rw [List.flatten_cons, List.flatten_cons, List.count_append, List.count_append, ih]
      · have hmem : w ∈ storageWords := by simpa using hw
        have hnone : ∀ w ∈ storageWords, w.count '(' = 0 := by decide
        have hzero : w.count '(' = 0 := hnone w hmem
        rw [List.flatten_cons, List.count_append, hzero, Nat.zero_add, ih]
  rw [← count_flatten_wordsOf (by rfl) before, ← hstorage, returnTypeBefore]
  split_ifs with hempty
  · rw [List.isEmpty_iff.mp hempty]
    rfl
  · have hid : String.toList ∘ String.ofList = id := funext fun cs => String.toList_ofList
    rw [String.toList_intercalate, List.map_map, hid, List.map_id, count_intercalate (by decide)]

/-- A later place has more opening parentheses before it. -/
lemma IsFirstCall.eq_of_count_eq (h : IsFirstCall name text before)
    (hcalls : Calls name text before') (hname : IsIdentifier name)
    (hcount : before'.count '(' = before.count '(') :
    before' = before := by
  obtain ⟨z, rfl⟩ := h.2 before' hcalls
  obtain ⟨blanks, rest, hblanks, htext⟩ := h.1
  obtain ⟨blanks', rest', hblanks', htext'⟩ := hcalls
  rw [List.count_append] at hcount
  have hz : '(' ∉ z := List.count_eq_zero.mp (by omega)
  have hopening : ∀ blanks : List Char, (∀ c ∈ blanks, isBlank c = true) → '(' ∉ blanks :=
    fun blanks h hmem => by cases h '(' hmem
  have hopening' := hname.opening_not_mem
  -- No parenthesis stands before those of the two places, so they are the same.
  rw [htext] at htext'
  simp only [List.append_assoc, List.append_cancel_left_eq] at htext'
  rw [← List.append_assoc, ← List.append_assoc, ← List.append_assoc] at htext'
  have heq := (append_cons_inj_of_not_mem (by simp [hopening', hopening blanks hblanks])
    (by simp [hopening', hz, hopening blanks' hblanks']) htext').1
  have hblank : ∀ cs : List Char, (∀ c ∈ cs, isBlank c = true) → cs.filter (!isBlank ·) = [] :=
    fun cs h => List.filter_eq_nil_iff.mpr fun c hc => by simp [h c hc]
  have hfull : name.filter (!isBlank ·) = name :=
    List.filter_eq_self.mpr fun c hc => by simp [hname.isBlank_eq_false c hc]
  have hfilter : z.filter (!isBlank ·) = [] := by
    have hkept := congrArg (List.filter (!isBlank ·)) heq
    rw [List.filter_append, List.filter_append, List.filter_append, hblank _ hblanks,
      hblank _ hblanks', hfull, List.append_nil, List.append_nil] at hkept
    exact List.self_eq_append_left.mp hkept
  cases z with
  | nil => exact List.append_nil before
  | cons d z =>
    obtain ⟨x, xs, rfl⟩ := List.exists_cons_of_ne_nil hname.ne_nil
    have hd : isBlank d = false := by
      rw [← (List.cons_eq_cons.mp heq).1]
      exact hname.isBlank_eq_false x List.mem_cons_self
    rw [List.filter_cons_of_pos (by simp [hd])] at hfilter
    cases hfilter

/-! ### Functions are reported for the first place -/

/-- A function is reported for the first place at which its name is followed by a parenthesis, with
the return type that stands before it.  A place at which the name is a whole identifier and that has
this return type before it exists exactly if the first place is one. -/
theorem classify_standsAlone_iff (hname : IsIdentifier name) {returnType : String}
    {parameters : List String} {complexity : Complexity} {score : UInt32}
    (h : classify name text = .function returnType parameters complexity score) :
    ∃ before, IsFirstCall name text before ∧ returnType = returnTypeBefore before ∧
      ((∃ before', Calls name text before' ∧ StandsAlone before' ∧
          returnType = returnTypeBefore before') ↔ StandsAlone before) := by
  have hfound := functionDetail?_of_classify h
  rcases functionDetail?_closeUp hname text with
    ⟨before, rest, hfirst, -, hdetail⟩ | ⟨hnone, -⟩
  · rw [hfound, Option.some.injEq, SymbolDetail.unmeasured, SymbolDetail.function.injEq] at hdetail
    refine ⟨before, hfirst, hdetail.1, ?_, fun halone => ⟨before, hfirst.1, halone, hdetail.1⟩⟩
    rintro ⟨before', hcalls, halone, htype⟩
    have hcount := congrArg (fun s : String => s.toList.count '(') (htype.symm.trans hdetail.1)
    simp only [count_returnTypeBefore] at hcount
    rwa [hfirst.eq_of_count_eq hcalls hname hcount] at halone
  · rw [hfound] at hnone
    cases hnone

/-- A function whose name stands at the end of another name further on is reported for its own. -/
theorem classify_standsAlone_parse :
    let name := "parse".toList
    let text := "static int parse (int n) { return reparse(n); }".toList
    IsIdentifier name ∧ classify name text = .function "int" ["int n"] .low 0 ∧
      ∃ before, IsFirstCall name text before ∧ "int" = returnTypeBefore before ∧
        ((∃ before', Calls name text before' ∧ StandsAlone before' ∧
          "int" = returnTypeBefore before') ↔ StandsAlone before) := by
  have hname : IsIdentifier "parse".toList := by decide
  have h : classify "parse".toList "static int parse (int n) { return reparse(n); }".toList =
      .function "int" ["int n"] .low 0 := by decide +kernel
  exact ⟨hname, h, classify_standsAlone_iff hname h⟩

/-- A variable is taken for a function if its name is the end of one that is called on its line. -/
theorem not_classify_standsAlone :
    ¬ ∀ (name text : List Char) (returnType : String) (parameters : List String)
      (complexity : Complexity) (score : UInt32), IsIdentifier name →
      classify name text = .function returnType parameters complexity score →
      ∃ before, Calls name text before ∧ StandsAlone before ∧
        returnType = returnTypeBefore before := by
  intro h
  have hfunction : classify "total".toList "int total = subtotal(4);".toList =
      .function "int total = sub" ["4"] .low 0 := by decide +kernel
  obtain ⟨before, hcalls, halone, -⟩ := h _ _ _ _ _ _ (by decide) hfunction
  have hnone : ∀ before ∈ "int total = subtotal(4);".toList.inits,
      Calls "total".toList "int total = subtotal(4);".toList before → ¬ StandsAlone before := by
    decide +kernel
  have hbegins := (List.prefix_append before "total".toList).trans (calls_iff.mp hcalls).1
  exact hnone before ((List.mem_inits _ _).mpr hbegins) hcalls halone

end CodeAtlas.CrossReference
