import CodeAtlas.Proofs.Text.Trimming
import CodeAtlas.Tool.Parameters
import Mathlib.Data.List.Flatten
import Mathlib.Data.List.Infix

/-!
# Parameter lists and the texts that they are made of

A text that can stand in a parameter list (`IsParameter`) is trimmed, closes its brackets, and has
its commas inside them.  Such texts, joined by commas, are cut into the same texts again: the depth
that `splitAtTopCommas` counts is, behind every beginning of a text, the number of brackets that are
open there, so it is zero between the texts and at no comma within one (`splitAtTopCommas_append`).

That says nothing yet about a list in parentheses, for these are taken off first, and `parametersOf`
takes off all that stand there and not only one.  What comes back is made of the characters that are
left (`flatten_parametersOf_sublist`), so the list survives exactly if its first text does not begin
with a parenthesis and its last text does not end with one (`splitParameters_eq_iff`).
-/

namespace CodeAtlas

/-- The kinds of brackets that are counted. -/
def bracketKinds : List (Char × Char) := [('(', ')'), ('<', '>'), ('[', ']')]

/-- A text that can stand in a list of parameters. -/
structure IsParameter (t : List Char) : Prop where
  trimmed : trimBy isBlank t = t
  ne_nil : t ≠ []
  /-- No beginning of the text closes more brackets of a kind than it opens. -/
  closes_le : ∀ b ∈ bracketKinds, ∀ before ∈ t.inits, before.count b.2 ≤ before.count b.1
  /-- The text closes all brackets that it opens. -/
  closes_eq : ∀ b ∈ bracketKinds, t.count b.2 = t.count b.1
  /-- A comma stands where some bracket is open. -/
  comma_inside : ∀ before ∈ t.inits, before ++ [','] ∈ t.inits →
    ∃ b ∈ bracketKinds, before.count b.2 < before.count b.1

/-- Whether a text is a parameter can be checked at its beginnings. -/
instance (t : List Char) : Decidable (IsParameter t) :=
  decidable_of_iff
    (trimBy isBlank t = t ∧ t ≠ [] ∧
      (∀ b ∈ bracketKinds, ∀ before ∈ t.inits, before.count b.2 ≤ before.count b.1) ∧
      (∀ b ∈ bracketKinds, t.count b.2 = t.count b.1) ∧
      ∀ before ∈ t.inits, before ++ [','] ∈ t.inits →
        ∃ b ∈ bracketKinds, before.count b.2 < before.count b.1)
    ⟨fun ⟨h₁, h₂, h₃, h₄, h₅⟩ => ⟨h₁, h₂, h₃, h₄, h₅⟩,
      fun ⟨h₁, h₂, h₃, h₄, h₅⟩ => ⟨h₁, h₂, h₃, h₄, h₅⟩⟩

/-- The number of brackets that are open behind a text. -/
def openBehind (cs : List Char) : Nat :=
  (cs.count '(' + cs.count '<' + cs.count '[') - (cs.count ')' + cs.count '>' + cs.count ']')

/-- The list that texts make up when they are joined by commas. -/
def joinCommas (texts : List (List Char)) : List Char := [',', ' '].intercalate texts

variable {t before : List Char} {texts : List (List Char)}

/-! ### Cutting at commas -/

/-- The number of open brackets behind one more character. -/
lemma openBehind_concat (before : List Char) (c : Char) :
    openBehind (before ++ [c]) =
      if c = '(' ∨ c = '<' ∨ c = '[' then
        (before.count '(' + before.count '<' + before.count '[' + 1) -
          (before.count ')' + before.count '>' + before.count ']')
      else if c = ')' ∨ c = '>' ∨ c = ']' then openBehind before - 1
      else openBehind before := by
  unfold openBehind
  split_ifs with hopen hclose
  · rcases hopen with rfl | rfl | rfl <;> simp <;> omega
  · rcases hclose with rfl | rfl | rfl <;> simp <;> omega
  · push Not at hopen hclose
    simp [hopen, hclose]

/-- A beginning of a parameter is passed without a cut, and the depth behind it is the number of the
brackets that are open there. -/
lemma IsParameter.splitAtTopCommas_append (h : IsParameter t) (hbefore : before <+: t)
    (current rest : List Char) :
    splitAtTopCommas 0 current (before ++ rest) =
      splitAtTopCommas (openBehind before) (before.reverse ++ current) rest := by
  induction before using List.reverseRecOn generalizing rest with
  | nil => rfl
  | append_singleton before c ih =>
    have hinit : before <+: t := (List.prefix_append before [c]).trans hbefore
    have hmem : before ∈ t.inits := (List.mem_inits _ _).mpr hinit
    have hle := h.closes_le
    simp only [bracketKinds, List.forall_mem_cons] at hle
    have hround := hle.1 before hmem
    have hangle := hle.2.1 before hmem
    have hsquare := hle.2.2.1 before hmem
    rw [List.append_assoc, List.singleton_append, ih hinit, openBehind_concat, splitAtTopCommas,
      List.reverse_concat, List.cons_append]
    split_ifs with hopen hclose hcomma
    · rw [openBehind]
      congr 1
      omega
    · rfl
    · -- A comma of the parameter stands inside some bracket, so the depth is not zero.
      obtain ⟨rfl, hdepth⟩ := hcomma
      obtain ⟨b, hb, hlt⟩ := h.comma_inside before hmem ((List.mem_inits _ _).mpr hbefore)
      simp only [bracketKinds, List.mem_cons, List.not_mem_nil, or_false] at hb
      rw [openBehind] at hdepth
      rcases hb with rfl | rfl | rfl <;> simp only at hlt <;> omega
    · rfl

/-- All brackets are closed behind a parameter. -/
lemma IsParameter.openBehind_eq (h : IsParameter t) : openBehind t = 0 := by
  have heq := h.closes_eq
  simp only [bracketKinds, List.forall_mem_cons] at heq
  rw [openBehind, heq.1, heq.2.1, heq.2.2.1, Nat.sub_self]

/-- Behind a parameter the text is cut at a comma. -/
lemma IsParameter.splitAtTopCommas_comma (h : IsParameter t) (current rest : List Char) :
    splitAtTopCommas 0 current (t ++ ',' :: rest) =
      (current.reverse ++ t) :: splitAtTopCommas 0 [] rest := by
  rw [h.splitAtTopCommas_append List.prefix_rfl, h.openBehind_eq]
  simp [splitAtTopCommas]

/-- Blanks in front of a trimmed text that is not empty are trimmed. -/
lemma trimBy_append_of_blank {blanks : List Char} (hblanks : ∀ c ∈ blanks, isBlank c = true)
    (ht : trimBy isBlank t = t) : trimBy isBlank (blanks ++ t) = t := by
  rw [trimBy, trimLeftBy, List.dropWhile_append_of_pos hblanks]
  exact ht

/-- Parameters that are joined by commas are cut into the same parameters, and the last of them need
not be complete. -/
lemma map_trimBy_splitAtTopCommas (h : ∀ t ∈ texts, IsParameter t) (hlast : IsParameter t)
    (hbefore : before <+: t) (htrimmed : trimBy isBlank before = before) {current : List Char}
    (hcurrent : ∀ c ∈ current, isBlank c = true) :
    (splitAtTopCommas 0 current (joinCommas (texts ++ [before]))).map (trimBy isBlank) =
      texts ++ [before] := by
  have hreverse : ∀ c ∈ current.reverse, isBlank c = true := fun c hc =>
    hcurrent c (List.mem_reverse.mp hc)
  induction texts generalizing current with
  | nil =>
    have hend := hlast.splitAtTopCommas_append hbefore current []
    rw [List.append_nil] at hend
    rw [List.nil_append, joinCommas, List.intercalate_singleton, hend, splitAtTopCommas,
      List.reverse_append, List.reverse_reverse, List.map_singleton,
      trimBy_append_of_blank hreverse htrimmed]
  | cons text texts ih =>
    rw [List.forall_mem_cons] at h
    have hspace : ∀ cs, splitAtTopCommas 0 [] (' ' :: cs) = splitAtTopCommas 0 [' '] cs := fun cs =>
      by simp [splitAtTopCommas]
    rw [List.cons_append, joinCommas, List.intercalate_cons_of_ne_nil (by simp), List.append_assoc,
      ← joinCommas, List.cons_append, List.cons_append, List.nil_append,
      h.1.splitAtTopCommas_comma, hspace, List.map_cons,
      trimBy_append_of_blank hreverse h.1.trimmed, ih h.2 (by simp [isBlank]) (by simp [isBlank])]

/-! ### Taking off the parentheses -/

/-- What stands in front of the last of some texts when they are joined. -/
def joinedBefore (texts : List (List Char)) : List Char := texts.flatMap (· ++ [',', ' '])

/-- Joined texts are the last of them behind the others. -/
lemma joinCommas_append_singleton (texts : List (List Char)) (t : List Char) :
    joinCommas (texts ++ [t]) = joinedBefore texts ++ t := by
  induction texts with
  | nil => rw [List.nil_append, joinCommas, List.intercalate_singleton]; rfl
  | cons text texts ih =>
    rw [List.cons_append, joinCommas, List.intercalate_cons_of_ne_nil (by simp), ← joinCommas, ih,
      joinedBefore, joinedBefore, List.flatMap_cons, List.append_assoc, List.append_assoc,
      List.append_assoc]

/-- A list of texts none of which is empty ends with a text that is not. -/
lemma dropEmptyLast_append_singleton (texts : List (List Char)) (ht : t ≠ []) :
    dropEmptyLast (texts ++ [t]) = texts ++ [t] := by
  rw [dropEmptyLast, List.getLast?_concat]
  cases t with
  | nil => exact absurd rfl ht
  | cons c cs => rfl

/-- Joining adds commas and spaces only. -/
lemma count_joinCommas {x : Char} (hcomma : x ≠ ',') (hspace : x ≠ ' ')
    (texts : List (List Char)) : (joinCommas texts).count x = texts.flatten.count x := by
  induction texts with
  | nil => rfl
  | cons text texts ih =>
    rw [List.flatten_cons, List.count_append, ← ih]
    by_cases hne : texts = []
    · subst hne
      rw [joinCommas, List.intercalate_singleton]
      rfl
    · have hsep : [',', ' '].count x = 0 := by simp [hcomma.symm, hspace.symm]
      rw [joinCommas, List.intercalate_cons_of_ne_nil hne, List.count_append, List.count_append,
        hsep, Nat.add_zero, joinCommas]

/-- A parameter begins with a character that is neither blank nor a closing parenthesis. -/
lemma IsParameter.exists_eq_cons (h : IsParameter t) :
    ∃ c cs, t = c :: cs ∧ isBlank c = false ∧ c ≠ ')' := by
  cases t with
  | nil => exact absurd rfl h.ne_nil
  | cons c cs =>
    refine ⟨c, cs, rfl, (trimBy_eq_self_iff.mp h.trimmed).1 c rfl, ?_⟩
    rintro rfl
    have hle := h.closes_le ('(', ')') (by simp [bracketKinds]) [')'] (by simp)
    simp at hle

/-- A list of parameters begins as its first parameter does. -/
lemma exists_joinCommas_eq_cons (h : ∀ t ∈ texts, IsParameter t) (hne : texts ≠ []) :
    ∃ c cs, joinCommas texts = c :: cs ∧ isBlank c = false ∧
      ∀ t ∈ texts.head?, t.head? = some c := by
  cases texts with
  | nil => exact absurd rfl hne
  | cons t texts =>
    obtain ⟨c, cs, rfl, hblank, -⟩ := (h t List.mem_cons_self).exists_eq_cons
    refine ⟨c, joinCommas (cs :: texts), ?_, hblank, fun u hu => ?_⟩
    · rw [joinCommas, List.intercalate_cons_cons_left, joinCommas]
    · rw [← Option.some.inj hu, List.head?_cons]

/-- A list in parentheses has no blanks at its ends. -/
lemma trimBy_parenthesized (cs : List Char) :
    trimBy isBlank ('(' :: cs ++ [')']) = '(' :: cs ++ [')'] := by
  refine trimBy_eq_self_iff.mpr ⟨fun c hc => ?_, fun c hc => ?_⟩
  · rw [← Option.some.inj hc]
    rfl
  · rw [List.getLast?_concat] at hc
    rw [← Option.some.inj hc]
    rfl

/-- A text without the closing parentheses at its end. -/
def withoutClosing (t : List Char) : List Char := trimBy isBlank (trimRightBy (· == ')') t)

/-- What is left of a parameter behind other text. -/
lemma trimBy_trimRightBy_append {c d : Char} {cs ds : List Char} (front : List Char)
    (hfront : front ++ c :: cs = d :: ds) (hd : isBlank d = false) (hblank : isBlank c = false)
    (hclosing : c ≠ ')') :
    trimBy isBlank (trimRightBy (· == ')') (front ++ c :: cs)) =
      front ++ c :: trimRightBy isBlank (trimRightBy (· == ')') cs) := by
  have hc : (c == ')') = false := by simpa using hclosing
  rw [trimRightBy_append_cons_of_neg (p := (· == ')')) hc, trimBy]
  have hleft : trimLeftBy isBlank (front ++ c :: trimRightBy (· == ')') cs) =
      front ++ c :: trimRightBy (· == ')') cs := by
    cases front with
    | nil => exact trimLeftBy_cons_of_neg hblank
    | cons e front =>
      obtain ⟨rfl, -⟩ := List.cons.inj hfront
      exact trimLeftBy_cons_of_neg hd
  rw [hleft, trimRightBy_append_cons_of_neg hblank]

/-- What is left of a parameter begins as it did. -/
lemma exists_withoutClosing_eq_cons (h : IsParameter t) :
    ∃ c cs rest, t = c :: cs ∧ isBlank c = false ∧ c ≠ ')' ∧
      withoutClosing t = c :: rest ∧ rest <+: cs := by
  obtain ⟨c, cs, rfl, hblank, hclosing⟩ := h.exists_eq_cons
  refine ⟨c, cs, _, rfl, hblank, hclosing,
    trimBy_trimRightBy_append [] (List.nil_append (c :: cs)) hblank hblank hclosing, ?_⟩
  exact (trimRightBy_isPrefix _ _).trans (trimRightBy_isPrefix _ _)

/-- What is left of a parameter is a beginning of it. -/
lemma withoutClosing_isPrefix (h : IsParameter t) : withoutClosing t <+: t := by
  obtain ⟨c, cs, rest, rfl, -, -, heq, hrest⟩ := exists_withoutClosing_eq_cons h
  rw [heq, List.prefix_cons_inj]
  exact hrest

/-- Something is left of a parameter. -/
lemma withoutClosing_ne_nil (h : IsParameter t) : withoutClosing t ≠ [] := by
  obtain ⟨c, cs, rest, -, -, -, heq, -⟩ := exists_withoutClosing_eq_cons h
  rw [heq]
  exact List.cons_ne_nil _ _

/-- All of a parameter is left exactly if it does not end with a closing parenthesis. -/
lemma withoutClosing_eq_self_iff (h : IsParameter t) :
    withoutClosing t = t ↔ t.getLast? ≠ some ')' := by
  have hends : t.getLast? ≠ some ')' ↔ trimRightBy (· == ')') t = t := by
    rw [trimRightBy_eq_self_iff]
    simp only [Option.mem_def, beq_eq_false_iff_ne]
    exact ⟨fun hne c hc heq => hne (heq ▸ hc), fun hne heq => hne _ heq rfl⟩
  rw [hends]
  refine ⟨fun heq => ?_, fun heq => by rw [withoutClosing, heq, h.trimmed]⟩
  have hlength : t.length ≤ (trimRightBy (· == ')') t).length := by
    have hle := (trimBy_sublist isBlank (trimRightBy (· == ')') t)).length_le
    rwa [show trimBy isBlank (trimRightBy (· == ')') t) = t from heq] at hle
  exact (trimRightBy_isPrefix _ t).eq_of_length_le hlength

/-- A parameter of which the keyword for no parameters is left is that keyword. -/
lemma eq_void_of_withoutClosing (h : IsParameter t)
    (hvoid : withoutClosing t = ['v', 'o', 'i', 'd']) : t = ['v', 'o', 'i', 'd'] := by
  have hopening : t.count '(' = 0 := by
    obtain ⟨c, cs, -, rfl, hblank, hclosing, -⟩ := exists_withoutClosing_eq_cons h
    have heq := trimBy_trimRightBy_append [] (List.nil_append (c :: cs)) hblank hblank hclosing
    rw [List.nil_append, ← withoutClosing, hvoid, List.nil_append] at heq
    rw [List.count_cons, ← count_trimRightBy (p := (· == ')')) (by rfl),
      ← count_trimRightBy (p := isBlank) (by rfl), ← List.count_cons, ← heq]
    rfl
  have hnone : t.count ')' = 0 := by
    rw [h.closes_eq ('(', ')') (by simp [bracketKinds]), hopening]
  rw [← hvoid, eq_comm, withoutClosing_eq_self_iff h]
  intro hlast
  exact List.count_eq_zero.mp hnone (List.mem_of_getLast? hlast)

/-! ### Lists in parentheses -/

/-- If the first parameter does not begin with a parenthesis, the parameters come back, but the last
of them without the parentheses at its end. -/
lemma parametersOf_joinCommas (h : ∀ t ∈ texts, IsParameter t) (ht : IsParameter t)
    (hvoid : texts ++ [t] ≠ [['v', 'o', 'i', 'd']])
    (hfirst : ∀ u ∈ (texts ++ [t]).head?, u.head? ≠ some '(') :
    parametersOf ('(' :: joinCommas (texts ++ [t]) ++ [')']) = texts ++ [withoutClosing t] := by
  have hall : ∀ u ∈ texts ++ [t], IsParameter u := fun u hu =>
    (List.mem_append.mp hu).elim (h u) fun hu => List.mem_singleton.mp hu ▸ ht
  obtain ⟨d, ds, hjoin, hd, hhead⟩ := exists_joinCommas_eq_cons hall (by simp)
  have hopening : (d == '(') = false := by
    obtain ⟨u, hu⟩ : ∃ u, u ∈ (texts ++ [t]).head? :=
      Option.isSome_iff_exists.mp (List.isSome_head?.mpr (by simp))
    have hne := hfirst u hu
    rw [hhead u hu] at hne
    simpa using hne
  have hleft : trimBy isBlank (trimRightBy (· == ')') (trimLeftBy (· == '(')
      (trimBy isBlank ('(' :: joinCommas (texts ++ [t]) ++ [')'])))) =
      joinCommas (texts ++ [withoutClosing t]) := by
    rw [trimBy_parenthesized, List.cons_append, trimLeftBy_cons_of_pos (by rfl), hjoin,
      List.cons_append, trimLeftBy_cons_of_neg (p := (· == '(')) hopening, ← List.cons_append,
      trimRightBy_concat_of_pos (by rfl), ← hjoin, joinCommas_append_singleton,
      joinCommas_append_singleton]
    obtain ⟨c, cs, -, rfl, hblank, hclosing, -⟩ := exists_withoutClosing_eq_cons ht
    have hfront : joinedBefore texts ++ c :: cs = d :: ds := by
      rw [← hjoin, joinCommas_append_singleton]
    rw [trimBy_trimRightBy_append _ hfront hd hblank hclosing, withoutClosing,
      ← List.nil_append (c :: cs),
      trimBy_trimRightBy_append [] (List.nil_append (c :: cs)) hblank hblank hclosing,
      List.nil_append]
  have hpieces : (splitAtTopCommas 0 [] (joinCommas (texts ++ [withoutClosing t]))).map
      (trimBy isBlank) = texts ++ [withoutClosing t] :=
    map_trimBy_splitAtTopCommas h ht (withoutClosing_isPrefix ht) (trimBy_trimBy _ _) (by simp)
  have hsome : joinCommas (texts ++ [withoutClosing t]) ≠ [] := by
    rw [joinCommas_append_singleton]
    exact List.append_ne_nil_of_right_ne_nil _ (withoutClosing_ne_nil ht)
  have hother : joinCommas (texts ++ [withoutClosing t]) ≠ ['v', 'o', 'i', 'd'] := by
    intro heq
    have hsplit : (splitAtTopCommas 0 [] ['v', 'o', 'i', 'd']).map (trimBy isBlank) =
        [] ++ [['v', 'o', 'i', 'd']] := by decide
    rw [heq, hsplit] at hpieces
    obtain ⟨hnil, hlast⟩ := List.append_inj' hpieces rfl
    rw [← hnil, List.nil_append, eq_void_of_withoutClosing ht (List.singleton_inj.mp hlast).symm]
      at hvoid
    exact hvoid rfl
  rw [parametersOf, hleft]
  simp only [hsome, hother, or_self, if_false]
  rw [hpieces, dropEmptyLast_append_singleton _ (withoutClosing_ne_nil ht)]

/-- Cutting a text loses commas only. -/
lemma flatten_splitAtTopCommas_sublist (depth : Nat) (current cs : List Char) :
    (splitAtTopCommas depth current cs).flatten.Sublist (current.reverse ++ cs) := by
  fun_induction splitAtTopCommas depth current cs with
  | case1 => simp
  | case2 depth current c cs hopen ih => simpa using ih
  | case3 depth current c cs hopen hclose ih => simpa using ih
  | case4 depth current c cs hopen hclose hcomma ih =>
    rw [List.flatten_cons]
    rw [List.reverse_nil, List.nil_append] at ih
    exact (ih.cons c).append_left _
  | case5 depth current c cs hopen hclose hcomma ih => simpa using ih

/-- Trimming the parts of a text loses blanks only. -/
lemma flatten_map_trimBy_sublist (p : Char → Bool) (texts : List (List Char)) :
    (texts.map (trimBy p)).flatten.Sublist texts.flatten := by
  induction texts with
  | nil => exact .refl _
  | cons text texts ih => exact (trimBy_sublist p text).append ih

/-- The parameters are made of what stands inside the parentheses that are taken off. -/
lemma flatten_parametersOf_sublist (signature : List Char) :
    (parametersOf signature).flatten.Sublist
      (trimLeftBy (· == '(') (trimBy isBlank signature)) := by
  have hdrop : ∀ texts, (dropEmptyLast texts).Sublist texts := by
    intro texts
    unfold dropEmptyLast
    split
    · exact List.dropLast_sublist texts
    · exact .refl _
  unfold parametersOf
  simp only
  split_ifs
  · exact List.nil_sublist _
  · refine (hdrop _).flatten.trans ((flatten_map_trimBy_sublist _ _).trans ?_)
    refine (flatten_splitAtTopCommas_sublist 0 [] _).trans ?_
    exact (trimBy_sublist _ _).trans (trimRightBy_isPrefix _ _).sublist

/-- A first parameter that begins with a parenthesis does not come back. -/
lemma parametersOf_ne (texts : List (List Char)) (hfirst : ∃ t ∈ texts.head?, t.head? = some '(') :
    parametersOf ('(' :: joinCommas texts ++ [')']) ≠ texts := by
  obtain ⟨t, ht, hopening⟩ := hfirst
  obtain ⟨cs, rfl⟩ := List.head?_eq_some_iff.mp hopening
  obtain ⟨texts, rfl⟩ := List.head?_eq_some_iff.mp ht
  intro heq
  have hjoin : joinCommas (('(' :: cs) :: texts) = '(' :: joinCommas (cs :: texts) :=
    List.intercalate_cons_cons_left
  have hsublist := flatten_parametersOf_sublist ('(' :: joinCommas (('(' :: cs) :: texts) ++ [')'])
  rw [heq, trimBy_parenthesized, List.cons_append, trimLeftBy_cons_of_pos (by rfl), hjoin,
    List.cons_append, trimLeftBy_cons_of_pos (by rfl)] at hsublist
  have hcount := (hsublist.trans (trimLeftBy_isSuffix _ _).sublist).count_le '('
  rw [← count_joinCommas (by decide) (by decide), hjoin, List.count_cons_self,
    List.count_append] at hcount
  have hzero : [')'].count '(' = 0 := by decide
  omega

/-- The text of a list of parameters in parentheses. -/
def parameterList (texts : List String) : String := "(" ++ ", ".intercalate texts ++ ")"

/-- A written list is split as its characters are. -/
lemma splitParameters_parameterList (texts : List String) :
    splitParameters (parameterList texts) =
      (parametersOf ('(' :: joinCommas (texts.map String.toList) ++ [')'])).map String.ofList := by
  rw [splitParameters, parameterList, String.toList_append, String.toList_append,
    String.toList_intercalate]
  rfl

/-- If the first text does not begin with a parenthesis, all texts come back but the last, which
comes back without the parentheses at its end. -/
lemma splitParameters_append_singleton {texts : List String} {last : String}
    (h : ∀ t ∈ texts ++ [last], IsParameter t.toList) (hvoid : texts ++ [last] ≠ ["void"])
    (hfirst : ∀ t ∈ (texts ++ [last]).head?, t.toList.head? ≠ some '(') :
    splitParameters (parameterList (texts ++ [last])) =
      texts ++ [String.ofList (withoutClosing last.toList)] := by
  have hid : String.ofList ∘ String.toList = id := funext fun s => String.ofList_toList
  rw [splitParameters_parameterList, List.map_append, List.map_singleton, parametersOf_joinCommas,
    List.map_append, List.map_map, hid, List.map_id, List.map_singleton]
  · intro t ht
    obtain ⟨s, hs, rfl⟩ := List.mem_map.mp ht
    exact h s (List.mem_append_left _ hs)
  · exact h last (by simp)
  · intro heq
    apply hvoid
    apply List.map_injective_iff.mpr fun s t hst => String.toList_inj.mp hst
    rw [List.map_append, List.map_singleton, heq]
    rfl
  · intro t ht
    rw [← List.map_singleton (f := String.toList), ← List.map_append, List.head?_map] at ht
    obtain ⟨s, hs, rfl⟩ := Option.map_eq_some_iff.mp ht
    exact hfirst s hs

/-- A first text that begins with a parenthesis does not come back. -/
lemma splitParameters_ne {texts : List String}
    (hfirst : ∃ t ∈ texts.head?, t.toList.head? = some '(') :
    splitParameters (parameterList texts) ≠ texts := by
  obtain ⟨t, ht, hopening⟩ := hfirst
  intro heq
  have hid : String.toList ∘ String.ofList = id := funext fun cs => String.toList_ofList
  refine parametersOf_ne (texts.map String.toList) ⟨t.toList, ?_, hopening⟩ ?_
  · rw [List.head?_map]
    exact Option.mem_map_of_mem String.toList ht
  · have hback := congrArg (List.map String.toList) heq
    rwa [splitParameters_parameterList, List.map_map, hid, List.map_id] at hback

/-- A list of parameters is split into the parameters that it is written from, exactly if the first
of them does not begin with a parenthesis and the last does not end with one.  If only the last
does, it is the only one that does not come back whole: it loses the parentheses at its end. -/
theorem splitParameters_eq_iff {texts : List String} (hne : texts ≠ []) (hvoid : texts ≠ ["void"])
    (h : ∀ t ∈ texts, IsParameter t.toList) :
    (splitParameters (parameterList texts) = texts ↔
      (∀ t ∈ texts.head?, t.toList.head? ≠ some '(') ∧
        ∀ t ∈ texts.getLast?, t.toList.getLast? ≠ some ')') ∧
    ((∀ t ∈ texts.head?, t.toList.head? ≠ some '(') →
      splitParameters (parameterList texts) = texts.dropLast ++
        texts.getLast?.toList.map fun t => String.ofList (withoutClosing t.toList)) := by
  obtain ⟨texts, last, rfl⟩ := (List.eq_nil_or_concat texts).resolve_left hne
  rw [List.concat_eq_append] at *
  have hlast : IsParameter last.toList := h last (by simp)
  have hends : ∀ t ∈ (texts ++ [last]).getLast?, t = last := by simp
  refine ⟨⟨fun heq => ?_, fun ⟨hopening, hclosing⟩ => ?_⟩, fun hopening => ?_⟩
  · by_cases hopening : ∀ t ∈ (texts ++ [last]).head?, t.toList.head? ≠ some '('
    · refine ⟨hopening, fun t ht => ?_⟩
      rw [splitParameters_append_singleton h hvoid hopening] at heq
      have hwhole := List.singleton_inj.mp (List.append_cancel_left heq)
      rw [← String.toList_inj, String.toList_ofList] at hwhole
      rw [hends t ht]
      exact (withoutClosing_eq_self_iff hlast).mp hwhole
    · push Not at hopening
      exact absurd heq (splitParameters_ne hopening)
  · rw [splitParameters_append_singleton h hvoid hopening,
      (withoutClosing_eq_self_iff hlast).mpr (hclosing last (by simp)), String.ofList_toList]
  · rw [splitParameters_append_singleton h hvoid hopening, List.dropLast_concat,
      List.getLast?_concat]
    rfl

/-- The parameters of a function that takes a pointer to a function first and a map second are split
as they were written. -/
theorem splitParameters_callbackFirst :
    let texts := ["void (*cb)(int, int)", "std::map<int, int> m"]
    texts ≠ [] ∧ texts ≠ ["void"] ∧ (∀ t ∈ texts, IsParameter t.toList) ∧
      splitParameters (parameterList texts) = texts := by
  have h : ∀ t ∈ ["void (*cb)(int, int)", "std::map<int, int> m"], IsParameter t.toList := by
    decide +kernel
  have hiff := (splitParameters_eq_iff (by decide) (by decide) h).1
  exact ⟨by decide, by decide, h, hiff.mpr (by decide +kernel)⟩

/-- A pointer to a function in the last place does not come back whole. -/
theorem not_splitParameters_callbackLast :
    ¬ ∀ texts : List String, texts ≠ [] → texts ≠ ["void"] →
      (∀ t ∈ texts, IsParameter t.toList) → splitParameters (parameterList texts) = texts := by
  intro h
  have hsplit := h ["void (*handler)(int)"] (by decide) (by decide) (by decide +kernel)
  have hcut : splitParameters (parameterList ["void (*handler)(int)"]) =
      ["void (*handler)(int"] := by decide +kernel
  rw [hcut] at hsplit
  exact absurd hsplit (by decide)

end CodeAtlas
