import CodeAtlas.Proofs.Tool.Contexts
import CodeAtlas.Proofs.Tool.Parameters
import CodeAtlas.Tool.LanguageServer.Symbols

/-!
# One signature in two listings

A cross-reference listing shows a function as it is written, with its name between the return type
and the parameters; a language server describes it without the name.  Both give the parameters to
the same splitter, but each finds the end of their list in its own way.  The language server's
description is read up to the parenthesis that closes the first one (`balancedPart_parenthesized`),
the listing up to the first closing parenthesis of all (`parameters?_classify`).

What the splitter is given decides what it returns (`count_flatten_parametersOf`): the two lists
are the same exactly if nothing but closing parentheses stands behind the first one of the
parameters, for then the splitter takes all of them off (`parametersOf_eq_iff`).  Besides, a context
in whose parameters an enumeration is defined is not taken for a function at all.
-/

namespace CodeAtlas

variable {x : Char} {cs ds front : List Char}

/-! ### What the splitter is given -/

/-- A list of parameters without the blanks and parentheses at its ends. -/
def innerList (signature : List Char) : List Char :=
  trimBy isBlank (trimRightBy (· == ')') (trimLeftBy (· == '(') (trimBy isBlank signature)))

/-- The splitter depends on what stands inside the parentheses. -/
lemma parametersOf_congr {signature signature' : List Char}
    (h : innerList signature = innerList signature') :
    parametersOf signature = parametersOf signature' := by
  rw [innerList, innerList] at h
  rw [parametersOf, parametersOf, h]

/-- Cutting loses no character but commas. -/
lemma count_flatten_splitAtTopCommas (hx : x ≠ ',') (depth : Nat) (current cs : List Char) :
    (splitAtTopCommas depth current cs).flatten.count x = current.count x + cs.count x := by
  fun_induction splitAtTopCommas depth current cs with
  | case1 depth current => simp
  | case2 depth current c cs hopen ih => rw [ih, List.count_cons, List.count_cons]; omega
  | case3 depth current c cs hopen hclose ih => rw [ih, List.count_cons, List.count_cons]; omega
  | case4 depth current c cs hopen hclose hcomma ih =>
    rw [List.flatten_cons, List.count_append, ih, List.count_reverse, List.count_nil,
      List.count_cons_of_ne (by rw [hcomma.1]; exact hx.symm), Nat.zero_add]
  | case5 depth current c cs hopen hclose hcomma ih =>
    rw [ih, List.count_cons, List.count_cons]; omega

/-- The parameters hold what stands inside the parentheses, but for commas and blanks. -/
lemma count_flatten_parametersOf (hblank : isBlank x = false) (hcomma : x ≠ ',')
    (hvoid : x ∉ ['v', 'o', 'i', 'd']) (signature : List Char) :
    (parametersOf signature).flatten.count x = (innerList signature).count x := by
  have hdrop : ∀ texts, (dropEmptyLast texts).flatten = texts.flatten := by
    intro texts
    unfold dropEmptyLast
    split
    · rename_i hlast
      obtain ⟨front, rfl⟩ := List.getLast?_eq_some_iff.mp hlast
      simp
    · rfl
  have htrim : ∀ texts : List (List Char),
      (texts.map (trimBy isBlank)).flatten.count x = texts.flatten.count x := by
    intro texts
    induction texts with
    | nil => rfl
    | cons text texts ih =>
      rw [List.map_cons, List.flatten_cons, List.flatten_cons, List.count_append, List.count_append,
        count_trimBy hblank, ih]
  unfold parametersOf
  simp only
  rw [← innerList]
  split_ifs with hnone
  · rcases hnone with hnil | hword
    · rw [hnil]
      rfl
    · rw [hword, List.count_eq_zero.mpr hvoid]
      rfl
  · rw [hdrop, htrim, count_flatten_splitAtTopCommas hcomma, List.count_nil, Nat.zero_add]

/-! ### Lists that end at the first closing parenthesis -/

/-- The outer parentheses are taken off first. -/
lemma innerList_parenthesized (cs : List Char) :
    innerList ('(' :: cs ++ [')']) =
      trimBy isBlank (trimRightBy (· == ')') (trimLeftBy (· == '(') (cs ++ [')']))) := by
  rw [innerList, trimBy_parenthesized, List.cons_append, trimLeftBy_cons_of_pos (by rfl)]

/-- Closing parentheses at the end make no difference. -/
lemma innerList_append_closing (hds : ∀ c ∈ ds, c = ')') (cs : List Char) :
    innerList ('(' :: (cs ++ ds) ++ [')']) = trimBy isBlank (trimRightBy (· == ')')
      (trimLeftBy (· == '(') cs)) := by
  have hall : ∀ c ∈ ds ++ [')'], c = ')' := List.forall_mem_append.mpr ⟨hds, by simp⟩
  rw [innerList_parenthesized, List.append_assoc, trimLeftBy_append_of_neg,
    trimRightBy_append_of_pos]
  · exact fun c hc => by simp [hall c hc]
  · exact fun c hc => by simp [hall c (List.mem_of_mem_head? hc)]

/-- A closing parenthesis that other text follows is kept. -/
lemma closing_mem_innerList {behind : List Char} (h : ∃ c ∈ behind, c ≠ ')') (cs : List Char) :
    ')' ∈ innerList ('(' :: (cs ++ ')' :: behind) ++ [')']) := by
  obtain ⟨c, hc, hne⟩ := h
  obtain ⟨us, vs, rfl⟩ := List.append_of_mem hc
  have hother : (c == ')') = false := by simpa using hne
  have hsplit : cs ++ ')' :: (us ++ c :: vs) ++ [')'] =
      cs ++ ')' :: (us ++ c :: (vs ++ [')'])) := by simp
  rw [innerList_parenthesized, hsplit, trimLeftBy_append_of_neg (by simp), ← List.cons_append,
    ← List.append_assoc, trimRightBy_append_cons_of_neg (p := (· == ')')) hother,
    ← List.count_pos_iff, count_trimBy (by rfl), List.count_pos_iff]
  simp

/-- What is left from the first occurrence of a character on begins with it. -/
lemma dropWhile_ne_cases (x : Char) (cs : List Char) :
    cs.dropWhile (· != x) = [] ∨ ∃ behind, cs.dropWhile (· != x) = x :: behind := by
  induction cs with
  | nil => exact .inl rfl
  | cons c cs ih =>
    rw [List.dropWhile_cons]
    split_ifs with hc
    · exact ih
    · exact .inr ⟨cs, by rw [show c = x by simpa using hc]⟩

/-- A list that is cut at the first closing parenthesis has the parameters of the whole exactly if
only closing parentheses stand behind that. -/
lemma parametersOf_eq_iff (cs : List Char) :
    parametersOf ('(' :: cs.takeWhile (· != ')') ++ [')']) = parametersOf ('(' :: cs ++ [')']) ↔
      ∀ c ∈ cs.dropWhile (· != ')'), c = ')' := by
  obtain ⟨front, closing, hfront, hclosing⟩ :
      ∃ front closing, cs.takeWhile (· != ')') = front ∧ cs.dropWhile (· != ')') = closing :=
    ⟨_, _, rfl, rfl⟩
  have hcs : cs = front ++ closing := by
    rw [← hfront, ← hclosing, List.takeWhile_append_dropWhile]
  have hnone : ')' ∉ front := fun hmem => by
    rw [← hfront] at hmem
    simpa using List.mem_takeWhile_imp hmem
  have hinner := innerList_append_closing (List.forall_mem_nil (· = ')')) front
  rw [List.append_nil] at hinner
  rw [hfront, hclosing, hcs]
  refine ⟨fun heq => ?_, fun hall => parametersOf_congr ?_⟩
  · by_contra hother
    push Not at hother
    obtain ⟨behind, rfl⟩ : ∃ behind, closing = ')' :: behind := by
      rw [← hclosing]
      refine (dropWhile_ne_cases ')' cs).resolve_left fun hnil => ?_
      rw [← hclosing, hnil] at hother
      simp at hother
    have hbehind : ∃ c ∈ behind, c ≠ ')' := by simpa using hother
    have hmem := closing_mem_innerList hbehind front
    have hcount := congrArg (fun texts : List (List Char) => texts.flatten.count ')') heq
    rw [count_flatten_parametersOf (by rfl) (by decide) (by decide),
      count_flatten_parametersOf (by rfl) (by decide) (by decide), hinner, count_trimBy (by rfl)]
      at hcount
    have hzero : (trimRightBy (· == ')') (trimLeftBy (· == '(') front)).count ')' = 0 :=
      List.count_eq_zero.mpr fun hmem => hnone ((trimLeftBy_isSuffix _ _).subset
        ((trimRightBy_isPrefix _ _).subset hmem))
    rw [hzero] at hcount
    exact (Nat.ne_of_lt (List.count_pos_iff.mpr hmem)) hcount
  · rw [hinner, innerList_append_closing hall]

/-! ### Lists that end at the parenthesis that belongs to the first -/

/-- No beginning of a text closes more parentheses than it opens, and the text closes all. -/
def IsBalanced (cs : List Char) : Prop :=
  (∀ before ∈ cs.inits, before.count ')' ≤ before.count '(') ∧ cs.count ')' = cs.count '('

instance (cs : List Char) : Decidable (IsBalanced cs) := by
  unfold IsBalanced; infer_instance

namespace LanguageServer

/-- A beginning of a balanced text does not close the parenthesis before it. -/
lemma balancedPart_append (h : IsBalanced cs) (hds : ds <+: cs) (rest : List Char) :
    balancedPart 1 (ds ++ rest) =
      ds ++ balancedPart (1 + (ds.count '(' - ds.count ')')) rest := by
  induction ds using List.reverseRecOn generalizing rest with
  | nil => rfl
  | append_singleton ds d ih =>
    have hle := h.1 ds ((List.mem_inits _ _).mpr ((List.prefix_append ds [d]).trans hds))
    have hle' := h.1 (ds ++ [d]) ((List.mem_inits _ _).mpr hds)
    rw [List.append_assoc, List.singleton_append, ih ((List.prefix_append ds [d]).trans hds),
      balancedPart, List.append_assoc, List.singleton_append]
    split_ifs with hopening hclosing hdepth
    · subst hopening
      congr 3
      simp only [List.count_append, List.count_singleton_self]
      have hnone : ['('].count ')' = 0 := rfl
      omega
    · -- The parenthesis that is closed was opened in the text.
      subst hclosing
      rw [List.count_append, List.count_append] at hle'
      have hone : [')'].count ')' = 1 := rfl
      have hnone : [')'].count '(' = 0 := rfl
      omega
    · subst hclosing
      congr 3
      rw [List.count_append, List.count_append]
      have hone : [')'].count ')' = 1 := rfl
      have hnone : [')'].count '(' = 0 := rfl
      omega
    · congr 3
      rw [List.count_append, List.count_append, List.count_singleton, List.count_singleton,
        if_neg (by simpa using hopening), if_neg (by simpa using hclosing), Nat.add_zero,
        Nat.add_zero]

/-- All of a balanced text in parentheses is read. -/
lemma balancedPart_parenthesized (h : IsBalanced cs) :
    balancedPart 0 ('(' :: cs ++ [')']) = '(' :: cs ++ [')'] := by
  have hinner := balancedPart_append h List.prefix_rfl [')']
  rw [h.2, Nat.sub_self, Nat.add_zero] at hinner
  rw [List.cons_append, balancedPart, if_pos rfl, Nat.zero_add, hinner]
  rfl

/-- The parameters of a description are those of its list. -/
lemma splitSignature_parameters {returns : List Char} (hreturns : '(' ∉ returns)
    (h : IsBalanced cs) :
    (splitSignature (returns ++ ' ' :: ('(' :: cs ++ [')']))).2 =
      parametersOf ('(' :: cs ++ [')']) := by
  have hfront : ∀ c ∈ returns ++ [' '], (c != '(') = true := by
    rw [List.forall_mem_append]
    exact ⟨fun c hc => by simpa using fun heq : c = '(' => hreturns (heq ▸ hc), by simp⟩
  have hdrop : (returns ++ ' ' :: ('(' :: cs ++ [')'])).dropWhile (· != '(') =
      '(' :: cs ++ [')'] := by
    rw [List.append_cons, List.dropWhile_append_of_pos hfront]
    rfl
  rw [splitSignature, if_pos (by simp), hdrop, balancedPart_parenthesized h]

end LanguageServer

/-! ### The signature in a listing -/

/-- The parameters that are recorded of a function or of a definition of the preprocessor. -/
def SymbolDetail.parameters? : SymbolDetail → Option (List String)
  | .function _ parameters _ _ => some parameters
  | .define parameters _ => parameters
  | _ => none

namespace CrossReference

open LanguageServer

/-- A signature whose parts can be told apart: words for the return type, a name, and a list of
parameters that closes its parentheses. -/
structure IsSignature (name returns parameters : List Char) : Prop where
  identifier : IsIdentifier name
  words : wordsOf returns ≠ []
  opening : '(' ∉ returns
  closing : ')' ∉ returns
  storage : ∀ w ∈ wordsOf returns, w ∉ storageWords
  elsewhere : ¬ name <:+: returns
  noDefinition : afterDefinedName? returns = none
  noTypeDefinition : isTypeDefinition returns = false
  noEnumeration : atWordStart enumerationHere false returns = false
  noRecord : atWordStart recordHere false returns = false
  balanced : IsBalanced parameters
  squeezed : squeeze parameters = parameters
  elsewhere' : ¬ name <:+: parameters

instance (name returns parameters : List Char) : Decidable (IsSignature name returns parameters) :=
  decidable_of_iff
    (IsIdentifier name ∧ wordsOf returns ≠ [] ∧ '(' ∉ returns ∧ ')' ∉ returns ∧
      (∀ w ∈ wordsOf returns, storageWords.contains w = false) ∧ ¬ name <:+: returns ∧
      afterDefinedName? returns = none ∧ isTypeDefinition returns = false ∧
      atWordStart enumerationHere false returns = false ∧
      atWordStart recordHere false returns = false ∧ IsBalanced parameters ∧
      squeeze parameters = parameters ∧ ¬ name <:+: parameters)
    ⟨fun ⟨h₁, h₂, h₃, h₄, h₅, h₆, h₇, h₈, h₉, h₁₀, h₁₁, h₁₂, h₁₃⟩ =>
        ⟨h₁, h₂, h₃, h₄, fun w hw => by simpa using h₅ w hw, h₆, h₇, h₈, h₉, h₁₀, h₁₁, h₁₂, h₁₃⟩,
      fun ⟨h₁, h₂, h₃, h₄, h₅, h₆, h₇, h₈, h₉, h₁₀, h₁₁, h₁₂, h₁₃⟩ =>
        ⟨h₁, h₂, h₃, h₄, fun w hw => by simpa using h₅ w hw, h₆, h₇, h₈, h₉, h₁₀, h₁₁, h₁₂, h₁₃⟩⟩

/-- The context in which a listing shows a signature. -/
def contextOf (name returns parameters : List Char) : List Char :=
  returns ++ ' ' :: nameAndList name (parameters ++ [')'])

/-- The description that a language server gives of a signature. -/
def descriptionOf (returns parameters : List Char) : List Char :=
  returns ++ ' ' :: ('(' :: parameters ++ [')'])

variable {name returns parameters : List Char}

/-- A squeezed text has single spaces. -/
lemma singleSpaced_of_squeeze (h : squeeze cs = cs) : singleSpaced false cs = cs := by
  obtain ⟨trail, -, heq⟩ := singleSpaced_eq_intercalate cs
  rw [← squeeze, h] at heq
  have hle := length_singleSpaced_le true cs
  rw [heq, List.length_append] at hle
  rw [List.eq_nil_of_length_eq_zero (by omega : trail.length = 0), List.append_nil] at heq
  cases cs with
  | nil => rfl
  | cons c cs =>
    cases hc : isBlank c with
    | false =>
      rw [singleSpaced_cons_of_neg hc] at heq ⊢
      exact heq
    | true =>
      -- A blank in front would have been dropped.
      have hlength := congrArg List.length heq
      have hshorter := length_singleSpaced_le true cs
      rw [singleSpaced_true_cons hc, List.length_cons] at hlength
      omega

/-- The squeezed context ends with the name and the list of parameters as they are. -/
lemma squeeze_contextOf (h : IsSignature name returns parameters) :
    squeeze (contextOf name returns parameters) =
      singleSpaced true (returns ++ [' ']) ++ (name ++ '(' :: (parameters ++ [')'])) := by
  obtain ⟨trail, htrail, heq⟩ := singleSpaced_eq_intercalate (contextOf name returns parameters)
  have hends : singleSpaced true (contextOf name returns parameters) =
      singleSpaced true (returns ++ [' ']) ++ (name ++ '(' :: (parameters ++ [')'])) := by
    have hlist : singleSpaced false ('(' :: (parameters ++ [')'])) =
        '(' :: (parameters ++ [')']) := by
      rw [singleSpaced_cons_of_neg (by rfl), singleSpaced_append,
        singleSpaced_of_squeeze h.squeezed, singleSpaced_cons_of_neg (by rfl), singleSpaced]
    rw [contextOf, List.append_cons, singleSpaced_append, nameAndList,
      singleSpaced_append_of_none h.identifier.ne_nil h.identifier.isBlank_eq_false, hlist]
  rw [hends, ← squeeze] at heq
  rcases htrail with rfl | rfl
  · rw [heq, List.append_nil]
  · rw [← List.cons_append, ← List.append_assoc, ← List.append_assoc] at heq
    have hlast := (List.append_inj' heq rfl).2
    cases hlast

/-- The name is called behind the return type. -/
lemma isFirstCall_contextOf (h : IsSignature name returns parameters) {before : List Char}
    (hfirst : IsFirstCall name (contextOf name returns parameters) before) :
    before = returns ++ [' '] := by
  have hcalls : Calls name (contextOf name returns parameters) (returns ++ [' ']) :=
    ⟨[], parameters ++ [')'], by simp, by simp [contextOf, nameAndList]⟩
  have hzero : (returns ++ [' ']).count '(' = 0 := by
    rw [List.count_append, List.count_eq_zero.mpr h.opening]
    rfl
  have hle := (hfirst.2 _ hcalls).sublist.count_le '('
  exact (hfirst.eq_of_count_eq hcalls h.identifier (by omega)).symm

/-- Nothing in the list of parameters is closed up. -/
lemma closeUp_parameters (h : IsSignature name returns parameters) :
    closeUp name (parameters ++ [')']) = parameters ++ [')'] := by
  refine replaceAll_of_not_isInfix (fun hfound => ?_) _
  obtain ⟨us, vs, heq⟩ := (List.prefix_append name [' ', '(']).isInfix.trans hfound
  rcases List.eq_nil_or_concat vs with rfl | ⟨vs, v, rfl⟩
  · obtain ⟨xs, x, hx⟩ := (List.eq_nil_or_concat name).resolve_left h.identifier.ne_nil
    rw [List.append_nil, hx, List.concat_eq_append, ← List.append_assoc] at heq
    have hlast := List.singleton_inj.mp (List.append_inj' heq rfl).2
    have hmem : ')' ∈ name := by rw [hx, List.concat_eq_append, hlast]; simp
    exact h.identifier.not_mem_of_isWordCharacter (by rfl) hmem
  · rw [List.concat_eq_append, ← List.append_assoc] at heq
    exact h.elsewhere' ⟨us, vs, (List.append_inj' heq rfl).1⟩

/-- The list up to the first closing parenthesis. -/
lemma splitOnce?_list (parameters : List Char) : ∃ behind,
    splitOnce? ')' ('(' :: (parameters ++ [')'])) =
      some ('(' :: parameters.takeWhile (· != ')'), behind) := by
  obtain ⟨behind, hbehind⟩ : ∃ behind, parameters ++ [')'] =
      parameters.takeWhile (· != ')') ++ ')' :: behind := by
    have hsplit := List.takeWhile_append_dropWhile (p := (· != ')')) (l := parameters)
    rcases dropWhile_ne_cases ')' parameters with hdrop | ⟨behind, hdrop⟩
    · rw [hdrop, List.append_nil] at hsplit
      exact ⟨[], by rw [hsplit]⟩
    · rw [hdrop] at hsplit
      exact ⟨behind ++ [')'], by rw [← List.cons_append, ← List.append_assoc, hsplit]⟩
  have hnone : ')' ∉ '(' :: parameters.takeWhile (· != ')') := by
    rw [List.mem_cons, not_or]
    exact ⟨by decide, fun hmem => by simpa using List.mem_takeWhile_imp hmem⟩
  exact ⟨behind, by rw [hbehind, ← List.cons_append, splitOnce?_append hnone]⟩

/-- What is recorded of a context: the parameters up to the first closing parenthesis, unless an
enumeration is defined among the parameters. -/
lemma parameters?_classify (h : IsSignature name returns parameters) :
    (classify name (contextOf name returns parameters)).parameters? =
        some ((parametersOf ('(' :: parameters.takeWhile (· != ')') ++ [')'])).map String.ofList) ∨
      (classify name (contextOf name returns parameters) = .enumeration [] ∧
        atWordStart enumerationHere false (parameters ++ [')']) = true) := by
  obtain ⟨behind, hlist⟩ := splitOnce?_list parameters
  unfold classify
  simp only
  cases hdefine : afterDefinedName? (contextOf name returns parameters) with
  | some rest =>
    left
    rw [afterDefinedName?_context h.identifier h.words h.noDefinition hdefine]
    simp only [argumentList?, hlist, Option.map_some, SymbolDetail.parameters?]
  | none =>
    have htype : isTypeDefinition (contextOf name returns parameters) = false := by
      by_contra hcontext
      rw [Bool.not_eq_false] at hcontext
      have hreturns := isTypeDefinition_of_append h.words hcontext
      rw [h.noTypeDefinition] at hreturns
      cases hreturns
    simp only [htype, Bool.false_eq_true, if_false]
    split_ifs with henum hrecord
    · right
      refine ⟨rfl, (atWordStart_enumerationHere h.identifier henum).resolve_left fun hreturns => ?_⟩
      rw [h.noEnumeration] at hreturns
      cases hreturns
    · rw [squeeze_contextOf h, ← name_parenthesis_append name (parameters ++ [')']),
        ← List.append_assoc, hasInfix_append (by simp)] at hrecord
      simp at hrecord
    · left
      rcases functionDetail?_closeUp h.identifier (contextOf name returns parameters) with
        ⟨before, rest, hfirst, hcompact, hdetail⟩ | ⟨-, hnone⟩
      · rw [isFirstCall_contextOf h hfirst, squeeze_contextOf h] at hcompact
        have hrest : rest = parameters ++ [')'] := by
          rcases hcompact with heq | heq
          · exact ((List.cons_eq_cons.mp (List.append_cancel_left
              (List.append_cancel_left heq))).2).symm
          · have hspace := (List.cons_eq_cons.mp (List.append_cancel_left
              (List.append_cancel_left heq))).1
            cases hspace
        rw [closeUp] at hdetail
        rw [hdetail, hrest, closeUp_parameters h, parametersAtFront, hlist]
        rfl
      · exact absurd ⟨[], parameters ++ [')'], by simp, by simp [contextOf, nameAndList]⟩
          (hnone (returns ++ [' ']))

/-- The parameters that are recorded from a listing are those that are read from a language server's
description, exactly if the context is not taken for an enumeration and only closing parentheses
stand behind the first one of the parameters.  It is taken for an enumeration only if one is defined
among the parameters. -/
theorem parameters?_eq_iff (h : IsSignature name returns parameters) :
    ((classify name (contextOf name returns parameters)).parameters? =
        some ((splitSignature (descriptionOf returns parameters)).2.map String.ofList) ↔
      (classify name (contextOf name returns parameters)).kind ≠ .enumeration ∧
        ∀ c ∈ parameters.dropWhile (· != ')'), c = ')') ∧
    ((classify name (contextOf name returns parameters)).kind = .enumeration →
      atWordStart enumerationHere false (parameters ++ [')']) = true) := by
  rw [descriptionOf, splitSignature_parameters h.opening h.balanced]
  rcases parameters?_classify h with hparameters | ⟨henum, htest⟩
  · have hkind : (classify name (contextOf name returns parameters)).kind ≠ .enumeration := by
      intro hkind
      cases hdetail : classify name (contextOf name returns parameters) <;>
        rw [hdetail] at hparameters hkind <;> cases hkind
      cases hparameters
    have hinjective : Function.Injective (List.map String.ofList) :=
      List.map_injective_iff.mpr fun cs ds heq => by
        rw [← String.toList_ofList (l := cs), heq, String.toList_ofList]
    rw [hparameters, Option.some.injEq, hinjective.eq_iff, parametersOf_eq_iff]
    exact ⟨⟨fun hall => ⟨hkind, hall⟩, fun hall => hall.2⟩, fun hother => absurd hother hkind⟩
  · rw [henum]
    refine ⟨⟨fun heq => ?_, fun hother => absurd rfl hother.1⟩, fun _ => htest⟩
    cases heq

/-- A list whose last parameter is in parentheses is read alike. -/
theorem parameters?_eq_iff_parenthesizedLast :
    let name := "parse".toList
    let returns := "const struct node *".toList
    let parameters := "const char *s, int (n)".toList
    IsSignature name returns parameters ∧
      (classify name (contextOf name returns parameters)).parameters? =
        some ((splitSignature (descriptionOf returns parameters)).2.map String.ofList) := by
  have h : IsSignature "parse".toList "const struct node *".toList
      "const char *s, int (n)".toList := by decide +kernel
  have hclosing : "const char *s, int (n)".toList.dropWhile (· != ')') = [')'] := by decide +kernel
  refine ⟨h, (parameters?_eq_iff h).1.mpr ⟨by decide +kernel, fun c hc => ?_⟩⟩
  rw [hclosing] at hc
  exact List.mem_singleton.mp hc

/-- A list with a pointer to a function before its end is not read alike. -/
theorem not_parameters?_callbackFirst :
    ¬ ∀ name returns parameters : List Char, IsSignature name returns parameters →
      (classify name (contextOf name returns parameters)).parameters? =
        some ((splitSignature (descriptionOf returns parameters)).2.map String.ofList) := by
  intro h
  have heq := h "on_event".toList "void".toList "void (*cb)(int, int), int n".toList
    (by decide +kernel)
  have hlisted : (classify "on_event".toList (contextOf "on_event".toList "void".toList
      "void (*cb)(int, int), int n".toList)).parameters? = some ["void (*cb"] := by decide +kernel
  have hdescribed : (splitSignature (descriptionOf "void".toList
      "void (*cb)(int, int), int n".toList)).2.map String.ofList =
        ["void (*cb)(int, int)", "int n"] := by decide +kernel
  rw [hlisted, hdescribed] at heq
  exact absurd heq (by decide)

end CrossReference

end CodeAtlas
