import CodeAtlas.Json.Parser
import CodeAtlas.Json.Printer
import Mathlib.Data.List.TakeWhile
import Mathlib.Tactic.Common

/-!
# Reading the tokens of a written value

The text of a value, in either layout, is read into the tokens of the value.  The machine is
followed through the text piece by piece: each lemma says what the machine makes of a piece and from
where it goes on with the rest of the document.

Only numbers can come back changed.  A number is a bare word, and what a word stands for is decided
when the word is complete: an integer that does not fit into 64 bits is read as a decimal, or not at
all.  `Json.reread?` says so for whole values; it is the identity on values without such numbers.
-/

namespace CodeAtlas.Json

/-! ### What a value is read back as -/

mutual

/-- The value that a reader makes of the text of a value. -/
def reread? : Json → Option Json
  | .int n => wordValue? (toString n).toList
  | .decimal literal => wordValue? literal.toList
  | .arr items => (rereadItems? items).map .arr
  | .obj members => (rereadMembers? members).map .obj
  | j => some j

/-- The items of an array as they are read back. -/
def rereadItems? : List Json → Option (List Json)
  | [] => some []
  | item :: items => (reread? item).bind fun v => (rereadItems? items).map (v :: ·)

/-- The members of an object as they are read back. -/
def rereadMembers? : List (String × Json) → Option (List (String × Json))
  | [] => some []
  | (name, value) :: members =>
    (reread? value).bind fun v => (rereadMembers? members).map ((name, v) :: ·)

end

mutual

/-- A value can be read back if it does not nest deeper than there is room, and its decimals are
words. -/
def Fits : Nat → Json → Prop
  | _, .decimal literal => literal.toList ≠ [] ∧ ∀ c ∈ literal.toList, isWordChar c = true
  | room, .arr items => 0 < room ∧ ItemsFit (room - 1) items
  | room, .obj members => 0 < room ∧ MembersFit (room - 1) members
  | _, _ => True

/-- All items of an array fit. -/
def ItemsFit : Nat → List Json → Prop
  | _, [] => True
  | room, item :: items => Fits room item ∧ ItemsFit room items

/-- All members of an object fit. -/
def MembersFit : Nat → List (String × Json) → Prop
  | _, [] => True
  | room, (_, value) :: members => Fits room value ∧ MembersFit room members

end

mutual

/-- The tokens of a value. -/
def tokensOf : Json → List Token
  | .arr items => .openBracket :: [Token.comma].intercalate (itemTokens items) ++ [.closeBracket]
  | .obj members => .openBrace :: [Token.comma].intercalate (memberTokens members) ++ [.closeBrace]
  | v => [.scalar v]

/-- The tokens of each item of an array. -/
def itemTokens : List Json → List (List Token)
  | [] => []
  | item :: items => tokensOf item :: itemTokens items

/-- The tokens of each member of an object. -/
def memberTokens : List (String × Json) → List (List Token)
  | [] => []
  | (name, value) :: members =>
    (.scalar (.str name) :: .colon :: tokensOf value) :: memberTokens members

end

/-! ### Following the machine -/

namespace Lexer

/-- What the rest of a document gives from where the machine stands. -/
def run (l : Lexer) (cs : List Char) : Option (List Token) := (cs.foldlM step l).bind finish

/-- The machine reads a character and goes on. -/
lemma run_cons (l : Lexer) (c : Char) (cs : List Char) :
    l.run (c :: cs) = (l.step c).bind fun l => l.run cs := by
  rw [run, List.foldlM_cons]
  cases l.step c <;> rfl

/-- The machine reads a character after which it stands between two tokens. -/
lemma run_between {ts ts' : List Token} {c : Char}
    (h : lexBetween ts c = some ⟨.between, ts'⟩) (cs : List Char) :
    run ⟨.between, ts⟩ (c :: cs) = run ⟨.between, ts'⟩ cs := by
  rw [run_cons, step, h, Option.bind_some]

/-- White space gives no token. -/
lemma run_white {white : List Char} (h : ∀ c ∈ white, c = ' ' ∨ c = '\n') (ts : List Token)
    (cs : List Char) : run ⟨.between, ts⟩ (white ++ cs) = run ⟨.between, ts⟩ cs := by
  induction white with
  | nil => rfl
  | cons c white ih =>
    have hc : lexBetween ts c = some ⟨.between, ts⟩ := by
      rcases h c List.mem_cons_self with rfl | rfl <;> rfl
    rw [List.cons_append, run_between hc, ih fun c hc => h c (List.mem_cons_of_mem _ hc)]

/-! ### Words -/

/-- Where a word cannot go on: at the end, or before a character of no word. -/
def Stops (cs : List Char) : Prop := ∀ c ∈ cs.head?, isWordChar c = false

/-- A word ends where it cannot go on, and its value is a token. -/
lemma run_word_end {cs : List Char} (h : Stops cs) (letters : List Char) (ts : List Token) :
    run ⟨.word letters, ts⟩ cs =
      (wordValue? letters.reverse).bind fun v => run ⟨.between, .scalar v :: ts⟩ cs := by
  cases cs with
  | nil =>
    cases hv : wordValue? letters.reverse with
    | none => simp [run, finish, hv]
    | some v => simp [run, finish, hv]
  | cons c cs =>
    have hc : isWordChar c = false := h c rfl
    rw [run_cons, step]
    simp only [hc, Bool.false_eq_true, if_false, Option.bind_assoc]
    refine Option.bind_congr fun v _ => ?_
    rw [run_cons]
    rfl

/-- The letters of a word are collected up to its end. -/
lemma run_word {word cs : List Char} (hword : ∀ c ∈ word, isWordChar c = true) (h : Stops cs)
    (letters : List Char) (ts : List Token) :
    run ⟨.word letters, ts⟩ (word ++ cs) =
      (wordValue? (letters.reverse ++ word)).bind fun v => run ⟨.between, .scalar v :: ts⟩ cs := by
  induction word generalizing letters with
  | nil => rw [List.nil_append, run_word_end h, List.append_nil]
  | cons c word ih =>
    have hc : isWordChar c = true := hword c List.mem_cons_self
    have hstep : step ⟨.word letters, ts⟩ c = some ⟨.word (c :: letters), ts⟩ := by
      simp [step, hc]
    rw [List.cons_append, run_cons, hstep, Option.bind_some,
      ih fun c hc => hword c (List.mem_cons_of_mem _ hc)]
    simp

/-- A character of a word starts one where a token may start. -/
lemma lexBetween_of_isWordChar {c : Char} (h : isWordChar c = true) (ts : List Token) :
    lexBetween ts c = some ⟨.word [c], ts⟩ := by
  have hne : ∀ d, isWordChar d = false → c ≠ d := by
    rintro d hd rfl
    rw [hd] at h
    cases h
  have hcode : ∀ n, isWordChar (Char.ofNat n) = false → (Char.ofNat n).toNat = n → c.toNat ≠ n := by
    intro n hn hof hc
    refine hne (Char.ofNat n) hn ?_
    exact Char.toNat_inj.mp (hc.trans hof.symm)
  have hwhite : ¬(c = ' ' ∨ c = '\n' ∨ c = '\t' ∨ c = '\r') := by
    rintro (rfl | rfl | rfl | rfl) <;> revert h <;> decide
  rw [lexBetween, if_neg hwhite, if_neg (hcode 0x7b (by decide) (by decide)),
    if_neg (hcode 0x7d (by decide) (by decide)), if_neg (hne '[' (by decide)),
    if_neg (hne ']' (by decide)), if_neg (hne ':' (by decide)), if_neg (hne ',' (by decide)),
    if_neg (hne '"' (by decide)), if_pos h]

/-- A whole word is read as the token of its value. -/
lemma run_bareWord {word cs : List Char} (hne : word ≠ [])
    (hall : word.all isWordChar = true) (h : Stops cs) (ts : List Token) :
    run ⟨.between, ts⟩ (word ++ cs) =
      (wordValue? word).bind fun v => run ⟨.between, .scalar v :: ts⟩ cs := by
  have hword : ∀ c ∈ word, isWordChar c = true := List.all_eq_true.mp hall
  obtain ⟨c, word, rfl⟩ := List.exists_cons_of_ne_nil hne
  have hfirst : step ⟨.between, ts⟩ c = some ⟨.word [c], ts⟩ :=
    lexBetween_of_isWordChar (hword c List.mem_cons_self) ts
  rw [List.cons_append, run_cons, hfirst, Option.bind_some,
    run_word (fun c hc => hword c (List.mem_cons_of_mem _ hc)) h]
  rfl

/-! ### Strings -/

/-- The digits of a character below U+0020 are read back. -/
lemma hexDigit?_digitChar : ∀ n < 32, Text.hexDigit? (Nat.digitChar (n / 16)) = some (n / 16) ∧
    Text.hexDigit? (Nat.digitChar (n % 16)) = some (n % 16) := by
  decide

/-- The written form of a character is read as the character. -/
lemma run_escapeChar (text : List Char) (ts : List Token) (c : Char) (cs : List Char) :
    run ⟨.string text, ts⟩ (escapeChar c ++ cs) = run ⟨.string (c :: text), ts⟩ cs := by
  unfold escapeChar
  split_ifs with hquote hbackslash hn hr ht hb hf hcontrol
  · subst hquote
    rfl
  · subst hbackslash
    rfl
  · subst hn
    rfl
  · subst hr
    rfl
  · subst ht
    rfl
  · obtain rfl : c = Char.ofNat 8 := Char.toNat_inj.mp hb
    rfl
  · obtain rfl : c = Char.ofNat 12 := Char.toNat_inj.mp hf
    rfl
  · -- Two zeros and the two digits of the code give the code again, which is no surrogate.
    obtain ⟨hhigh, hlow⟩ := hexDigit?_digitChar c.toNat hcontrol
    have hbyte : c.toNat.toUInt8.toNat = c.toNat := by
      simp only [Nat.toUInt8, UInt8.toNat_ofNat']
      omega
    have hzero : Text.hexDigit? '0' = some 0 := by decide
    have hsum : c.toNat / 16 * 16 + c.toNat % 16 = c.toNat := by omega
    have hsurrogate : ¬(0xD800 ≤ c.toNat ∧ c.toNat ≤ 0xDBFF) := by omega
    have hsurrogate' : ¬(0xDC00 ≤ c.toNat ∧ c.toNat ≤ 0xDFFF) := by omega
    simp [Text.hexByte, hbyte, run_cons, step, hzero, hhigh, hlow, closeUnit, hsum, hsurrogate,
      hsurrogate', Char.ofNat_toNat]
  · simp [run_cons, step, hquote, hbackslash, hcontrol]

/-- The written form of a text is read as the text. -/
lemma run_escaped (text s : List Char) (ts : List Token) (cs : List Char) :
    run ⟨.string text, ts⟩ (s.flatMap escapeChar ++ '"' :: cs) =
      run ⟨.between, .scalar (.str (String.ofList (text.reverse ++ s))) :: ts⟩ cs := by
  induction s generalizing text with
  | nil =>
    rw [List.flatMap_nil, List.nil_append, run_cons, List.append_nil]
    rfl
  | cons c s ih => rw [List.flatMap_cons, List.append_assoc, run_escapeChar, ih]; simp

/-- A quoted text is read as the token of the text. -/
lemma run_quote (s : String) (ts : List Token) (cs : List Char) :
    run ⟨.between, ts⟩ ((quote s).toList ++ cs) =
      run ⟨.between, .scalar (.str s) :: ts⟩ cs := by
  have htext : (quote s).toList ++ cs = '"' :: (s.toList.flatMap escapeChar ++ '"' :: cs) := by
    simp [quote]
  have hfirst : step ⟨.between, ts⟩ '"' = some ⟨.string [], ts⟩ := rfl
  rw [htext, run_cons, hfirst, Option.bind_some, run_escaped]
  simp

end Lexer

/-! ### Numbers -/

/-- The digits of a number are characters of words. -/
lemma isWordChar_of_isDigit {c : Char} (h : c.isDigit = true) : isWordChar c = true := by
  simp [isWordChar, Char.isAlphanum, h]

/-- An integer is written as a word. -/
lemma toString_int (n : Int) : (toString n).toList ≠ [] ∧
    ∀ c ∈ (toString n).toList, isWordChar c = true := by
  have hdigits : ∀ (k : Nat), ∀ c ∈ k.repr.toList, isWordChar c = true := by
    intro k c hc
    rw [Nat.toList_repr] at hc
    exact isWordChar_of_isDigit (Nat.isDigit_of_mem_toDigits (by decide) (by decide) hc)
  cases n with
  | ofNat k =>
    have htext : (toString (Int.ofNat k)).toList = k.repr.toList := rfl
    rw [htext]
    exact ⟨by rw [Nat.toList_repr]; exact Nat.toDigits_ne_nil, hdigits k⟩
  | negSucc k =>
    have htext : (toString (Int.negSucc k)).toList = '-' :: (k + 1).repr.toList := by
      simp [toString, Int.repr]
    rw [htext]
    refine ⟨List.cons_ne_nil _ _, fun c hc => ?_⟩
    rcases List.mem_cons.mp hc with rfl | hc
    · decide
    · exact hdigits (k + 1) c hc

/-- What a word can stand for. -/
lemma wordValue?_cases {cs : List Char} {v : Json} (h : wordValue? cs = some v) :
    (∃ b, v = .bool b) ∨ v = .null ∨ (∃ n, v = .int n) ∨ v = .decimal (String.ofList cs) := by
  unfold wordValue? at h
  split_ifs at h
  · exact Or.inl ⟨true, (Option.some.inj h).symm⟩
  · exact Or.inl ⟨false, (Option.some.inj h).symm⟩
  · exact Or.inr (Or.inl (Option.some.inj h).symm)
  · dsimp only at h
    -- A number that is neither in range nor too large for a decimal is an integer or a decimal.
    repeat' split at h
    all_goals first
      | exact Or.inr (Or.inr (Or.inl ⟨_, (Option.some.inj h).symm⟩))
      | exact Or.inr (Or.inr (Or.inr (Option.some.inj h).symm))
      | cases h

/-- What a word stands for is a single token. -/
lemma tokensOf_of_wordValue? {cs : List Char} {v : Json} (h : wordValue? cs = some v) :
    tokensOf v = [.scalar v] := by
  rcases wordValue?_cases h with ⟨b, rfl⟩ | rfl | ⟨n, rfl⟩ | rfl <;> rw [tokensOf] <;> simp

/-- A list of digits has a value. -/
lemma digits?_of_isDigit {cs : List Char} (hne : cs ≠ []) (h : ∀ c ∈ cs, c.isDigit = true) :
    Text.digits? 10 Text.digit? cs = some (Nat.ofDigitChars 10 cs 0) := by
  have hdigit : ∀ c : Char, c.isDigit = true →
      Text.digit? c = some (c.toNat - '0'.toNat) ∧ c.toNat - '0'.toNat < 10 := by
    intro c hc
    have hrange : '0' ≤ c ∧ c ≤ '9' := by
      simp only [Char.isDigit, Bool.and_eq_true, decide_eq_true_eq] at hc
      exact hc
    have hle : c.toNat ≤ '9'.toNat := hrange.2
    have hnine : '9'.toNat = 57 := rfl
    have hzero : '0'.toNat = 48 := rfl
    exact ⟨by rw [Text.digit?, if_pos hrange], by omega⟩
  have hrun : ∀ (cs : List Char) (acc : Nat), (∀ c ∈ cs, c.isDigit = true) →
      cs.foldlM (fun acc c => (Text.digit? c).bind fun d =>
        if d < 10 then some (acc * 10 + d) else none) acc = some (Nat.ofDigitChars 10 cs acc) := by
    intro cs
    induction cs with
    | nil => exact fun acc _ => rfl
    | cons c cs ih =>
      intro acc h
      obtain ⟨hc, hlt⟩ := hdigit c (h c List.mem_cons_self)
      have hrest :=
        ih (acc * 10 + (c.toNat - '0'.toNat)) fun c hc => h c (List.mem_cons_of_mem _ hc)
      rw [List.foldlM_cons, hc, Option.bind_some, if_pos hlt]
      simpa [Nat.ofDigitChars, Nat.mul_comm] using hrest
  obtain ⟨c, cs, rfl⟩ := List.exists_cons_of_ne_nil hne
  exact hrun (c :: cs) 0 h

/-- Only the number zero is written with a zero in front. -/
lemma head?_toDigits {n : Nat} (hn : n ≠ 0) : (Nat.toDigits 10 n).head? ≠ some '0' := by
  induction n using Nat.strongRecOn with
  | ind n ih =>
    rw [Nat.toDigits_eq_if (by decide)]
    split_ifs with hlt
    · have hone : ∀ n < 10, n ≠ 0 → [Nat.digitChar n].head? ≠ some '0' := by decide
      exact hone n hlt hn
    · have hdiv : n / 10 ≠ 0 := by omega
      rw [List.head?_append, Option.or_of_isSome (by simp [Nat.toDigits_ne_nil])]
      exact ih (n / 10) (by omega) hdiv

/-- The digits of a number are in the grammar of numbers. -/
lemma isNumber_toDigits (n : Nat) : isNumber (Nat.toDigits 10 n) = true := by
  have hdigits : ∀ c ∈ Nat.toDigits 10 n, c.isDigit = true := fun c hc =>
    Nat.isDigit_of_mem_toDigits (by decide) (by decide) hc
  rcases Nat.eq_zero_or_pos n with rfl | hn
  · decide
  · have hzero := head?_toDigits (Nat.pos_iff_ne_zero.mp hn)
    obtain ⟨c, cs, hcs⟩ := List.exists_cons_of_ne_nil (Nat.toDigits_ne_nil (b := 10) (n := n))
    rw [hcs] at hdigits hzero ⊢
    have hc : c ≠ '-' := by
      rintro rfl
      exact absurd (hdigits '-' List.mem_cons_self) (by decide)
    have hc' : c ≠ '0' := fun h => hzero (by rw [h]; rfl)
    have htake : (c :: cs).takeWhile Char.isDigit = c :: cs :=
      List.takeWhile_eq_self_iff.mpr hdigits
    have hdrop : (c :: cs).dropWhile Char.isDigit = [] := List.dropWhile_eq_nil_iff.mpr hdigits
    simp [isNumber, hc, hc', htake, hdrop]

/-- What a natural number is read back as: itself if it is below 2 ^ 64, and else a decimal, if it
is not too large for that. -/
lemma wordValue?_natural (n : Nat) :
    wordValue? (toString (n : Int)).toList =
      if n < wordValues 64 then some (.nat n)
      else if Text.exceedsDouble (Nat.toDigits 10 n) then none
      else some (.decimal (String.ofList (Nat.toDigits 10 n))) := by
  have htext : (toString (n : Int)).toList = Nat.toDigits 10 n := Nat.toList_repr
  have hdigits : ∀ c ∈ Nat.toDigits 10 n, c.isDigit = true := fun c hc =>
    Nat.isDigit_of_mem_toDigits (by decide) (by decide) hc
  have hvalue : Text.digits? 10 Text.digit? (Nat.toDigits 10 n) = some n := by
    rw [digits?_of_isDigit Nat.toDigits_ne_nil hdigits, Nat.ofDigitChars_ten_toDigits]
  have hnumber := isNumber_toDigits n
  obtain ⟨c, cs, hcs⟩ := List.exists_cons_of_ne_nil (Nat.toDigits_ne_nil (b := 10) (n := n))
  have hne : ∀ d, d.isDigit = false → c ≠ d := by
    rintro d hd rfl
    rw [hdigits c (by simp [hcs])] at hd
    cases hd
  rw [htext, wordValue?]
  rw [hcs] at hvalue hnumber ⊢
  simp [hne 't' (by decide), hne 'f' (by decide), hne 'n' (by decide), hne '-' (by decide), hvalue,
    hnumber, nat]

/-- A number below 2 ^ 64 is read back as it is. -/
lemma wordValue?_nat {n : Nat} (h : n < wordValues 64) :
    wordValue? (toString (n : Int)).toList = some (.nat n) := by
  rw [wordValue?_natural, if_pos h]

/-! ### Layout -/

/-- What stands between the parts of a bracketed value and before its end. -/
def gap (indented : Bool) (depth : Nat) : List Char :=
  if indented then (lineBreak depth).toList else []

/-- A gap is white space. -/
lemma gap_white (indented : Bool) (depth : Nat) :
    ∀ c ∈ gap indented depth, c = ' ' ∨ c = '\n' := by
  intro c hc
  unfold gap lineBreak at hc
  split_ifs at hc
  · rw [String.toList_ofList, List.mem_cons] at hc
    exact hc.symm.imp List.eq_of_mem_replicate id
  · cases hc

/-- The characters of a bracketed value with parts. -/
lemma toList_bracketed (opening closing : String) (indented : Bool) (depth : Nat) (part : String)
    (parts : List String) :
    (bracketed opening closing indented depth (part :: parts)).toList =
      opening.toList ++ gap indented (depth + 1) ++
        (',' :: gap indented (depth + 1)).intercalate ((part :: parts).map String.toList) ++
        gap indented depth ++ closing.toList := by
  cases indented with
  | true => simp [bracketed, gap, String.toList_intercalate, List.append_assoc]
  | false => simp [bracketed, gap, String.toList_intercalate, List.append_assoc]

/-- What stands between the colon of a member and its value. -/
def space (indented : Bool) : List Char := if indented then [' '] else []

/-- What stands behind a colon is white space. -/
lemma space_white (indented : Bool) : ∀ c ∈ space indented, c = ' ' ∨ c = '\n' := by
  cases indented <;> simp [space]

/-- A word stops before a character of no word. -/
lemma stops_cons {c : Char} (hc : isWordChar c = false) (cs : List Char) :
    Lexer.Stops (c :: cs) := by
  rintro d hd
  obtain rfl : c = d := by simpa using hd
  exact hc

/-- A word stops before a gap with a character of no word behind it. -/
lemma stops_gap (indented : Bool) (depth : Nat) {c : Char} (hc : isWordChar c = false)
    (cs : List Char) : Lexer.Stops (gap indented depth ++ c :: cs) := by
  cases hgap : gap indented depth with
  | nil => exact stops_cons hc cs
  | cons d ds =>
    have hd : d = ' ' ∨ d = '\n' := gap_white indented depth d (hgap ▸ List.mem_cons_self)
    exact stops_cons (by rcases hd with rfl | rfl <;> decide) _

/-- Items that are read back are as many as before. -/
lemma exists_cons_of_rereadItems? {item : Json} {items vs : List Json}
    (h : rereadItems? (item :: items) = some vs) : ∃ v vs', vs = v :: vs' := by
  simp only [rereadItems?, Option.bind_eq_some_iff, Option.map_eq_some_iff] at h
  obtain ⟨v, -, vs', -, rfl⟩ := h
  exact ⟨v, vs', rfl⟩

/-- Members that are read back are as many as before. -/
lemma exists_cons_of_rereadMembers? {member : String × Json} {members vs : List (String × Json)}
    (h : rereadMembers? (member :: members) = some vs) : ∃ v vs', vs = v :: vs' := by
  obtain ⟨name, value⟩ := member
  simp only [rereadMembers?, Option.bind_eq_some_iff, Option.map_eq_some_iff] at h
  obtain ⟨v, -, vs', -, rfl⟩ := h
  exact ⟨(name, v), vs', rfl⟩

/-! ### Values -/

mutual

/-- The text of a value is read as its tokens. -/
lemma run_renderAt (indented : Bool) (depth : Nat) : ∀ {room : Nat} (j : Json), Fits room j →
    ∀ {cs : List Char}, Lexer.Stops cs → ∀ ts : List Token,
    Lexer.run ⟨.between, ts⟩ ((renderAt indented depth j).toList ++ cs) =
      (reread? j).bind fun v => Lexer.run ⟨.between, (tokensOf v).reverse ++ ts⟩ cs
  | _, .null, _, cs, hcs, ts => by
    rw [renderAt, Lexer.run_bareWord (by decide) (by decide) hcs]
    rfl
  | _, .bool true, _, cs, hcs, ts => by
    rw [renderAt, Lexer.run_bareWord (by decide) (by decide) hcs]
    rfl
  | _, .bool false, _, cs, hcs, ts => by
    rw [renderAt, Lexer.run_bareWord (by decide) (by decide) hcs]
    rfl
  | _, .int n, _, cs, hcs, ts => by
    obtain ⟨hne, hword⟩ := toString_int n
    rw [renderAt, Lexer.run_bareWord hne (List.all_eq_true.mpr hword) hcs, reread?]
    refine Option.bind_congr fun v hv => ?_
    rw [tokensOf_of_wordValue? hv]
    rfl
  | _, .decimal literal, hfits, cs, hcs, ts => by
    obtain ⟨hne, hword⟩ := hfits
    rw [renderAt, Lexer.run_bareWord hne (List.all_eq_true.mpr hword) hcs, reread?]
    refine Option.bind_congr fun v hv => ?_
    rw [tokensOf_of_wordValue? hv]
    rfl
  | _, .str s, _, cs, hcs, ts => by
    rw [renderAt, Lexer.run_quote]
    rfl
  | _, .arr [], _, cs, hcs, ts => by
    have hopen : lexBetween ts '[' = some ⟨.between, .openBracket :: ts⟩ := rfl
    have hclose : lexBetween (.openBracket :: ts) ']' =
      some ⟨.between, .closeBracket :: .openBracket :: ts⟩ := rfl
    have htext : (renderAt indented depth (.arr [])).toList ++ cs = '[' :: ']' :: cs := by
      simp [renderAt, renderItems, bracketed]
    rw [htext, Lexer.run_between hopen, Lexer.run_between hclose]
    rfl
  | room, .arr (item :: items), hfits, cs, hcs, ts => by
    have hopen : lexBetween ts '[' = some ⟨.between, .openBracket :: ts⟩ := rfl
    have htext : (renderAt indented depth (.arr (item :: items))).toList ++ cs =
        '[' :: (gap indented (depth + 1) ++ ((',' :: gap indented (depth + 1)).intercalate
          ((renderItems indented (depth + 1) (item :: items)).map String.toList) ++
          (gap indented depth ++ ']' :: cs))) := by
      rw [renderAt, renderItems, toList_bracketed]
      simp [List.append_assoc]
    rw [htext, Lexer.run_between hopen, Lexer.run_white (gap_white _ _),
      run_renderItems indented (depth + 1) (item :: items) (List.cons_ne_nil _ _) hfits.2
        (stops_gap _ _ (by decide) _), reread?, Option.bind_map]
    refine Option.bind_congr fun vs _ => ?_
    have hclose : ∀ ts, lexBetween ts ']' = some ⟨.between, .closeBracket :: ts⟩ := fun _ => rfl
    rw [Lexer.run_white (gap_white _ _), Lexer.run_between (hclose _)]
    simp [tokensOf]
  | _, .obj [], _, cs, hcs, ts => by
    have hopen : lexBetween ts '\x7b' = some ⟨.between, .openBrace :: ts⟩ := rfl
    have hclose : lexBetween (.openBrace :: ts) '\x7d' =
      some ⟨.between, .closeBrace :: .openBrace :: ts⟩ := rfl
    have htext : (renderAt indented depth (.obj [])).toList ++ cs = '\x7b' :: '\x7d' :: cs := by
      simp [renderAt, renderMembers, bracketed]
    rw [htext, Lexer.run_between hopen, Lexer.run_between hclose]
    rfl
  | room, .obj (member :: members), hfits, cs, hcs, ts => by
    have hopen : lexBetween ts '\x7b' = some ⟨.between, .openBrace :: ts⟩ := rfl
    have htext : (renderAt indented depth (.obj (member :: members))).toList ++ cs =
        '\x7b' :: (gap indented (depth + 1) ++ ((',' :: gap indented (depth + 1)).intercalate
          ((renderMembers indented (depth + 1) (member :: members)).map String.toList) ++
          (gap indented depth ++ '\x7d' :: cs))) := by
      rw [renderAt, renderMembers, toList_bracketed]
      simp [List.append_assoc]
    rw [htext, Lexer.run_between hopen, Lexer.run_white (gap_white _ _),
      run_renderMembers indented (depth + 1) (member :: members) (List.cons_ne_nil _ _) hfits.2
        (stops_gap _ _ (by decide) _), reread?, Option.bind_map]
    refine Option.bind_congr fun vs _ => ?_
    have hclose : ∀ ts, lexBetween ts '\x7d' = some ⟨.between, .closeBrace :: ts⟩ := fun _ => rfl
    rw [Lexer.run_white (gap_white _ _), Lexer.run_between (hclose _)]
    simp [tokensOf]

/-- The texts of the items of an array are read as their tokens, with the commas. -/
lemma run_renderItems (indented : Bool) (depth : Nat) : ∀ {room : Nat} (items : List Json),
    items ≠ [] → ItemsFit room items → ∀ {cs : List Char}, Lexer.Stops cs →
    ∀ ts : List Token, Lexer.run ⟨.between, ts⟩ ((',' :: gap indented depth).intercalate
        ((renderItems indented depth items).map String.toList) ++ cs) =
      (rereadItems? items).bind fun vs =>
        Lexer.run ⟨.between, ([Token.comma].intercalate (itemTokens vs)).reverse ++ ts⟩ cs
  | _, [], hne, _, _, _, _ => absurd rfl hne
  | _, [item], _, hfits, cs, hcs, ts => by
    have htext : (',' :: gap indented depth).intercalate
        ((renderItems indented depth [item]).map String.toList) =
        (renderAt indented depth item).toList := by
      simp [renderItems]
    rw [htext, run_renderAt indented depth item hfits.1 hcs]
    simp only [rereadItems?, Option.map_some, Option.bind_assoc, Option.bind_some]
    refine Option.bind_congr fun v _ => ?_
    simp [itemTokens]
  | _, item :: item' :: items, _, hfits, cs, hcs, ts => by
    have htext : (',' :: gap indented depth).intercalate
        ((renderItems indented depth (item :: item' :: items)).map String.toList) ++ cs =
        (renderAt indented depth item).toList ++ (',' :: (gap indented depth ++
          ((',' :: gap indented depth).intercalate
            ((renderItems indented depth (item' :: items)).map String.toList) ++ cs))) := by
      simp [renderItems, List.append_assoc]
    have hstep : ∀ ts, lexBetween ts ',' = some ⟨.between, .comma :: ts⟩ := fun _ => rfl
    rw [htext, run_renderAt indented depth item hfits.1 (stops_cons (by decide) _), rereadItems?,
      Option.bind_assoc]
    refine Option.bind_congr fun v _ => ?_
    rw [Lexer.run_between (hstep _), Lexer.run_white (gap_white _ _),
      run_renderItems indented depth (item' :: items) (List.cons_ne_nil _ _) hfits.2 hcs,
      Option.bind_map]
    refine Option.bind_congr fun vs hvs => ?_
    obtain ⟨v', vs', rfl⟩ := exists_cons_of_rereadItems? hvs
    simp [itemTokens]

/-- The texts of the members of an object are read as their tokens, with the commas. -/
lemma run_renderMembers (indented : Bool) (depth : Nat) : ∀ {room : Nat}
    (members : List (String × Json)), members ≠ [] → MembersFit room members →
    ∀ {cs : List Char}, Lexer.Stops cs → ∀ ts : List Token, Lexer.run ⟨.between, ts⟩
      ((',' :: gap indented depth).intercalate
        ((renderMembers indented depth members).map String.toList) ++ cs) =
      (rereadMembers? members).bind fun vs =>
        Lexer.run ⟨.between, ([Token.comma].intercalate (memberTokens vs)).reverse ++ ts⟩ cs
  | _, [], hne, _, _, _, _ => absurd rfl hne
  | _, [(name, value)], _, hfits, cs, hcs, ts => by
    have htext : (',' :: gap indented depth).intercalate
        ((renderMembers indented depth [(name, value)]).map String.toList) ++ cs =
        (quote name).toList ++ (':' :: (space indented ++
          ((renderAt indented depth value).toList ++ cs))) := by
      cases indented <;> simp [renderMembers, space, List.append_assoc]
    have hcolon : ∀ ts, lexBetween ts ':' = some ⟨.between, .colon :: ts⟩ := fun _ => rfl
    rw [htext, Lexer.run_quote, Lexer.run_between (hcolon _), Lexer.run_white (space_white _),
      run_renderAt indented depth value hfits.1 hcs]
    simp only [rereadMembers?, Option.map_some, Option.bind_assoc, Option.bind_some]
    refine Option.bind_congr fun v _ => ?_
    simp [memberTokens]
  | _, (name, value) :: member :: members, _, hfits, cs, hcs, ts => by
    have htext : (',' :: gap indented depth).intercalate
        ((renderMembers indented depth ((name, value) :: member :: members)).map String.toList) ++
          cs =
        (quote name).toList ++ (':' :: (space indented ++ ((renderAt indented depth value).toList ++
          (',' :: (gap indented depth ++ ((',' :: gap indented depth).intercalate
            ((renderMembers indented depth (member :: members)).map String.toList) ++ cs)))))) := by
      obtain ⟨name', value'⟩ := member
      cases indented <;> simp [renderMembers, space, List.append_assoc]
    have hcolon : ∀ ts, lexBetween ts ':' = some ⟨.between, .colon :: ts⟩ := fun _ => rfl
    have hstep : ∀ ts, lexBetween ts ',' = some ⟨.between, .comma :: ts⟩ := fun _ => rfl
    rw [htext, Lexer.run_quote, Lexer.run_between (hcolon _), Lexer.run_white (space_white _),
      run_renderAt indented depth value hfits.1 (stops_cons (by decide) _), rereadMembers?,
      Option.bind_assoc]
    refine Option.bind_congr fun v _ => ?_
    rw [Lexer.run_between (hstep _), Lexer.run_white (gap_white _ _),
      run_renderMembers indented depth (member :: members) (List.cons_ne_nil _ _) hfits.2 hcs,
      Option.bind_map]
    refine Option.bind_congr fun vs hvs => ?_
    obtain ⟨m', vs', rfl⟩ := exists_cons_of_rereadMembers? hvs
    simp [memberTokens]

end

/-- A document is read into the tokens of the value that it holds. -/
lemma tokens?_renderAt (indented : Bool) {room : Nat} {j : Json} (h : Fits room j) :
    tokens? (renderAt indented 0 j).toList = (reread? j).map tokensOf := by
  have hstops : Lexer.Stops [] := by simp [Lexer.Stops]
  have hrun := run_renderAt indented 0 j h hstops []
  rw [List.append_nil] at hrun
  have htokens : tokens? (renderAt indented 0 j).toList =
      Lexer.run ⟨.between, []⟩ (renderAt indented 0 j).toList := rfl
  rw [htokens, hrun]
  cases reread? j with
  | none => rfl
  | some v => simp [Lexer.run, Lexer.finish]

end CodeAtlas.Json
