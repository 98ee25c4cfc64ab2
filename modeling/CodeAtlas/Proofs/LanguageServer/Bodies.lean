import CodeAtlas.Proofs.LanguageServer.Items
import CodeAtlas.Proofs.Text.Lines
import CodeAtlas.Proofs.Text.Trimming

/-!
# Bodies of functions

The protocol counts the characters of a position in code units of UTF-16, of which a character
beyond the basic plane takes two.  Whether a function has a body is read off the last character
before its end that is not blank (`lastMark`), but there the units are taken for characters: what is
looked at is the text before the end (`textBefore`) and as many characters behind it as there are
units too many (`overrun`).  The wide characters before the end bound their number
(`length_overrun_le`), so a line without any is read as the protocol has it.

Lines are cut at line feeds.  The protocol also cuts at a carriage return of its own, and otherwise
has the same lines (`lastMarkBefore_protocolLines`).
-/

namespace CodeAtlas

/-! ### Lines -/

variable {c : Char} {cs ds : List Char}

/-- The lines of a text in the protocol: a line feed ends a line, and so does a carriage return, to
which a line feed right behind it belongs. -/
def protocolLines : List Char → List (List Char)
  | [] => [[]]
  | '\r' :: '\n' :: cs => [] :: protocolLines cs
  | c :: cs =>
    if c = '\n' ∨ c = '\r' then [] :: protocolLines cs
    else (protocolLines cs).modifyHead (c :: ·)

/-- Each carriage return stands before a line feed. -/
def ReturnsEndLines (cs : List Char) : Prop :=
  ∀ rest, '\r' :: rest <:+ cs → rest.head? = some '\n'

/-- What holds of the returns of a text holds of those of its ends. -/
lemma ReturnsEndLines.of_suffix (h : ReturnsEndLines cs) (hds : ds <:+ cs) : ReturnsEndLines ds :=
  fun rest hrest => h rest (hrest.trans hds)

/-- Any text has a line in the protocol. -/
lemma protocolLines_ne_nil (cs : List Char) : protocolLines cs ≠ [] := by
  induction cs using protocolLines.induct with
  | case1 => simp [protocolLines]
  | case2 cs ih => simp [protocolLines]
  | case3 c cs hother hend ih => rw [protocolLines, if_pos hend]; exacts [by simp, hother]
  | case4 c cs hother hend ih =>
    rw [protocolLines, if_neg hend]
    exacts [by simpa [List.modifyHead_eq_nil_iff] using ih, hother]

/-- The protocol has one more line than is counted if the last one is empty, and otherwise the
same. -/
lemma protocolLines_eq (h : ReturnsEndLines cs) :
    protocolLines cs = linesOf cs ∨ protocolLines cs = linesOf cs ++ [[]] := by
  induction cs using protocolLines.induct with
  | case1 => exact .inr rfl
  | case2 cs ih =>
    rw [protocolLines, linesOf_return_lineFeed]
    have hcs := ih (h.of_suffix ((List.suffix_cons _ _).trans (List.suffix_cons _ _)))
    exact hcs.imp (congrArg _) (congrArg _)
  | case3 c cs hother hend ih =>
    have hfeed : c = '\n' := hend.resolve_right fun hreturn => by
      subst hreturn
      obtain ⟨rest, hrest⟩ := List.head?_eq_some_iff.mp (h cs (List.suffix_refl _))
      exact hother rest rfl hrest
    subst hfeed
    rw [protocolLines, if_pos (.inl rfl), linesOf_lineFeed]
    exact (ih (h.of_suffix (List.suffix_cons _ _))).imp (congrArg _) (congrArg _)
    exact hother
  | case4 c cs hother hend ih =>
    rw [not_or] at hend
    rw [protocolLines, if_neg (not_or.mpr hend), linesOf_cons hend.1 hend.2]
    · have hne := protocolLines_ne_nil cs
      rcases ih (h.of_suffix (List.suffix_cons _ _)) with heq | heq <;> rw [heq] at hne ⊢ <;>
        cases hlines : linesOf cs with
        | nil => simp_all
        | cons line lines => simp
    · exact hother

/-- What is not blank of a text has a last character. -/
def lastMark (text : List Char) : Option Char := (text.filter fun c => !isBlank c).getLast?

/-- A text that is trimmed on the right ends with that character. -/
lemma getLast?_trimRightBy (text : List Char) :
    (trimRightBy isBlank text).getLast? = lastMark text := by
  induction text using List.reverseRecOn with
  | nil => rfl
  | append_singleton text c ih =>
    rw [lastMark, List.filter_append] at *
    cases hc : isBlank c with
    | true => simp [trimRightBy_concat_of_pos hc, ih, hc]
    | false => simp [trimRightBy_concat_of_neg hc, hc]

/-- The last character of the second of two texts counts, if there is one. -/
lemma lastMark_append (cs ds : List Char) :
    lastMark (cs ++ ds) = (lastMark ds).or (lastMark cs) := by
  rw [lastMark, List.filter_append, List.getLast?_append, lastMark, lastMark]

/-! ### Positions -/

/-- The number of code units that a character takes in UTF-16. -/
def utf16Width (c : Char) : Nat := if c.toNat < 0x10000 then 1 else 2

/-- The characters of a line before a position that counts code units of UTF-16.  They stop before a
character that the position splits, and at the end of the line. -/
def textBefore : List Char → Nat → List Char
  | [], _ => []
  | c :: cs, units => if utf16Width c ≤ units then c :: textBefore cs (units - utf16Width c) else []

/-- The characters that follow if as many characters are taken as there are units. -/
def overrun (line : List Char) (units : Nat) : List Char :=
  (line.take units).drop (textBefore line units).length

/-- A character takes one unit or two. -/
lemma utf16Width_eq (c : Char) : utf16Width c = 1 ∨ utf16Width c = 2 := by
  unfold utf16Width
  split_ifs
  exacts [.inl rfl, .inr rfl]

/-- No more characters than units stand before a position. -/
lemma textBefore_isPrefix (line : List Char) (units : Nat) :
    textBefore line units <+: line.take units := by
  induction line generalizing units with
  | nil => exact List.nil_prefix
  | cons c line ih =>
    have hwidth := utf16Width_eq c
    rw [textBefore]
    split_ifs with hle
    · obtain ⟨n, rfl⟩ : ∃ n, units = n + 1 := ⟨units - 1, by omega⟩
      rw [List.take_succ_cons, List.cons_prefix_cons]
      exact ⟨rfl, (ih _).trans (List.take_prefix_take_left (by omega))⟩
    · exact List.nil_prefix

/-- Both together are the characters that are taken. -/
lemma textBefore_append_overrun (line : List Char) (units : Nat) :
    textBefore line units ++ overrun line units = line.take units := by
  obtain ⟨rest, hrest⟩ := textBefore_isPrefix line units
  rw [overrun, ← hrest, List.drop_left]

/-- Each character too many comes from a wide one among those that are taken. -/
lemma length_overrun_le (line : List Char) (units : Nat) :
    (overrun line units).length ≤ (line.take units).countP (utf16Width · == 2) := by
  have hlength : (line.take units).length ≤
      (textBefore line units).length + (line.take units).countP (utf16Width · == 2) := by
    induction line generalizing units with
    | nil => simp
    | cons c line ih =>
      cases units with
      | zero => exact Nat.zero_le _
      | succ n =>
        have hwidth := utf16Width_eq c
        have hwide : (if utf16Width c == 2 then 1 else 0) = utf16Width c - 1 := by
          rcases hwidth with hc | hc <;> rw [hc] <;> rfl
        rw [textBefore, List.take_succ_cons, List.length_cons, List.countP_cons, hwide]
        split_ifs with hle
        · have hrest := ih (n + 1 - utf16Width c)
          have hcount : (line.take (n + 1 - utf16Width c)).countP (utf16Width · == 2) ≤
              (line.take n).countP (utf16Width · == 2) :=
            (List.take_prefix_take_left (by omega)).sublist.countP_le
          rw [List.length_take] at hrest ⊢
          rw [List.length_cons]
          omega
        · rw [List.length_take]
          omega
  rw [overrun, List.length_drop]
  omega

namespace LanguageServer

/-- The last character before a position on its line that is not blank. -/
def lastMarkBefore (lines : List (List Char)) (p : Position) : Option Char :=
  lines[p.line]?.bind fun line => lastMark (textBefore line p.character)

/-- Where returns only end lines, the lines of the protocol are read like those that are counted. -/
lemma lastMarkBefore_protocolLines (h : ReturnsEndLines cs) (p : Position) :
    lastMarkBefore (protocolLines cs) p = lastMarkBefore (linesOf cs) p := by
  rcases protocolLines_eq h with heq | heq
  · rw [heq]
  · rw [heq, lastMarkBefore, lastMarkBefore, List.getElem?_append]
    split_ifs with hlt
    · rfl
    · rw [List.getElem?_eq_none (Nat.le_of_not_lt hlt), List.getElem?_singleton]
      split_ifs <;> rfl

/-! ### Functions -/

/-- The character that ends a body. -/
def closingBrace : Char := Char.ofNat 0x7d

/-- An item of a function, a method or a constructor that ends at a position. -/
structure IsFunctionItem (item : Json) (stop : Position) : Prop where
  name : ∃ name, (item.get? "name").bind Json.text? = some name
  kind : ∃ code ∈ [6, 9, 12], (item.get? "kind").bind Json.count? = some code
  range : ∃ range start, rangeOf? item = some range ∧
    (range.get? "start").bind Position.ofJson? = some start ∧
    (range.get? "end").bind Position.ofJson? = some stop

variable {lines : List (List Char)} {item : Json} {stop : Position}

/-- A body is looked for at the end of as many characters as there are units. -/
lemma endsWithBody_iff : endsWithBody lines stop = true ↔
    ∃ line ∈ lines[stop.line]?, lastMark (line.take stop.character) = some closingBrace := by
  have hbrace : ∀ mark : Option Char, mark.map Char.toNat = some 0x7d ↔
      mark = some closingBrace := by
    rintro (_ | c)
    · simp
    · simp only [Option.map_some, Option.some.injEq]
      refine ⟨fun h => ?_, fun h => by rw [h]; rfl⟩
      rw [← Char.ofNat_toNat c, h]
      rfl
  unfold endsWithBody
  cases lines[stop.line]? with
  | none => simp
  | some line => simp [getLast?_trimRightBy, hbrace]

/-- An item of a function is a symbol if it has a body. -/
lemma IsFunctionItem.isSome_draftOf? (h : IsFunctionItem item stop) :
    (draftOf? lines item).isSome = endsWithBody lines stop := by
  obtain ⟨⟨name, hname⟩, ⟨code, hmem, hcode⟩, ⟨range, start, hrange, hstart, hstop⟩⟩ := h
  have hkind : symbolKind? code = some .function := by
    simp only [List.mem_cons, List.not_mem_nil, or_false] at hmem
    rcases hmem with rfl | rfl | rfl <;> rfl
  rw [draftOf?, hname, hcode, hrange]
  cases hbody : endsWithBody lines stop <;> simp [hkind, hstart, hstop, hbody]

/-- An item that is a symbol amounts to one. -/
lemma symbolsFrom_singleton_ne_nil (lines : List (List Char)) (file : String) (ordinal : Nat)
    (item : Json) : symbolsFrom lines file ordinal [item] ≠ [] ↔
      (draftOf? lines item).isSome = true := by
  cases hdraft : draftOf? lines item <;> simp [symbolsFrom, hdraft]

/-- A function is among the symbols of an answer, behind those of the items before it, exactly if
the last character that is not blank of the text before its end and of what is taken beyond it is a
closing brace.  The last such character before its end alone decides it the same way exactly if what
is taken beyond has only blanks or agrees, and no more characters are taken beyond than there are
wide ones among all that are taken. -/
theorem functionKept_iff {answer item : Json} {before after : List Json} {stop : Position}
    (hitems : itemsOf answer = before ++ item :: after) (hitem : IsFunctionItem item stop)
    (file source : String) :
    let lines := linesOf source.toList
    let front := symbolsFrom lines file 0 before
    let own := symbolsFrom lines file front.length [item]
    symbolsOf answer file source =
        front ++ own ++ symbolsFrom lines file (front.length + own.length) after ∧
      (own ≠ [] ↔ ∃ line ∈ lines[stop.line]?,
        lastMark (textBefore line stop.character ++ overrun line stop.character) =
          some closingBrace) ∧
      ((own ≠ [] ↔ lastMarkBefore lines stop = some closingBrace) ↔
        ∀ line ∈ lines[stop.line]?, lastMark (overrun line stop.character) = none ∨
          (lastMark (overrun line stop.character) = some closingBrace ↔
            lastMark (textBefore line stop.character) = some closingBrace)) ∧
      (∀ line ∈ lines[stop.line]?, (overrun line stop.character).length ≤
        (line.take stop.character).countP (utf16Width · == 2)) ∧
      (ReturnsEndLines source.toList →
        lastMarkBefore (protocolLines source.toList) stop = lastMarkBefore lines stop) := by
  intro lines front own
  have hown : own ≠ [] ↔ ∃ line ∈ lines[stop.line]?,
      lastMark (textBefore line stop.character ++ overrun line stop.character) =
        some closingBrace := by
    rw [symbolsFrom_singleton_ne_nil, hitem.isSome_draftOf?, endsWithBody_iff]
    simp only [textBefore_append_overrun]
  refine ⟨?_, hown, ?_, fun line _ => length_overrun_le line stop.character,
    fun h => lastMarkBefore_protocolLines h stop⟩
  · have hlength : (symbolsFrom lines file 0 (before ++ [item])).length =
        front.length + own.length := by
      rw [symbolsFrom_append, Nat.zero_add, List.length_append]
    rw [symbolsOf_eq, hitems, List.append_cons, symbolsFrom_append, hlength, Nat.zero_add,
      symbolsFrom_append, Nat.zero_add]
  · rw [hown, lastMarkBefore]
    cases lines[stop.line]? with
    | none => simp
    | some line =>
      simp only [Option.mem_some_iff, exists_eq_left', Option.bind_some, forall_eq',
        lastMark_append]
      cases lastMark (overrun line stop.character) <;> simp

/-- An item of a method that stands between two characters of the first line. -/
def methodItem (name : String) (start stop : Nat) : Json :=
  .obj [("name", .str name), ("kind", .int 6),
    ("range", .obj [("start", .obj [("line", .int 0), ("character", .nat start)]),
      ("end", .obj [("line", .int 0), ("character", .nat stop)])])]

/-- A body is seen if only a blank stands where a character is taken too many. -/
theorem functionKept_iff_smile :
    let item := methodItem "smile" 14 56
    let source := "struct Face \x7b const char *smile() const \x7b return \"😀\"; \x7d \x7d;\n"
    let lines := linesOf source.toList
    let own := symbolsFrom lines "src/face.cpp" 0 [item]
    itemsOf (.arr [item]) = [] ++ item :: [] ∧ IsFunctionItem item ⟨0, 56⟩ ∧
      ReturnsEndLines source.toList ∧ own ≠ [] ∧
      lastMarkBefore (protocolLines source.toList) ⟨0, 56⟩ = some closingBrace := by
  intro item source lines own
  have hitem : IsFunctionItem item ⟨0, 56⟩ :=
    ⟨⟨_, rfl⟩, ⟨6, by decide, rfl⟩, ⟨_, ⟨0, 14⟩, rfl, rfl, rfl⟩⟩
  have hreturns : ReturnsEndLines source.toList := by
    have hnone : '\r' ∉ source.toList := by decide +kernel
    exact fun rest hrest => absurd (hrest.subset List.mem_cons_self) hnone
  have hitems : itemsOf (.arr [item]) = [] ++ item :: [] := rfl
  obtain ⟨-, hown, -, -, hlines⟩ := functionKept_iff hitems hitem "src/face.cpp" source
  refine ⟨hitems, hitem, hreturns, hown.mpr ?_, ?_⟩
  · decide +kernel
  · rw [hlines hreturns]
    decide +kernel

/-- A method that ends behind a wide character is lost if something stands behind it. -/
theorem not_functionKept_wideCharacter :
    ¬ ∀ (answer item : Json) (before after : List Json) (stop : Position) (file source : String),
      itemsOf answer = before ++ item :: after → IsFunctionItem item stop →
      (symbolsFrom (linesOf source.toList) file
          (symbolsFrom (linesOf source.toList) file 0 before).length [item] ≠ [] ↔
        lastMarkBefore (protocolLines source.toList) stop = some closingBrace) := by
  intro h
  have hkept := h (.arr [methodItem "smile" 14 56]) (methodItem "smile" 14 56) [] [] ⟨0, 56⟩
    "src/face.cpp"
    "struct Face \x7b const char *smile() const \x7b return \"😀\"; \x7d; \x7d;\n" rfl
    ⟨⟨_, rfl⟩, ⟨6, by decide, rfl⟩, ⟨_, ⟨0, 14⟩, rfl, rfl, rfl⟩⟩
  rw [symbolsFrom_singleton_ne_nil] at hkept
  revert hkept
  decide +kernel

end LanguageServer

end CodeAtlas
