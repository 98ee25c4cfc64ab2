import CodeAtlas.Proofs.Json.Lexing
import CodeAtlas.Proofs.LanguageServer.Stream
import CodeAtlas.Proofs.Text.Search
import CodeAtlas.Proofs.Text.Trimming
import CodeAtlas.Proofs.Text.Utf8

/-!
# A stream of framed messages is read back

A message is framed by a header: the line that announces the length of its body, and a blank line.
Other lines may stand in the header as well, on either side of the first, as long as they are not
blank and announce no length.  `messages_of_headed` says that a stream of messages with such headers
is read back message by message, whatever the messages are: none is lost or cut short, and nothing
is left over.

Reading in the running program may have to wait for more bytes.  A stream that has been closed is
read to its end instead (`readMessage`), where no more messages come.  Both ways of reading agree as
long as no message is cut off by the end (`closesTo_readFrame`).
-/

namespace CodeAtlas.LanguageServer

variable {bytes rest : List UInt8} {fuel : Nat} {length : Option Nat}

/-! ### Streams that have been closed -/

/-- What is read at the beginning of a stream that has been closed. -/
inductive Reading where
  /-- A message, and the bytes behind it. -/
  | message (value : Json) (rest : List UInt8)
  /-- The stream is at its end. -/
  | atEnd
  /-- No message can be read. -/
  | failed

/-- The first line of a stream that has been closed: what follows the last line feed is a line too,
unless it is empty. -/
def closedLine? (bytes : List UInt8) : Option (List UInt8 × List UInt8) :=
  match splitLine? bytes with
  | some p => some p
  | none => if bytes.isEmpty then none else some (bytes, [])

/-- Reads the next message of a stream that has been closed.  The length is that of the header read
so far; `fuel` bounds the number of its lines, and the number of bytes is enough. -/
def readMessage : Nat → Option Nat → List UInt8 → Reading
  | 0, _, _ => .atEnd
  | fuel + 1, length, bytes =>
    match closedLine? bytes with
    | none => .atEnd
    | some (line, rest) =>
      match String.fromUTF8? ⟨line.toArray⟩ with
      | none => .failed
      | some line =>
        let line := trimRightBy isBlank line.toList
        if line.isEmpty then
          match length with
          | some n =>
            match readBody n rest with
            | .message value rest => .message value rest
            | _ => .failed
          | none => readMessage fuel none rest
        else
          match announcedLength? line with
          | some announced => readMessage fuel announced rest
          | none => readMessage fuel length rest

/-- Reading a closed stream again and again gives these messages, and then its end. -/
inductive ReadsAll : List UInt8 → List Json → Prop
  | atEnd {bytes : List UInt8} (h : readMessage (bytes.length + 1) none bytes = .atEnd) :
      ReadsAll bytes []
  | message {bytes rest : List UInt8} {value : Json} {values : List Json}
      (h : readMessage (bytes.length + 1) none bytes = .message value rest)
      (hrest : ReadsAll rest values) : ReadsAll bytes (value :: values)

/-- What becomes of the beginning of a stream when it is closed: a message that is not complete is
either missing altogether or cut off. -/
inductive Frame.ClosesTo : Frame → Reading → Prop
  | message (value : Json) (rest : List UInt8) :
      ClosesTo (.message value rest) (.message value rest)
  | malformed : ClosesTo .malformed .failed
  | missing : ClosesTo .incomplete .atEnd
  | cutOff : ClosesTo .incomplete .failed

/-- At the end of a stream nothing is read. -/
@[simp] lemma readMessage_nil (fuel : Nat) (length : Option Nat) :
    readMessage fuel length [] = .atEnd := by
  cases fuel <;> rfl

/-- No body fits where no bytes are left. -/
lemma readBody_nil (n : Nat) : readBody n [] = .malformed ∨ readBody n [] = .incomplete := by
  have hparse : Json.parseBytes? ⟨#[]⟩ = none := by decide +kernel
  simp only [readBody, List.take_nil, hparse]
  split_ifs
  · exact .inl rfl
  · exact .inr rfl
  · exact .inl rfl

/-- What is left without a line feed is a line of a closed stream, behind which nothing is read. -/
lemma closesTo_lastLine (hline : splitLine? bytes = none) :
    Frame.ClosesTo .incomplete (readMessage (fuel + 1) length bytes) := by
  rw [readMessage, closedLine?, hline]
  simp only
  split_ifs
  · exact .missing
  · simp only
    cases String.fromUTF8? ⟨bytes.toArray⟩ with
    | none => exact .cutOff
    | some line =>
      simp only [readMessage_nil]
      split_ifs
      · cases length with
        | none => exact .missing
        | some n =>
          simp only
          rcases readBody_nil n with hbody | hbody
          · rw [hbody]
            exact .cutOff
          · rw [hbody]
            exact .cutOff
      · cases announcedLength? (trimRightBy isBlank line.toList) with
        | none => exact .missing
        | some announced => exact .missing

/-- A closed stream is read as the running program reads it. -/
lemma closesTo_readFrame (hfuel : bytes.length < fuel) :
    (readFrame fuel length bytes).ClosesTo (readMessage fuel length bytes) := by
  induction fuel generalizing length bytes with
  | zero => exact absurd hfuel (Nat.not_lt_zero _)
  | succ fuel ih =>
    cases hline : splitLine? bytes with
    | none =>
      rw [readFrame, hline]
      exact closesTo_lastLine hline
    | some p =>
      obtain ⟨line, rest⟩ := p
      have hless := length_lt_of_splitLine? hline
      have hrest : rest.length < fuel := by omega
      rw [readFrame, readMessage, closedLine?, hline]
      simp only
      cases String.fromUTF8? ⟨line.toArray⟩ with
      | none => exact .malformed
      | some line =>
        simp only
        split_ifs
        · cases length with
          | none => exact ih hrest
          | some n =>
            simp only
            cases readBody n rest with
            | message value rest => exact .message value rest
            | malformed => exact .malformed
            | incomplete => exact .cutOff
        · cases announcedLength? (trimRightBy isBlank line.toList) with
          | none => exact ih hrest
          | some announced => exact ih hrest

/-- If nothing is left of a stream, closing it gives its messages and then the end. -/
lemma readsAll_of_receive {values : List Json} (h : receive bytes = ⟨values, [], false⟩) :
    ReadsAll bytes values := by
  induction values generalizing bytes with
  | nil =>
    rw [receive_eq] at h
    cases hframe : readFrame (bytes.length + 1) none bytes with
    | message value rest => simp [hframe] at h
    | malformed => simp [hframe] at h
    | incomplete =>
      obtain rfl : bytes = [] := by simpa [hframe] using h
      exact .atEnd rfl
  | cons value values ih =>
    have hcloses : (readFrame (bytes.length + 1) none bytes).ClosesTo
        (readMessage (bytes.length + 1) none bytes) :=
      closesTo_readFrame (Nat.lt_succ_self bytes.length)
    rw [receive_eq] at h
    cases hframe : readFrame (bytes.length + 1) none bytes with
    | malformed => simp [hframe] at h
    | incomplete => simp [hframe] at h
    | message first rest =>
      rw [hframe] at h hcloses
      obtain ⟨hmessages, hleft, hended⟩ := Received.mk.inj h
      obtain ⟨rfl, rfl⟩ := List.cons_eq_cons.mp hmessages
      have hread : readMessage (bytes.length + 1) none bytes = .message first rest := by
        generalize readMessage (bytes.length + 1) none bytes = reading at hcloses
        cases hcloses
        rfl
      refine .message hread (ih ?_)
      rw [← hleft, ← hended]

/-! ### Lines of a header -/

/-- A line of a header, with its end. -/
def headerLine (line : String) : List UInt8 := (line ++ "\r\n").toUTF8.toList

/-- The line that announces a length. -/
def lengthLine (length : Nat) : String := "Content-Length: " ++ toString length

lemma lengthLine_eq (length : Nat) : lengthLine length = "Content-Length: " ++ toString length :=
  rfl

/-- A line that may stand in a header besides the one with the length: it is one line, it is not
blank, and what stands before its first colon is not the name of the length. -/
structure IsExtraLine (line : String) : Prop where
  lineFeed_not_mem : '\n' ∉ line.toList
  exists_not_blank : ∃ c ∈ line.toList, isBlank c = false
  name_ne : ∀ name value : String, line = name ++ ":" ++ value → ':' ∉ name.toList →
    Text.lowerAscii (Text.trim name) ≠ "content-length"

/-- Whether a line announces a length is told at its first colon. -/
lemma isExtraLine_iff {line : String} :
    IsExtraLine line ↔ '\n' ∉ line.toList ∧ line.toList.all isBlank = false ∧
      ∀ p ∈ splitOnce? ':' line.toList,
        Text.lowerAscii (String.ofList (trimBy isBlank p.1)) ≠ "content-length" := by
  have hsomewhere : line.toList.all isBlank = false ↔ ∃ c ∈ line.toList, isBlank c = false := by
    simp
  rw [hsomewhere]
  refine ⟨fun ⟨hfeed, hblank, hname⟩ => ⟨hfeed, hblank, fun p hp => ?_⟩,
    fun ⟨hfeed, hblank, hname⟩ => ⟨hfeed, hblank, fun name value hline hcolon => ?_⟩⟩
  · obtain ⟨hcolon, htext⟩ := splitOnce?_eq_some_iff.mp hp
    have hline : line = String.ofList p.1 ++ ":" ++ String.ofList p.2 := by
      rw [← String.toList_inj, htext]
      simp
    have hne := hname _ _ hline (by simpa using hcolon)
    rwa [Text.trim, String.toList_ofList] at hne
  · refine hname (name.toList, value.toList) (splitOnce?_eq_some_iff.mpr ⟨hcolon, ?_⟩)
    rw [hline]
    simp

/-- Bytes up to the first line feed are a line. -/
lemma splitLine?_of_not_mem {line : List UInt8} (h : 10 ∉ line) (rest : List UInt8) :
    splitLine? (line ++ 10 :: rest) = some (line, rest) := by
  induction line with
  | nil => simp [splitLine?]
  | cons b line ih =>
    rw [List.mem_cons, not_or] at h
    simp [splitLine?, Ne.symm h.1, ih h.2]

/-- A line of a header is read with the carriage return at its end. -/
lemma splitLine?_headerLine {line : String} (h : '\n' ∉ line.toList) (rest : List UInt8) :
    splitLine? (headerLine line ++ rest) = some ((line ++ "\r").toUTF8.toList, rest) := by
  have hnone : '\n' ∉ (line ++ "\r").toList := by simpa using h
  have hbytes : headerLine line = (line ++ "\r").toUTF8.toList ++ [10] := by
    simp only [headerLine, Text.toList_toUTF8, String.toList_append, List.flatMap_append,
      List.append_assoc]
    rfl
  rw [hbytes, List.append_assoc, List.singleton_append]
  exact splitLine?_of_not_mem (Text.not_mem_toUTF8 (by decide) hnone) rest

/-- How a line of a header is read. -/
lemma readFrame_headerLine {line : String} (h : '\n' ∉ line.toList) (fuel : Nat)
    (length : Option Nat) (rest : List UInt8) :
    readFrame (fuel + 1) length (headerLine line ++ rest) =
      if (trimRightBy isBlank line.toList).isEmpty then
        length.elim (readFrame fuel none rest) fun n => readBody n rest
      else
        (announcedLength? (trimRightBy isBlank line.toList)).elim (readFrame fuel length rest)
          fun announced => readFrame fuel announced rest := by
  have htrim : trimRightBy isBlank (line ++ "\r").toList = trimRightBy isBlank line.toList := by
    rw [String.toList_append]
    exact trimRightBy_append_of_pos (by simp [isBlank]) _
  rw [readFrame, splitLine?_headerLine h]
  simp only [Text.fromUTF8?_toList_toUTF8, htrim]
  split_ifs
  · cases length <;> rfl
  · cases announcedLength? (trimRightBy isBlank line.toList) <;> rfl

/-- An extra line is passed over. -/
lemma IsExtraLine.readFrame_eq {line : String} (h : IsExtraLine line) (fuel : Nat)
    (length : Option Nat) (rest : List UInt8) :
    readFrame (fuel + 1) length (headerLine line ++ rest) = readFrame fuel length rest := by
  have hnone : announcedLength? (trimRightBy isBlank line.toList) = none := by
    obtain ⟨blanks, hblanks⟩ := trimRightBy_isPrefix isBlank line.toList
    rw [announcedLength?]
    cases hsplit : splitOnce? ':' (trimRightBy isBlank line.toList) with
    | none => rfl
    | some p =>
      obtain ⟨name, value⟩ := p
      obtain ⟨hcolon, htext⟩ := splitOnce?_eq_some_iff.mp hsplit
      have hline : line = String.ofList name ++ ":" ++ String.ofList (value ++ blanks) := by
        rw [← String.toList_inj, ← hblanks, htext]
        simp
      have hname := h.name_ne _ _ hline (by simpa using hcolon)
      rw [Text.trim, String.toList_ofList] at hname
      simp [hname]
  rw [readFrame_headerLine h.lineFeed_not_mem, isEmpty_trimRightBy h.exists_not_blank, hnone]
  rfl

/-- Extra lines are passed over. -/
lemma readFrame_extraLines {lines : List String} (h : ∀ line ∈ lines, IsExtraLine line)
    (fuel : Nat) (length : Option Nat) (rest : List UInt8) :
    readFrame (fuel + lines.length) length (lines.flatMap headerLine ++ rest) =
      readFrame fuel length rest := by
  induction lines with
  | nil => rfl
  | cons line lines ih =>
    rw [List.forall_mem_cons] at h
    rw [List.flatMap_cons, List.append_assoc, List.length_cons, ← Nat.add_assoc,
      h.1.readFrame_eq, ih h.2]

/-- A digit is not blank. -/
lemma isBlank_eq_false_of_isDigit {c : Char} (h : c.isDigit = true) : isBlank c = false := by
  simp only [Char.isDigit, Bool.and_eq_true, decide_eq_true_eq] at h
  have hlow : 48 ≤ c.toNat := h.1
  have hhigh : c.toNat ≤ 57 := h.2
  simp [isBlank]
  omega

/-- A line of a header has bytes. -/
lemma length_headerLine_pos (line : String) : 0 < (headerLine line).length := by
  rw [headerLine, Text.toList_toUTF8, String.toList_append, List.flatMap_append,
    List.length_append]
  exact Nat.lt_add_left _ (by decide +kernel)

/-- Lines have at least as many bytes as they are. -/
lemma length_le_flatMap_headerLine (lines : List String) :
    lines.length ≤ (lines.flatMap headerLine).length := by
  induction lines with
  | nil => exact Nat.le_refl _
  | cons line lines ih =>
    have hpos := length_headerLine_pos line
    rw [List.flatMap_cons, List.length_append, List.length_cons]
    omega

/-- The digits of a number are read as the number. -/
lemma unsigned?_toString {n bound : Nat} (h : n < bound) :
    Text.unsigned? bound (toString n) = some n := by
  have htext : (toString n).toList = Nat.toDigits 10 n := Nat.toList_repr
  have hdigits : ∀ c ∈ Nat.toDigits 10 n, c.isDigit = true := fun c hc =>
    Nat.isDigit_of_mem_toDigits (by decide) (by decide) hc
  have hvalue : Text.digits? 10 Text.digit? (Nat.toDigits 10 n) = some n := by
    rw [Json.digits?_of_isDigit Nat.toDigits_ne_nil hdigits, Nat.ofDigitChars_ten_toDigits]
  obtain ⟨c, cs, hcs⟩ := List.exists_cons_of_ne_nil (Nat.toDigits_ne_nil (b := 10) (n := n))
  have hplus : c ≠ '+' := by
    rintro rfl
    exact absurd (hdigits '+' (by simp [hcs])) (by decide)
  rw [Text.unsigned?, htext]
  rw [hcs] at hvalue ⊢
  simp [hplus, hvalue, h]

/-- No digit of a number is blank. -/
lemma isBlank_of_mem_toString {n : Nat} : ∀ c ∈ (toString n).toList, isBlank c = false := by
  intro c hc
  rw [show (toString n).toList = Nat.toDigits 10 n from Nat.toList_repr] at hc
  exact isBlank_eq_false_of_isDigit (Nat.isDigit_of_mem_toDigits (by decide) (by decide) hc)

/-- The line that announces a length, in its parts. -/
lemma toList_lengthLine (n : Nat) :
    (lengthLine n).toList = "Content-Length".toList ++ ':' :: ' ' :: (toString n).toList := by
  have hname : "Content-Length: ".toList = "Content-Length".toList ++ [':', ' '] := by decide
  rw [lengthLine_eq, String.toList_append, hname, List.append_assoc]
  rfl

/-- The line that announces a length ends with a digit. -/
lemma trimRightBy_lengthLine (n : Nat) :
    trimRightBy isBlank (lengthLine n).toList = (lengthLine n).toList := by
  have hnil : (toString n).toList ≠ [] := by
    rw [show (toString n).toList = Nat.toDigits 10 n from Nat.toList_repr]
    exact Nat.toDigits_ne_nil
  obtain ⟨digits, d, hlast⟩ := (List.eq_nil_or_concat (toString n).toList).resolve_left hnil
  rw [List.concat_eq_append] at hlast
  have hd : isBlank d = false := by
    apply isBlank_of_mem_toString d
    rw [hlast]
    exact List.mem_concat_self
  rw [toList_lengthLine, hlast, ← List.cons_append, ← List.cons_append, ← List.append_assoc]
  exact trimRightBy_concat_of_neg hd

/-- The line that announces a length is read as this length. -/
lemma announcedLength?_lengthLine {n : Nat} (hn : n < wordValues 64) :
    announcedLength? (lengthLine n).toList = some (some n) := by
  have hvalue : trimBy isBlank (' ' :: (toString n).toList) = (toString n).toList := by
    rw [trimBy, trimLeftBy_cons_of_pos (by decide)]
    exact trimBy_eq_self_iff.mpr
      ⟨fun c hc => isBlank_of_mem_toString c (List.mem_of_mem_head? hc),
        fun c hc => isBlank_of_mem_toString c (List.mem_of_mem_getLast? hc)⟩
  have hname : (Text.lowerAscii (String.ofList (trimBy isBlank "Content-Length".toList)) ==
      "content-length") = true := by decide +kernel
  rw [announcedLength?, toList_lengthLine, splitOnce?_append (by decide)]
  simp only [hname, hvalue, String.ofList_toList, unsigned?_toString hn, if_true]

/-- The line that announces a length sets it. -/
lemma readFrame_lengthLine {n : Nat} (hn : n < wordValues 64) (fuel : Nat) (length : Option Nat)
    (rest : List UInt8) :
    readFrame (fuel + 1) length (headerLine (lengthLine n) ++ rest) =
      readFrame fuel (some n) rest := by
  have hfeed : '\n' ∉ (lengthLine n).toList := by
    rw [toList_lengthLine, List.mem_append, List.mem_cons, List.mem_cons]
    rintro (hname | hcolon | hspace | hdigit)
    · revert hname
      decide
    · cases hcolon
    · cases hspace
    · exact absurd (isBlank_of_mem_toString _ hdigit) (by decide)
  have hne : (lengthLine n).toList.isEmpty = false := by
    rw [toList_lengthLine]
    rfl
  rw [readFrame_headerLine hfeed, trimRightBy_lengthLine, hne, announcedLength?_lengthLine hn]
  rfl

/-! ### Messages with their headers -/

/-- The bytes of the body of a message. -/
def bodyOf (value : Json) : List UInt8 := value.render.toUTF8.toList

/-- A message on a stream: its value, and the lines that stand in its header before and behind the
one with the length. -/
structure HeadedMessage where
  value : Json
  before : List String := []
  behind : List String := []

namespace HeadedMessage

variable {m : HeadedMessage} {messages : List HeadedMessage}

/-- The bytes of a message with its header. -/
def encode (m : HeadedMessage) : List UInt8 :=
  m.before.flatMap headerLine ++ headerLine (lengthLine (bodyOf m.value).length) ++
    m.behind.flatMap headerLine ++ headerLine "" ++ bodyOf m.value

/-- Without other lines the header is the one with which messages are sent. -/
lemma encode_bare (value : Json) : encode ⟨value, [], []⟩ = frame value := by
  simp only [encode, frame, headerLine, lengthLine_eq, bodyOf, Text.toList_toUTF8,
    String.toList_append, List.flatMap_append, List.flatMap_nil, List.nil_append,
    List.append_assoc]
  rfl

/-- A message that can be read back: the other lines of its header are extra lines, its body is not
longer than memory is, and it is read as the value from which it was written. -/
structure IsReadable (m : HeadedMessage) : Prop where
  isExtraLine : ∀ line ∈ m.before ++ m.behind, IsExtraLine line
  length_lt : (bodyOf m.value).length < wordValues 63
  parse?_eq : Json.parse? m.value.render = some m.value

/-- The body of a message is read as its value. -/
lemma IsReadable.readBody_eq (h : m.IsReadable) (rest : List UInt8) :
    readBody (bodyOf m.value).length (bodyOf m.value ++ rest) = .message m.value rest := by
  have hparse : Json.parseBytes? ⟨(bodyOf m.value).toArray⟩ = some m.value := by
    rw [Json.parseBytes?, bodyOf, Text.fromUTF8?_toList_toUTF8, Option.bind_some, h.parse?_eq]
  have hshort : ¬ wordValues 63 ≤ (bodyOf m.value).length := Nat.not_le.mpr h.length_lt
  simp only [readBody, if_neg hshort, List.take_left, lt_self_iff_false, if_false, hparse,
    List.drop_left]

/-- A message is read from the beginning of a stream, with all that follows it left. -/
lemma IsReadable.readFrame_eq (h : m.IsReadable) (rest : List UInt8) :
    readFrame ((m.encode ++ rest).length + 1) none (m.encode ++ rest) = .message m.value rest := by
  obtain ⟨hbefore, hbehind⟩ := List.forall_mem_append.mp h.isExtraLine
  have hlength := Nat.lt_trans h.length_lt (by decide : wordValues 63 < wordValues 64)
  -- Every line has bytes, so there is fuel for all lines of the header.
  obtain ⟨fuel, hfuel⟩ : ∃ fuel, (m.encode ++ rest).length + 1 =
      fuel + 1 + m.behind.length + 1 + m.before.length := by
    have hbeforeLength := length_le_flatMap_headerLine m.before
    have hbehindLength := length_le_flatMap_headerLine m.behind
    have hblank := length_headerLine_pos ""
    refine ⟨(m.encode ++ rest).length + 1 - (1 + m.behind.length + 1 + m.before.length), ?_⟩
    have hline := length_headerLine_pos (lengthLine (bodyOf m.value).length)
    simp only [encode, List.length_append] at *
    omega
  rw [hfuel, encode]
  simp only [List.append_assoc]
  rw [readFrame_extraLines hbefore, readFrame_lengthLine hlength, readFrame_extraLines hbehind,
    readFrame_headerLine (by simp)]
  exact h.readBody_eq rest

/-- Readable messages are received one after the other, and nothing is left. -/
lemma receive_eq (h : ∀ m ∈ messages, m.IsReadable) :
    receive (messages.flatMap encode) = ⟨messages.map (·.value), [], false⟩ := by
  induction messages with
  | nil => rfl
  | cons m messages ih =>
    rw [List.forall_mem_cons] at h
    rw [List.flatMap_cons, LanguageServer.receive_eq, h.1.readFrame_eq]
    simp only [ih h.2]
    rfl

end HeadedMessage

/-- A stream of messages is read back, whatever other lines stand in their headers: reading as the
bytes arrive gives exactly the values of the messages and leaves nothing, and when the stream is
closed, reading gives them one after the other and then the end of the stream. -/
theorem messages_of_headed (messages : List HeadedMessage) (h : ∀ m ∈ messages, m.IsReadable) :
    (∀ m ∈ messages, m.before = [] → m.behind = [] → m.encode = frame m.value) ∧
      receive (messages.flatMap HeadedMessage.encode) = ⟨messages.map (·.value), [], false⟩ ∧
      ReadsAll (messages.flatMap HeadedMessage.encode) (messages.map (·.value)) := by
  have hreceive := HeadedMessage.receive_eq h
  refine ⟨?_, hreceive, readsAll_of_receive hreceive⟩
  rintro ⟨value, before, behind⟩ - rfl rfl
  exact HeadedMessage.encode_bare value

/-- An answer with a character of two bytes, in a header with a line of each side of its length, and
a notification behind it. -/
def answerAndLog : List HeadedMessage :=
  [⟨.obj [("id", .nat 1), ("result", .arr [.str "größe"])],
      ["Content-Type: application/vscode-jsonrpc; charset=utf-8"], ["Länge: 7", "no colon"]⟩,
    ⟨.obj [("method", .str "window/logMessage"), ("params", .obj [])], [], []⟩]

/-- Both messages are read back. -/
theorem messages_of_headed_answerAndLog :
    (∀ m ∈ answerAndLog, m.IsReadable) ∧
      receive (answerAndLog.flatMap HeadedMessage.encode) =
        ⟨answerAndLog.map (·.value), [], false⟩ ∧
      ReadsAll (answerAndLog.flatMap HeadedMessage.encode) (answerAndLog.map (·.value)) := by
  have hreadable : ∀ m ∈ answerAndLog, m.IsReadable := by
    rw [answerAndLog, List.forall_mem_cons, List.forall_mem_singleton]
    refine ⟨⟨?_, by decide +kernel, rfl⟩, ⟨?_, by decide +kernel, rfl⟩⟩
    · intro line hline
      refine isExtraLine_iff.mpr ?_
      revert line
      decide +kernel
    · intro line hline
      cases hline
  exact ⟨hreadable, (messages_of_headed answerAndLog hreadable).2⟩

end CodeAtlas.LanguageServer
