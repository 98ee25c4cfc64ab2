import CodeAtlas.Tool.LanguageServer.Framing
import Mathlib.Tactic.Lemma
import Mathlib.Tactic.SplitIfs

/-!
# Streams of messages that arrive in parts

A client reads what has arrived of a stream whenever it waits for an answer, and keeps the bytes of
an incomplete message for the next time.  How the stream is cut into parts does not matter:
`receive_append` says that reading a part and then another one, behind the bytes that the first one
left, gives the messages of both parts taken together, unless reading has ended for good in the
first part.

The reason is that a message does not depend on what follows it (`grows_readFrame`): its header is
read line by line up to a blank line, and its length tells where it stops.
-/

namespace CodeAtlas.LanguageServer

variable {bytes line rest : List UInt8} {fuel fuel' : Nat} {length : Option Nat}

/-! ### Lines -/

/-- A line stays the first one when more bytes arrive. -/
lemma splitLine?_append (more : List UInt8) (h : splitLine? bytes = some (line, rest)) :
    splitLine? (bytes ++ more) = some (line, rest ++ more) := by
  induction bytes generalizing line with
  | nil => cases h
  | cons b bs ih =>
    rw [List.cons_append, splitLine?]
    rw [splitLine?] at h
    split_ifs at h ⊢ with hb
    · obtain ⟨rfl, rfl⟩ := Prod.mk.inj (Option.some.inj h)
      rfl
    · obtain ⟨⟨line', rest'⟩, hline, heq⟩ := Option.map_eq_some_iff.mp h
      obtain ⟨rfl, rfl⟩ := Prod.mk.inj heq
      rw [ih hline]
      rfl

/-- Reading a line takes its line feed at least. -/
lemma length_lt_of_splitLine? (h : splitLine? bytes = some (line, rest)) :
    rest.length < bytes.length := by
  induction bytes generalizing line with
  | nil => cases h
  | cons b bs ih =>
    rw [splitLine?] at h
    rw [List.length_cons]
    split_ifs at h with hb
    · obtain ⟨-, rfl⟩ := Prod.mk.inj (Option.some.inj h)
      exact Nat.lt_succ_self _
    · obtain ⟨⟨line', rest'⟩, hline, heq⟩ := Option.map_eq_some_iff.mp h
      obtain ⟨-, rfl⟩ := Prod.mk.inj heq
      exact Nat.lt_succ_of_lt (ih hline)

/-! ### One message -/

/-- What becomes of the beginning of a stream when more bytes arrive: a message stays, with the new
bytes behind it, and what is malformed stays so. -/
inductive Frame.Grows (more : List UInt8) : Frame → Frame → Prop
  | message (value : Json) (rest : List UInt8) :
      Grows more (.message value rest) (.message value (rest ++ more))
  | malformed : Grows more .malformed .malformed
  | incomplete (frame : Frame) : Grows more .incomplete frame

lemma Frame.Grows.eq_message {more : List UInt8} {value : Json} {frame : Frame}
    (h : Frame.Grows more (.message value rest) frame) : frame = .message value (rest ++ more) := by
  cases h
  rfl

lemma Frame.Grows.eq_malformed {more : List UInt8} {frame : Frame}
    (h : Frame.Grows more .malformed frame) : frame = .malformed := by
  cases h
  rfl

/-- A body does not depend on the bytes behind it. -/
lemma grows_readBody (n : Nat) (bytes more : List UInt8) :
    (readBody n bytes).Grows more (readBody n (bytes ++ more)) := by
  unfold readBody
  simp only [List.length_take, List.length_append]
  by_cases hhuge : wordValues 63 ≤ n
  · rw [if_pos hhuge, if_pos hhuge]
    exact .malformed
  rw [if_neg hhuge, if_neg hhuge]
  by_cases hshort : min n bytes.length < n
  · rw [if_pos hshort]
    exact .incomplete _
  have hle : n ≤ bytes.length := by omega
  rw [if_neg hshort, if_neg (by omega), List.take_append_of_le_length hle,
    List.drop_append_of_le_length hle]
  cases Json.parseBytes? ⟨(bytes.take n).toArray⟩ with
  | some value => exact .message value _
  | none => exact .malformed

/-- A message does not depend on the bytes behind it.  The induction is on the fuel, which is enough
for all lines on both sides. -/
lemma grows_readFrame (more : List UInt8) (hfuel : bytes.length < fuel)
    (hfuel' : (bytes ++ more).length < fuel') :
    (readFrame fuel length bytes).Grows more (readFrame fuel' length (bytes ++ more)) := by
  induction fuel generalizing fuel' length bytes with
  | zero => exact absurd hfuel (Nat.not_lt_zero _)
  | succ fuel ih =>
    obtain _ | fuel' := fuel'
    · exact absurd hfuel' (Nat.not_lt_zero _)
    rw [readFrame]
    cases hline : splitLine? bytes with
    | none => exact .incomplete _
    | some p =>
      obtain ⟨line, rest⟩ := p
      have hless := length_lt_of_splitLine? hline
      have hrest : rest.length < fuel := by omega
      have hrest' : (rest ++ more).length < fuel' := by
        rw [List.length_append] at hfuel' ⊢
        omega
      rw [readFrame, splitLine?_append more hline]
      simp only
      cases String.fromUTF8? ⟨line.toArray⟩ with
      | none => exact .malformed
      | some line =>
        simp only
        split_ifs
        · cases length with
          | some n => exact grows_readBody n rest more
          | none => exact ih hrest hrest'
        · cases announcedLength? (trimRightBy isBlank line.toList) with
          | some announced => exact ih hrest hrest'
          | none => exact ih hrest hrest'

/-- Reading a message takes bytes. -/
lemma length_lt_of_readFrame {value : Json}
    (h : readFrame fuel length bytes = .message value rest) :
    rest.length < bytes.length := by
  induction fuel generalizing length bytes with
  | zero => cases h
  | succ fuel ih =>
    rw [readFrame] at h
    cases hline : splitLine? bytes with
    | none =>
      rw [hline] at h
      cases h
    | some p =>
      obtain ⟨line, below⟩ := p
      have hless := length_lt_of_splitLine? hline
      rw [hline] at h
      simp only at h
      cases htext : String.fromUTF8? ⟨line.toArray⟩ with
      | none =>
        rw [htext] at h
        cases h
      | some line =>
        simp only [htext] at h
        split_ifs at h
        · cases length with
          | none => exact Nat.lt_trans (ih h) hless
          | some n =>
            -- the body is taken off the bytes behind the header
            simp only [readBody] at h
            split_ifs at h
            split at h
            · obtain ⟨-, rfl⟩ := Frame.message.inj h
              rw [List.length_drop]
              omega
            · cases h
        · cases hannounced : announcedLength? (trimRightBy isBlank line.toList) with
          | some announced =>
            rw [hannounced] at h
            exact Nat.lt_trans (ih h) hless
          | none =>
            rw [hannounced] at h
            exact Nat.lt_trans (ih h) hless

/-! ### All messages -/

/-- The number of messages is no more than that of the bytes, so more fuel makes no difference. -/
lemma readFrames_congr (hfuel : bytes.length < fuel) (hfuel' : bytes.length < fuel') :
    readFrames fuel bytes = readFrames fuel' bytes := by
  induction fuel generalizing fuel' bytes with
  | zero => exact absurd hfuel (Nat.not_lt_zero _)
  | succ fuel ih =>
    obtain _ | fuel' := fuel'
    · exact absurd hfuel' (Nat.not_lt_zero _)
    rw [readFrames, readFrames]
    cases hframe : readFrame (bytes.length + 1) none bytes with
    | incomplete => rfl
    | malformed => rfl
    | message value rest =>
      have hless := length_lt_of_readFrame hframe
      simp only
      rw [ih (by omega) (by omega : rest.length < fuel')]

/-- The first message is read, and then those behind it. -/
lemma receive_eq (bytes : List UInt8) :
    receive bytes =
      match readFrame (bytes.length + 1) none bytes with
      | .message value rest => { receive rest with messages := value :: (receive rest).messages }
      | .incomplete => ⟨[], bytes, false⟩
      | .malformed => ⟨[], [], true⟩ := by
  rw [receive, readFrames]
  cases hframe : readFrame (bytes.length + 1) none bytes with
  | incomplete => rfl
  | malformed => rfl
  | message value rest =>
    have hless := length_lt_of_readFrame hframe
    simp only
    rw [receive, readFrames_congr hless (Nat.lt_succ_self rest.length)]

/-- What has been read of a stream when more bytes have arrived. -/
def Received.andThen (received : Received) (more : List UInt8) : Received :=
  if received.ended then received
  else
    let next := receive (received.left ++ more)
    { next with messages := received.messages ++ next.messages }

/-- A stream may be read in two parts. -/
theorem receive_append (bytes more : List UInt8) :
    receive (bytes ++ more) = (receive bytes).andThen more := by
  induction hlength : bytes.length using Nat.strongRecOn generalizing bytes with
  | ind n ih =>
    subst hlength
    have hgrows : (readFrame (bytes.length + 1) none bytes).Grows more
        (readFrame ((bytes ++ more).length + 1) none (bytes ++ more)) :=
      grows_readFrame more (Nat.lt_succ_self _) (Nat.lt_succ_self _)
    rw [receive_eq bytes, receive_eq (bytes ++ more)]
    cases hframe : readFrame (bytes.length + 1) none bytes with
    | incomplete =>
      rw [← receive_eq (bytes ++ more)]
      rfl
    | malformed =>
      rw [hframe] at hgrows
      rw [hgrows.eq_malformed]
      rfl
    | message value rest =>
      rw [hframe] at hgrows
      rw [hgrows.eq_message]
      simp only
      rw [ih rest.length (length_lt_of_readFrame hframe) rest rfl]
      simp only [Received.andThen]
      split_ifs
      · rfl
      · rfl

end CodeAtlas.LanguageServer
