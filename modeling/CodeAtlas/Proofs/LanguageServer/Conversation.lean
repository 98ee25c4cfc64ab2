import CodeAtlas.Proofs.LanguageServer.Stream
import CodeAtlas.Tool.LanguageServer.Session
import Mathlib.Data.List.Nodup

/-!
# Requests and what is heard on them

What a session has said and heard is fixed by the requests that it has sent: the bytes that the
server writes on them are one stream, and the messages of this stream are looked at in their order,
each of them once.  A request looks at messages until it finds its answer, or at all that have
arrived.

`Session.Listens` is the invariant of a session that goes on.  Every request has one of three ends
(`Session.Listens.requested`): it is answered, it hears no answer, or the session breaks because a
message cannot be written or the stream has come to an end.
-/

namespace CodeAtlas.LanguageServer

/-! ### What has been said -/

/-- The requests of a session, in the order in which they were sent. -/
def Session.asked (s : Session) : List Json := s.sent.reverse.filter fun m => (m.get? "id").isSome

/-- The bytes that a server writes on requests, which are numbered from one. -/
def replies (server : Server) (asked : List Json) : List UInt8 :=
  (asked.zipIdx 1).flatMap fun p => (server p.2 p.1).bytes

/-- The messages that arrive on requests. -/
def heard (server : Server) (asked : List Json) : List Json :=
  (receive (replies server asked)).messages

/-- The stream has become unreadable. -/
def IsGarbled (server : Server) (asked : List Json) : Prop :=
  (receive (replies server asked)).ended = true

/-- The server has died on one of its requests. -/
def HasDied (server : Server) (asked : List Json) : Prop :=
  ∃ p ∈ asked.zipIdx 1, (server p.2 p.1).dies = true

/-- Requests carry the numbers from one. -/
def Numbered (asked : List Json) : Prop :=
  asked.map (·.get? "id") = (List.range' 1 asked.length).map fun id => some (.nat id)

/-- What a request hears of the messages that have arrived, of which some were looked at before: the
first answer to it behind these, or nothing.  Afterwards all messages up to this answer have been
looked at, or all messages. -/
inductive Hears (id : Nat) (messages looked : List Json) : Option Json → List Json → Prop
  | answer {skipped rest : List Json} {m : Json}
      (hmessages : messages = looked ++ skipped ++ m :: rest)
      (hskipped : ∀ m' ∈ skipped, answers id m' = false) (hanswer : answers id m = true) :
      Hears id messages looked (some m) (looked ++ skipped ++ [m])
  | silence {skipped : List Json} (hmessages : messages = looked ++ skipped)
      (hskipped : ∀ m' ∈ skipped, answers id m' = false) : Hears id messages looked none messages

/-- Why a session cannot go on: a message could not be written, because something went wrong or the
server has died, or no answer can come any more, because it has died or cannot be understood. -/
inductive Breaks (server : Server) (faults : Nat → Option OsError) (s : Session) :
    RequestError → Prop
  | fault {cause : OsError} (h : faults s.sent.length = some cause) :
      Breaks server faults s (.io cause)
  | pipe (h : HasDied server s.asked) : Breaks server faults s (.io .brokenPipe)
  | closed (h : HasDied server s.asked ∨ IsGarbled server s.asked) : Breaks server faults s .closed

variable {server : Server} {faults : Nat → Option OsError} {s s' : Session}
  {asked looked : List Json} {request : Json} {method : String} {params : Option Json}

/-! ### One more request -/

@[simp]
lemma get?_id_envelope (id : Option Nat) (method : String) (params : Option Json) :
    (envelope id method params).get? "id" = id.map Json.nat := by
  cases id <;> cases params <;> rfl

lemma replies_append (server : Server) (asked : List Json) (request : Json) :
    replies server (asked ++ [request]) =
      replies server asked ++ (server (asked.length + 1) request).bytes := by
  rw [replies, List.zipIdx_append, List.flatMap_append, Nat.add_comm asked.length]
  simp [replies]

/-- As long as a stream can be read, what arrives on one more request is read behind what was
left. -/
lemma receive_replies_append (h : ¬IsGarbled server asked) (request : Json) :
    receive (replies server (asked ++ [request])) =
      let received := receive ((receive (replies server asked)).left ++
        (server (asked.length + 1) request).bytes)
      { received with messages := heard server asked ++ received.messages } := by
  rw [replies_append, receive_append]
  exact if_neg h

/-- When it cannot be read any more, nothing arrives. -/
lemma IsGarbled.receive_replies_append (h : IsGarbled server asked) (request : Json) :
    receive (replies server (asked ++ [request])) = receive (replies server asked) := by
  rw [replies_append, receive_append]
  exact if_pos h

lemma hasDied_append (h : (server (asked.length + 1) request).dies = true) :
    HasDied server (asked ++ [request]) := by
  refine ⟨(request, asked.length + 1), ?_, h⟩
  rw [List.zipIdx_append, Nat.add_comm]
  exact List.mem_append_right _ (List.mem_singleton.mpr rfl)

lemma Numbered.append (h : Numbered asked) (method : String) (params : Option Json) :
    Numbered (asked ++ [envelope (some (asked.length + 1)) method params]) := by
  rw [Numbered, List.map_append, h, List.length_append, List.length_singleton, List.range'_1_concat,
    List.map_append, Nat.add_comm 1]
  simp

/-- Requests that are numbered have different numbers. -/
lemma Numbered.nodup (h : Numbered asked) : (asked.map (·.get? "id")).Nodup := by
  rw [h]
  refine (List.nodup_range' ..).map fun i j hij => ?_
  exact Int.ofNat.inj (Json.int.inj (Option.some.inj hij))

/-! ### Looking for an answer -/

/-- An answer that is found is the first one. -/
lemma exists_skipped_of_findAnswer? {id : Nat} {inbox rest : List Json} {m : Json}
    (h : findAnswer? id inbox = some (m, rest)) :
    ∃ skipped, inbox = skipped ++ m :: rest ∧ (∀ m' ∈ skipped, answers id m' = false) ∧
      answers id m = true := by
  induction inbox with
  | nil => cases h
  | cons m' ms ih =>
    rw [findAnswer?] at h
    split_ifs at h with hm
    · obtain ⟨rfl, rfl⟩ := Prod.mk.inj (Option.some.inj h)
      exact ⟨[], rfl, fun _ hm' => absurd hm' List.not_mem_nil, hm⟩
    · obtain ⟨skipped, rfl, hskipped, hanswer⟩ := ih h
      exact ⟨m' :: skipped, rfl,
        List.forall_mem_cons.mpr ⟨Bool.eq_false_iff.mpr hm, hskipped⟩, hanswer⟩

/-- If none is found, there is none. -/
lemma answers_eq_false_of_findAnswer? {id : Nat} {inbox : List Json}
    (h : findAnswer? id inbox = none) : ∀ m ∈ inbox, answers id m = false := by
  induction inbox with
  | nil => exact fun _ hm => absurd hm List.not_mem_nil
  | cons m ms ih =>
    rw [findAnswer?] at h
    split_ifs at h with hm
    exact List.forall_mem_cons.mpr ⟨Bool.eq_false_iff.mpr hm, ih h⟩

/-! ### The invariant of a session that goes on -/

/-- A session that goes on has sent requests and looked at messages: the requests are numbered, the
messages that it has heard and not looked at are in its inbox, and what it keeps of the stream is
where the stream has got to. -/
structure Session.Listens (server : Server) (faults : Nat → Option OsError) (s : Session)
    (asked looked : List Json) : Prop where
  faults_eq : s.faults = faults
  asked_eq : s.asked = asked
  lastId_eq : s.lastId = asked.length
  numbered : Numbered asked
  heard_eq : heard server asked = looked ++ s.inbox
  unread_eq : s.readable = true → s.unread = (receive (replies server asked)).left
  not_garbled : s.readable = true → ¬IsGarbled server asked
  garbled : s.alive = true → s.readable = false → IsGarbled server asked
  died : s.alive = false → HasDied server asked

/-- What holds of a session even when it has broken. -/
structure Session.IsSound (server : Server) (faults : Nat → Option OsError) (s : Session) :
    Prop where
  faults_eq : s.faults = faults
  numbered : Numbered s.asked
  died : s.alive = false → HasDied server s.asked

namespace Session

/-- A message is sent, or it cannot be written. -/
lemma send_cases (s : Session) (message : Json) :
    s.alive = true ∧ s.send message = .ok { s with sent := message :: s.sent } ∨
      ∃ cause, s.send message = .error (.io cause) ∧
        (s.faults s.sent.length = some cause ∨ s.alive = false ∧ cause = .brokenPipe) := by
  unfold send
  cases s.faults s.sent.length with
  | some cause => exact .inr ⟨cause, rfl, .inl rfl⟩
  | none =>
    cases halive : s.alive with
    | true => exact .inl ⟨rfl, rfl⟩
    | false => exact .inr ⟨.brokenPipe, rfl, .inr ⟨rfl, rfl⟩⟩

/-- A message is a request if it carries a number. -/
lemma asked_eq_of_sent {message : Json} (h : s'.sent = message :: s.sent) :
    s'.asked = s.asked ++ if (message.get? "id").isSome then [message] else [] := by
  rw [Session.asked, h, List.reverse_cons, List.filter_append, List.filter_cons, List.filter_nil]
  rfl

/-- Sending a message only records it. -/
lemma eq_of_send {message : Json} (h : s.send message = .ok s') :
    { s with sent := message :: s.sent } = s' := by
  obtain ⟨-, hsent⟩ | ⟨cause, herror, -⟩ := s.send_cases message
  · rw [hsent] at h
    exact Except.ok.inj h
  · rw [herror] at h
    cases h

/-- A notification is no request. -/
lemma asked_eq_of_send (h : s.send (envelope none method params) = .ok s') :
    s'.asked = s.asked := by
  obtain rfl := eq_of_send h
  rw [asked_eq_of_sent rfl, get?_id_envelope]
  exact List.append_nil _

/-- At the beginning nothing has been asked and nothing heard. -/
lemma listens_start (server : Server) (faults : Nat → Option OsError) :
    ({ faults } : Session).Listens server faults [] [] where
  faults_eq := rfl
  asked_eq := rfl
  lastId_eq := rfl
  numbered := rfl
  heard_eq := rfl
  unread_eq _ := rfl
  not_garbled _ := Bool.false_ne_true
  garbled _ h := by cases h
  died h := by cases h

namespace IsSound

/-- A message that cannot be written breaks the session. -/
lemma breaks_of_send (h : s.IsSound server faults) {message : Json} {e : RequestError}
    (hsend : s.send message = .error e) : Breaks server faults s e := by
  obtain ⟨-, hsent⟩ | ⟨cause, herror, hcause⟩ := s.send_cases message
  · rw [hsent] at hsend
    cases hsend
  · rw [herror] at hsend
    obtain rfl := Except.error.inj hsend
    obtain hfault | ⟨hdead, rfl⟩ := hcause
    · exact .fault (h.faults_eq ▸ hfault)
    · exact .pipe (h.died hdead)

/-- A notification leaves the session sound. -/
lemma notify (h : s.IsSound server faults)
    (hsend : s.send (envelope none method params) = .ok s') : s'.IsSound server faults := by
  have hasked := asked_eq_of_send hsend
  obtain rfl := eq_of_send hsend
  exact ⟨h.faults_eq, hasked ▸ h.numbered, fun hdead => hasked ▸ h.died hdead⟩

/-- A session that has broken stays so, even if a notification can be sent. -/
lemma breaks_of_notify (h : s.IsSound server faults) {e : RequestError}
    (hbreaks : Breaks server faults s e) (hsend : s.send (envelope none method params) = .ok s') :
    Breaks server faults s' e := by
  have hasked := asked_eq_of_send hsend
  cases hbreaks with
  | fault hfault =>
    rw [send, h.faults_eq, hfault] at hsend
    cases hsend
  | pipe hdied => exact .pipe (hasked ▸ hdied)
  | closed hover => exact .closed (hasked ▸ hover)

end IsSound

namespace Listens

/-- A session that goes on is sound. -/
lemma isSound (h : s.Listens server faults asked looked) : s.IsSound server faults where
  faults_eq := h.faults_eq
  numbered := h.asked_eq ▸ h.numbered
  died := h.asked_eq ▸ h.died

/-- A notification leaves the session listening. -/
lemma notify (h : s.Listens server faults asked looked)
    (hsend : s.send (envelope none method params) = .ok s') :
    s'.Listens server faults asked looked := by
  have hasked := (asked_eq_of_send hsend).trans h.asked_eq
  obtain rfl := eq_of_send hsend
  exact ⟨h.faults_eq, hasked, h.lastId_eq, h.numbered, h.heard_eq, h.unread_eq, h.not_garbled,
    h.garbled, h.died⟩

/-- Messages that are looked at are taken out of the inbox. -/
lemma withInbox (h : s.Listens server faults asked looked) {inbox looked' : List Json}
    (heq : looked ++ s.inbox = looked' ++ inbox) :
    ({ s with inbox } : Session).Listens server faults asked looked' :=
  ⟨h.faults_eq, h.asked_eq, h.lastId_eq, h.numbered, h.heard_eq.trans heq, h.unread_eq,
    h.not_garbled, h.garbled, h.died⟩

/-- No answer can come any more if the stream cannot be read. -/
lemma died_or_garbled (h : s.Listens server faults asked looked) (hreadable : ¬s.readable = true) :
    HasDied server asked ∨ IsGarbled server asked := by
  cases halive : s.alive with
  | true => exact .inr (h.garbled halive (Bool.eq_false_iff.mpr hreadable))
  | false => exact .inl (h.died halive)

/-- When a request has been sent and the bytes that the server writes on it have been taken in, all
messages that it has written so far are in the inbox or have been looked at. -/
lemma take (h : s.Listens server faults asked looked) (halive : s.alive = true)
    (hrequest : request = envelope (some (asked.length + 1)) method params) :
    (({ s with lastId := asked.length + 1, sent := request :: s.sent } : Session).take
      (server (asked.length + 1) request)).Listens server faults (asked ++ [request]) looked := by
  have hasked (s' : Session) (hsent : s'.sent = request :: s.sent) :
      s'.asked = asked ++ [request] := by
    rw [asked_eq_of_sent hsent, h.asked_eq, hrequest, get?_id_envelope]
    rfl
  have hlastId : asked.length + 1 = (asked ++ [request]).length := by simp
  have hnumbered : Numbered (asked ++ [request]) := hrequest ▸ h.numbered.append method params
  have hdied (hdead : (!(server (asked.length + 1) request).dies) = false) :
      HasDied server (asked ++ [request]) := by
    rw [Bool.not_eq_false'] at hdead
    exact hasDied_append hdead
  unfold Session.take
  simp only
  split_ifs with hreadable
  · have hreceive := receive_replies_append (h.not_garbled hreadable) request
    rw [← h.unread_eq hreadable] at hreceive
    simp only at hreceive
    generalize receive (s.unread ++ (server (asked.length + 1) request).bytes) = received
      at hreceive ⊢
    refine ⟨h.faults_eq, hasked _ rfl, hlastId, hnumbered, ?_, ?_, ?_, ?_, hdied⟩
    · rw [heard, hreceive, h.heard_eq, List.append_assoc]
    · intro _
      rw [hreceive]
    · intro hstill
      rw [Bool.and_eq_true, Bool.not_eq_true'] at hstill
      rw [IsGarbled, hreceive, hstill.1]
      exact Bool.false_ne_true
    · intro hlives hnot
      simp only at hlives hnot
      rw [hlives, Bool.and_true, Bool.not_eq_false'] at hnot
      rw [IsGarbled, hreceive]
      exact hnot
  · have hgarbled := h.garbled halive (Bool.eq_false_iff.mpr hreadable)
    have hreceive := hgarbled.receive_replies_append request
    refine ⟨h.faults_eq, hasked _ rfl, hlastId, hnumbered, ?_,
      fun hstill => absurd hstill hreadable, fun hstill => absurd hstill hreadable,
      fun _ _ => ?_, hdied⟩
    · rw [heard, hreceive]
      exact h.heard_eq
    · rw [IsGarbled, hreceive]
      exact hgarbled

end Listens

end Session

/-! ### The end of a request -/

/-- How the next request may end after others have been asked and messages looked at. -/
inductive Requested (server : Server) (faults : Nat → Option OsError) (asked looked : List Json)
    (method : String) (params : Option Json) : Except RequestError Json × Session → Prop
  | answered {request m : Json} {s' : Session} {looked' : List Json}
      (hrequest : request = envelope (some (asked.length + 1)) method params)
      (hlistens : s'.Listens server faults (asked ++ [request]) looked')
      (hhears : Hears (asked.length + 1) (heard server (asked ++ [request])) looked (some m)
        looked') :
      Requested server faults asked looked method params (resultOf method m, s')
  | silent {request : Json} {s' : Session} {looked' : List Json}
      (hrequest : request = envelope (some (asked.length + 1)) method params)
      (hlistens : s'.Listens server faults (asked ++ [request]) looked')
      (hhears : Hears (asked.length + 1) (heard server (asked ++ [request])) looked none looked') :
      Requested server faults asked looked method params (.error (.timeout method), s')
  | broken {e : RequestError} {s' : Session} (hasked : asked <+: s'.asked)
      (hsound : s'.IsSound server faults) (hbreaks : Breaks server faults s' e) :
      Requested server faults asked looked method params (.error e, s')

namespace Requested

variable {result : Except RequestError Json × Session}

/-- However a request ends, the session is sound. -/
lemma isSound (h : Requested server faults asked looked method params result) :
    result.2.IsSound server faults := by
  cases h with
  | answered _ hlistens _ => exact hlistens.isSound
  | silent _ hlistens _ => exact hlistens.isSound
  | broken _ hsound _ => exact hsound

/-- However a request ends, the requests before it stay. -/
lemma isPrefix (h : Requested server faults asked looked method params result) :
    asked <+: result.2.asked := by
  cases h with
  | answered _ hlistens _ => exact hlistens.asked_eq ▸ List.prefix_append _ _
  | silent _ hlistens _ => exact hlistens.asked_eq ▸ List.prefix_append _ _
  | broken hasked _ _ => exact hasked

end Requested

namespace Session.Listens

/-- A request is answered, hears no answer, or breaks the session. -/
theorem requested (h : s.Listens server faults asked looked) (method : String)
    (params : Option Json) :
    Requested server faults asked looked method params (s.request server method params) := by
  unfold Session.request
  simp only [h.lastId_eq]
  obtain ⟨halive, hsent⟩ | ⟨cause, herror, -⟩ := Session.send_cases
    { s with lastId := asked.length + 1 } (envelope (some (asked.length + 1)) method params)
  · simp only [hsent]
    have htaken := h.take halive (rfl : _ = envelope (some (asked.length + 1)) method params)
    generalize Session.take _ _ = taken at htaken ⊢
    cases hanswer : findAnswer? (asked.length + 1) taken.inbox with
    | some p =>
      obtain ⟨m, rest⟩ := p
      obtain ⟨skipped, hinbox, hskipped, hm⟩ := exists_skipped_of_findAnswer? hanswer
      have hmessages := htaken.heard_eq
      rw [hinbox, ← List.append_assoc] at hmessages
      refine .answered rfl (htaken.withInbox ?_) (.answer hmessages hskipped hm)
      rw [hinbox]
      simp only [List.append_assoc, List.singleton_append]
    | none =>
      have hhears := Hears.silence htaken.heard_eq (answers_eq_false_of_findAnswer? hanswer)
      have hlistens := htaken.withInbox (htaken.heard_eq.symm.trans (List.append_nil _).symm)
      simp only
      split_ifs with hreadable
      · exact .silent rfl hlistens hhears
      · refine .broken ?_ hlistens.isSound (.closed ?_) <;> rw [hlistens.asked_eq]
        · exact List.prefix_append _ _
        · exact htaken.died_or_garbled hreadable
  · simp only [herror]
    have hsound : ({ s with lastId := asked.length + 1 } : Session).IsSound server faults :=
      ⟨h.isSound.faults_eq, h.isSound.numbered, h.isSound.died⟩
    exact .broken (h.asked_eq ▸ List.prefix_rfl) hsound (hsound.breaks_of_send herror)

end Session.Listens

end CodeAtlas.LanguageServer
