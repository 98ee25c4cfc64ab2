import CodeAtlas.Proofs.LanguageServer.Conversation

/-!
# Answers are attributed to the documents that were asked about

The answer to a request may come late, twice, or never; it may be an error, and it stands between
notifications, requests of the server and answers to earlier requests.  Whatever the server writes,
what a document contributes comes from the first message, among those that no request has looked at
before, that has no method and carries the number of this document's own request (`Attributed`).  A
document that hears no such message until the time is up, or an error, contributes nothing, and the
next document is asked about.

`reports_extract` says so of all runs, and that nothing else than a message that cannot be written,
the end of the stream or a failed initialisation makes a run fail.
-/

namespace CodeAtlas.LanguageServer

/-- The request that initialises a server. -/
def initializeRequest (processId : Nat) (root : String) : Json :=
  envelope (some 1) "initialize" (some (initializeParams processId root))

/-- The request for the symbols of a document. -/
def symbolRequest (id : Nat) (path : String) : Json :=
  envelope (some id) "textDocument/documentSymbol" (some (documentParams path))

/-- What a document contributes if its request hears an answer or none.  An error contributes
nothing. -/
def contribution (answer : Option Json) (file source : String) : List Symbol :=
  match answer with
  | none => []
  | some m =>
    match m.get? "error" with
    | some _ => []
    | none => symbolsOf ((m.get? "result").getD .null) file source

/-- Symbols that documents contribute, one after the other, after requests have been asked and
messages looked at; and the requests that have been asked then. -/
inductive Attributed (server : Server) (root : String) :
    List Json → List Json → List Document → List Json → List Symbol → Prop
  | nil {asked looked : List Json} : Attributed server root asked looked [] asked []
  | unreadable {asked looked asked' : List Json} {d : Document} {ds : List Document}
      {symbols : List Symbol} (hsource : d.source = none)
      (hrest : Attributed server root asked looked ds asked' symbols) :
      Attributed server root asked looked (d :: ds) asked' symbols
  | requested {request : Json} {asked looked looked' asked' : List Json} {d : Document}
      {ds : List Document} {source : String} {symbols : List Symbol} {answer : Option Json}
      (hsource : d.source = some source)
      (hrequest : request = symbolRequest (asked.length + 1) d.path)
      (hhears : Hears (asked.length + 1) (heard server (asked ++ [request])) looked answer looked')
      (hrest : Attributed server root (asked ++ [request]) looked' ds asked' symbols) :
      Attributed server root asked looked (d :: ds) asked'
        (contribution answer (Path.relative root d.path) source ++ symbols)

/-- How a session may end: with the symbols that the documents contribute once the server is
initialised, because it cannot go on, or because the initialisation fails. -/
inductive Ran (server : Server) (processId : Nat) (root : String) (documents : List Document)
    (faults : Nat → Option OsError) : Except RequestError (List Symbol) × Session → Prop
  | symbols {m : Json} {looked asked : List Json} {symbols : List Symbol} {s : Session}
      (hhears : Hears 1 (heard server [initializeRequest processId root]) [] (some m) looked)
      (herror : m.get? "error" = none)
      (hattributed : Attributed server root [initializeRequest processId root] looked documents
        asked symbols)
      (hasked : asked <+: s.asked) : Ran server processId root documents faults (.ok symbols, s)
  | broken {e : RequestError} {s : Session} (hbreaks : Breaks server faults s e) :
      Ran server processId root documents faults (.error e, s)
  | silent {looked : List Json} {s : Session}
      (hhears : Hears 1 (heard server [initializeRequest processId root]) [] none looked) :
      Ran server processId root documents faults (.error (.timeout "initialize"), s)
  | refused {m e : Json} {looked : List Json} {s : Session}
      (hhears : Hears 1 (heard server [initializeRequest processId root]) [] (some m) looked)
      (herror : m.get? "error" = some e) :
      Ran server processId root documents faults
        (.error (.refused "initialize" e.canonical.render), s)

/-- The report that a server cannot be used. -/
def unavailable (e : RequestError) : IndexError := .toolUnavailable Origin.clangd.name e.message

/-- What may be reported for documents: nothing without documents, that the server could not be
started, or how its session has ended. -/
inductive Reports (start : Except OsError Server) (processId : Nat) (root : String)
    (documents : List Document) (faults : Nat → Option OsError) :
    Except IndexError (List Symbol) → Prop
  | nothing (hdocuments : documents = []) : Reports start processId root documents faults (.ok [])
  | unstarted {cause : OsError} (hdocuments : documents ≠ []) (hstart : start = .error cause) :
      Reports start processId root documents faults (.error (unavailable (.io cause)))
  | ran {server : Server} {result : Except RequestError (List Symbol)} (hdocuments : documents ≠ [])
      (hstart : start = .ok server)
      (hran : Ran server processId root documents faults
        (result, (Session.run server processId root documents faults).2)) :
      Reports start processId root documents faults (result.mapError unavailable)

variable {server : Server} {faults : Nat → Option OsError} {s s' : Session}
  {asked looked asked' : List Json} {documents : List Document} {symbols : List Symbol}

/-- The requests that have been asked stay. -/
lemma Attributed.isPrefix {root : String}
    (h : Attributed server root asked looked documents asked' symbols) : asked <+: asked' := by
  induction h with
  | nil => exact List.prefix_rfl
  | unreadable _ _ ih => exact ih
  | requested _ _ _ _ ih => exact (List.prefix_append _ _).trans ih

/-- How the symbols of documents may be collected. -/
inductive Collected (server : Server) (faults : Nat → Option OsError) (root : String)
    (asked looked : List Json) (documents : List Document) :
    Except RequestError (List Symbol) × Session → Prop
  | symbols {symbols : List Symbol} {s' : Session} {asked' looked' : List Json}
      (hlistens : s'.Listens server faults asked' looked')
      (hattributed : Attributed server root asked looked documents asked' symbols) :
      Collected server faults root asked looked documents (.ok symbols, s')
  | broken {e : RequestError} {s' : Session} (hsound : s'.IsSound server faults)
      (hbreaks : Breaks server faults s' e) :
      Collected server faults root asked looked documents (.error e, s')

/-- What breaks a session is fatal. -/
lemma Breaks.isFatal {e : RequestError} (h : Breaks server faults s e) : e.isFatal = true := by
  cases h <;> rfl

namespace Collected

variable {root source : String} {d : Document} {ds : List Document} {request : Json}
  {answer : Option Json} {looked' : List Json} {rest : Except RequestError (List Symbol) × Session}

/-- A document that cannot be read is left out. -/
lemma unreadable (hsource : d.source = none)
    (h : Collected server faults root asked looked ds rest) :
    Collected server faults root asked looked (d :: ds) rest := by
  cases h with
  | symbols hlistens hattributed => exact .symbols hlistens (.unreadable hsource hattributed)
  | broken hsound hbreaks => exact .broken hsound hbreaks

/-- What a document contributes stands before what those behind it contribute. -/
lemma requested (hsource : d.source = some source)
    (hrequest : request = symbolRequest (asked.length + 1) d.path)
    (hhears : Hears (asked.length + 1) (heard server (asked ++ [request])) looked answer looked')
    (h : Collected server faults root (asked ++ [request]) looked' ds rest) :
    Collected server faults root asked looked (d :: ds)
      (rest.1.map (contribution answer (Path.relative root d.path) source ++ ·), rest.2) := by
  cases h with
  | symbols hlistens hattributed =>
    exact .symbols hlistens (.requested hsource hrequest hhears hattributed)
  | broken hsound hbreaks => exact .broken hsound hbreaks

/-- If a document contributes nothing, those behind it are all that count. -/
lemma requested_of_eq_nil (hsource : d.source = some source)
    (hrequest : request = symbolRequest (asked.length + 1) d.path)
    (hhears : Hears (asked.length + 1) (heard server (asked ++ [request])) looked answer looked')
    (hnil : contribution answer (Path.relative root d.path) source = [])
    (h : Collected server faults root (asked ++ [request]) looked' ds rest) :
    Collected server faults root asked looked (d :: ds) rest := by
  have hrequested := h.requested hsource hrequest hhears
  rw [hnil] at hrequested
  obtain ⟨result, s'⟩ := rest
  cases result with
  | ok symbols => exact hrequested
  | error e => exact hrequested

end Collected

namespace Session.Listens

/-- Opening and closing a document makes no difference to the request for its symbols. -/
lemma documentSymbols (h : s.Listens server faults asked looked) (path source : String) :
    Requested server faults asked looked "textDocument/documentSymbol"
      (some (documentParams path)) (s.documentSymbols server path source) := by
  unfold Session.documentSymbols
  cases hopen : s.send (envelope none "textDocument/didOpen" (some (openParams path source))) with
  | error e =>
    exact .broken (h.asked_eq ▸ List.prefix_rfl) h.isSound (h.isSound.breaks_of_send hopen)
  | ok opened =>
    have hrequested := (h.notify hopen).requested "textDocument/documentSymbol"
      (some (documentParams path))
    simp only
    revert hrequested
    generalize opened.request server "textDocument/documentSymbol" (some (documentParams path)) =
      result
    obtain ⟨answer, s'⟩ := result
    intro hrequested
    simp only
    cases hclose : s'.send (envelope none "textDocument/didClose" (some (documentParams path))) with
    | ok closed =>
      cases hrequested with
      | answered hrequest hlistens hhears =>
        exact .answered hrequest (hlistens.notify hclose) hhears
      | silent hrequest hlistens hhears =>
        exact .silent hrequest (hlistens.notify hclose) hhears
      | broken hasked hsound hbreaks =>
        refine .broken ?_ (hsound.notify hclose) (hsound.breaks_of_notify hbreaks hclose)
        rwa [Session.asked_eq_of_send hclose]
    | error e =>
      have hsound := hrequested.isSound
      exact .broken hrequested.isPrefix hsound (hsound.breaks_of_send hclose)

/-- Collecting the symbols of documents attributes them, or the session breaks.  The induction is on
the documents; a session that goes on listens again after each of them. -/
theorem collected (h : s.Listens server faults asked looked) (root : String)
    (documents : List Document) :
    Collected server faults root asked looked documents
      (s.symbolsOfAll server root documents) := by
  induction documents generalizing s asked looked with
  | nil => exact .symbols h .nil
  | cons d ds ih =>
    rw [Session.symbolsOfAll]
    cases hsource : d.source with
    | none => exact (ih h).unreadable hsource
    | some source =>
      have hrequested := h.documentSymbols d.path source
      revert hrequested
      simp only
      generalize s.documentSymbols server d.path source = result
      intro hrequested
      cases hrequested with
      | @answered request m s' looked' hrequest hlistens hhears =>
        have hrest := ih hlistens
        cases herror : m.get? "error" with
        | none =>
          have hcollected := hrest.requested hsource hrequest hhears
          simp only [contribution, herror] at hcollected
          simp only [resultOf, herror]
          exact hcollected
        | some e =>
          simp only [resultOf, herror]
          exact hrest.requested_of_eq_nil hsource hrequest hhears
            (by simp only [contribution, herror])
      | silent hrequest hlistens hhears =>
        exact (ih hlistens).requested_of_eq_nil hsource hrequest hhears rfl
      | broken hasked hsound hbreaks =>
        simp only [hbreaks.isFatal, if_true]
        exact .broken hsound hbreaks

end Session.Listens

/-! ### Sessions and runs -/

/-- A session ends in one of these ways, and its requests are numbered. -/
theorem ran_run (server : Server) (processId : Nat) (root : String) (documents : List Document)
    (faults : Nat → Option OsError) :
    Ran server processId root documents faults
        (Session.run server processId root documents faults) ∧
      Numbered (Session.run server processId root documents faults).2.asked := by
  unfold Session.run
  simp only
  have hrequested := (Session.listens_start server faults).requested "initialize"
    (some (initializeParams processId root))
  revert hrequested
  generalize ({ faults } : Session).request server "initialize"
    (some (initializeParams processId root)) = result
  intro hrequested
  cases hrequested with
  | silent hrequest hlistens hhears =>
    subst hrequest
    exact ⟨.silent hhears, hlistens.isSound.numbered⟩
  | broken hasked hsound hbreaks => exact ⟨.broken hbreaks, hsound.numbered⟩
  | @answered request m s looked hrequest hlistens hhears =>
    subst hrequest
    cases herror : m.get? "error" with
    | some e =>
      simp only [resultOf, herror]
      exact ⟨.refused hhears herror, hlistens.isSound.numbered⟩
    | none =>
      simp only [resultOf, herror]
      cases hready : s.send (envelope none "initialized" (some (.obj []))) with
      | error e =>
        exact ⟨.broken (hlistens.isSound.breaks_of_send hready), hlistens.isSound.numbered⟩
      | ok ready =>
        have hcollected := (hlistens.notify hready).collected root documents
        revert hcollected
        simp only
        generalize ready.symbolsOfAll server root documents = collected
        intro hcollected
        cases hcollected with
        | broken hsound hbreaks => exact ⟨.broken hbreaks, hsound.numbered⟩
        | @symbols symbols s asked looked hlistens hattributed =>
          have hshutdown := hlistens.requested "shutdown" none
          revert hshutdown
          simp only
          generalize s.request server "shutdown" none = result
          intro hshutdown
          have hnumbered := hshutdown.isSound.numbered
          have hasked := hshutdown.isPrefix
          cases hexit : result.2.send (envelope none "exit" none) with
          | error e => exact ⟨.symbols hhears herror hattributed hasked, hnumbered⟩
          | ok s' =>
            rw [← Session.asked_eq_of_send hexit] at hnumbered hasked
            exact ⟨.symbols hhears herror hattributed hasked, hnumbered⟩

/-- What is reported for documents is what their own requests have heard, whatever a server writes;
the requests of a session have different numbers, and only a message that cannot be written, the end
of the stream or a failed initialisation makes the whole fail. -/
theorem reports_extract (start : Except OsError Server) (processId : Nat) (root : String)
    (documents : List Document) (faults : Nat → Option OsError) :
    Reports start processId root documents faults
        (extract start processId root documents faults) ∧
      ∀ server, ((Session.run server processId root documents faults).2.asked.map
        (·.get? "id")).Nodup := by
  refine ⟨?_, fun server => (ran_run server processId root documents faults).2.nodup⟩
  unfold extract
  split_ifs with hempty
  · exact .nothing (List.isEmpty_iff.mp hempty)
  · have hdocuments : documents ≠ [] := fun hnil => hempty (List.isEmpty_iff.mpr hnil)
    cases hstart : start with
    | error cause => exact .unstarted hdocuments rfl
    | ok server =>
      have hran : Ran server processId root documents faults
          ((Session.run server processId root documents faults).1, _) :=
        (ran_run server processId root documents faults).1
      simp only
      generalize (Session.run server processId root documents faults).1 = result at hran ⊢
      cases result with
      | ok symbols => exact .ran hdocuments rfl hran
      | error e => exact .ran hdocuments rfl hran

end CodeAtlas.LanguageServer
