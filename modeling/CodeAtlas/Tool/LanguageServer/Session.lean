import CodeAtlas.Tool.LanguageServer.Framing
import CodeAtlas.Tool.LanguageServer.Symbols

/-!
# A session with a language server

The client starts the server, initialises it, and then opens every file, asks for its symbols and
closes it again; at the end it asks the server to shut down.  Requests are numbered from one, and an
answer counts only if it carries the number of the request that waits for it.  Everything else that
arrives is passed over: notifications and requests of the server, and answers to earlier requests.

A server is given as what it does on each request it gets: the bytes that it writes, and whether it
dies then.  A request fails when the stream has ended, when the server answers with an error, or
when it stays silent until the time is up; only the first and a message that cannot be written end
the session.  A message cannot be written to a server that has died, and it may go wrong at any time
besides.
-/

namespace CodeAtlas.LanguageServer

/-- What a server does on a request. -/
structure ServerReply where
  bytes : List UInt8 := []
  dies : Bool := false
  deriving Inhabited

/-- A server: what it does on its request of each number, given that request. -/
abbrev Server := Nat → Json → ServerReply

/-- Why a request failed. -/
inductive RequestError where
  | io (cause : OsError)
  | timeout (method : String)
  | closed
  | refused (method error : String)
  deriving DecidableEq, Repr

/-- The sentence for a failed request. -/
def RequestError.message : RequestError → String
  | .io cause => "io: " ++ cause.message
  | .timeout method => "no response to " ++ method ++ " before the timeout"
  | .closed => "server closed the connection"
  | .refused method error => method ++ " failed: " ++ error

/-- Whether a failure ends the session. -/
def RequestError.isFatal : RequestError → Bool
  | .io _ => true
  | .closed => true
  | .timeout _ => false
  | .refused .. => false

/-- The state of a session. -/
structure Session where
  /-- The number of the last request. -/
  lastId : Nat := 0
  /-- The messages sent so far, the latest first. -/
  sent : List Json := []
  /-- The messages that have arrived and are not yet looked at. -/
  inbox : List Json := []
  /-- The bytes of an incomplete message. -/
  unread : List UInt8 := []
  /-- Whether the stream from the server can still be read. -/
  readable : Bool := true
  /-- Whether the server lives. -/
  alive : Bool := true
  /-- What goes wrong when the message that is sent after so many others is written. -/
  faults : Nat → Option OsError := fun _ => none
  deriving Inhabited

/-- A message with a method; requests carry a number. -/
def envelope (id : Option Nat) (method : String) (params : Option Json) : Json :=
  .obj ([("jsonrpc", .str "2.0"), ("method", .str method)] ++
    (match id with
      | some id => [("id", .nat id)]
      | none => []) ++
    (match params with
      | some params => [("params", params)]
      | none => []))

/-- Sends a message. -/
def Session.send (s : Session) (message : Json) : Except RequestError Session :=
  match s.faults s.sent.length with
  | some cause => .error (.io cause)
  | none => if s.alive then .ok { s with sent := message :: s.sent } else .error (.io .brokenPipe)

/-- Takes in what a server does. -/
def Session.take (s : Session) (reply : ServerReply) : Session :=
  if s.readable then
    let received := receive (s.unread ++ reply.bytes)
    { s with
      inbox := s.inbox ++ received.messages
      unread := received.left
      readable := !received.ended && !reply.dies
      alive := !reply.dies }
  else { s with alive := !reply.dies }

/-- Whether a message is the answer to a request. -/
def answers (id : Nat) (message : Json) : Bool :=
  (message.get? "method").isNone && (message.get? "id").bind Json.count? == some id

/-- Looks for the answer to a request among messages; the messages behind it are left. -/
def findAnswer? (id : Nat) : List Json → Option (Json × List Json)
  | [] => none
  | m :: ms => if answers id m then some (m, ms) else findAnswer? id ms

/-- What an answer says. -/
def resultOf (method : String) (answer : Json) : Except RequestError Json :=
  match answer.get? "error" with
  | some e => .error (.refused method e.canonical.render)
  | none => .ok ((answer.get? "result").getD .null)

/-- Sends a request and waits for its answer. -/
def Session.request (server : Server) (s : Session) (method : String) (params : Option Json) :
    Except RequestError Json × Session :=
  let id := s.lastId + 1
  let message := envelope (some id) method params
  let s := { s with lastId := id }
  match s.send message with
  | .error e => (.error e, s)
  | .ok s =>
    let s := s.take (server s.lastId message)
    match findAnswer? id s.inbox with
    | some (answer, rest) => (resultOf method answer, { s with inbox := rest })
    | none =>
      let s := { s with inbox := [] }
      (.error (if s.readable then .timeout method else .closed), s)

/-- The characters that stand for themselves in an address. -/
def isAddressByte (b : UInt8) : Bool :=
  let c := Char.ofNat b.toNat
  c.isAlphanum || c == '-' || c == '.' || c == '_' || c == '~' || c == '/' || c == ':'

/-- The address of a file. -/
def fileAddress (path : String) : String :=
  let text := path.toList.map fun c => if c = '\\' then '/' else c
  let escaped := (String.ofList text).toUTF8.toList.flatMap fun b =>
    if isAddressByte b then [Char.ofNat b.toNat]
    else '%' :: (Text.hexByte b).map Char.toUpper
  "file://" ++ (if text.head? = some '/' then "" else "/") ++ String.ofList escaped

/-- The parameters of the first request. -/
def initializeParams (processId : Nat) (root : String) : Json :=
  .obj [("processId", .nat processId), ("rootUri", .str (fileAddress root)),
    ("capabilities", .obj [("textDocument", .obj [("documentSymbol",
      .obj [("hierarchicalDocumentSymbolSupport", .bool true)])])])]

/-- The parameters that name a document. -/
def documentParams (path : String) : Json :=
  .obj [("textDocument", .obj [("uri", .str (fileAddress path))])]

/-- The parameters that open a document. -/
def openParams (path source : String) : Json :=
  .obj [("textDocument", .obj [("uri", .str (fileAddress path)),
    ("languageId", .str ((Language.ofPath? path).getD .c).name), ("version", .nat 1),
    ("text", .str source)])]

/-- Asks for the symbols of a document.  The document is closed again even if that fails, and the
failure to close it then is the one that counts. -/
def Session.documentSymbols (server : Server) (s : Session) (path source : String) :
    Except RequestError Json × Session :=
  match s.send (envelope none "textDocument/didOpen" (some (openParams path source))) with
  | .error e => (.error e, s)
  | .ok s =>
    let (answer, s) := s.request server "textDocument/documentSymbol" (some (documentParams path))
    match s.send (envelope none "textDocument/didClose" (some (documentParams path))) with
    | .error e => (.error e, s)
    | .ok s => (answer, s)

/-- A file of a session: its path and, where it can be read as text, its source. -/
structure Document where
  path : String
  source : Option String
  deriving Inhabited

/-- Asks for the symbols of documents below a root.  A document that cannot be read is left out, and
so is one for which the server gives no answer or an error. -/
def Session.symbolsOfAll (server : Server) (root : String) :
    Session → List Document → Except RequestError (List Symbol) × Session
  | s, [] => (.ok [], s)
  | s, d :: ds =>
    match d.source with
    | none => s.symbolsOfAll server root ds
    | some source =>
      let (answer, s) := s.documentSymbols server d.path source
      match answer with
      | .ok answer =>
        let (more, s) := s.symbolsOfAll server root ds
        (more.map (symbolsOf answer (Path.relative root d.path) source ++ ·), s)
      | .error e => if e.isFatal then (.error e, s) else s.symbolsOfAll server root ds

/-- A whole session: the symbols of documents below a root. -/
def Session.run (server : Server) (processId : Nat) (root : String) (documents : List Document)
    (faults : Nat → Option OsError := fun _ => none) :
    Except RequestError (List Symbol) × Session :=
  let start : Session := { faults }
  let (answer, s) := start.request server "initialize" (some (initializeParams processId root))
  match answer with
  | .error e => (.error e, s)
  | .ok _ =>
    match s.send (envelope none "initialized" (some (.obj []))) with
    | .error e => (.error e, s)
    | .ok s =>
      let (symbols, s) := s.symbolsOfAll server root documents
      match symbols with
      | .error e => (.error e, s)
      | .ok symbols =>
        let (_, s) := s.request server "shutdown" none
        match s.send (envelope none "exit" none) with
        | .ok s => (.ok symbols, s)
        | .error _ => (.ok symbols, s)

/-- The arguments with which a server is started. -/
def arguments : List String := ["--log=error"]

/-- What a server that could be started reports; without documents it is not started. -/
def extract (start : Except OsError Server) (processId : Nat) (root : String)
    (documents : List Document) (faults : Nat → Option OsError := fun _ => none) :
    Except IndexError (List Symbol) :=
  let unavailable (e : RequestError) : IndexError := .toolUnavailable Origin.clangd.name e.message
  if documents.isEmpty then .ok []
  else
    match start with
    | .error e => .error (unavailable (.io e))
    | .ok server =>
      match (Session.run server processId root documents faults).1 with
      | .ok symbols => .ok symbols
      | .error e => .error (unavailable e)

end CodeAtlas.LanguageServer
