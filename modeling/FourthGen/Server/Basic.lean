import FourthGen.Server.Message
import FourthGen.Server.Params
import FourthGen.Server.Settings
import FourthGen.Workspace

set_option autoImplicit false

/-! # The server

The server takes messages one by one. A request is answered and changes nothing; a notification may
change the state and publishes diagnostics. A notification whose parameters cannot be read, and one
that is not understood, is passed over. -/

namespace FourthGen

/-- The state of the server: the workspace, the settings, and the addresses of the documents it has
    taken over. -/
structure Server where
  workspace : Workspace
  settings : Settings
  tracked : List String
  deriving DecidableEq, Repr

namespace Server

/-- The state with which the server starts. -/
def start (settings : Settings) : Server := ⟨.empty, settings, []⟩

/-! ## Requests -/

/-- The completions at a place; none if they are switched off. -/
def completionsFor (s : Server) (place : Params.Place) : List Completion :=
  if s.settings.completionEnabled then s.workspace.completionsAt place.uri place.position else []

/-- The answer to a request. -/
def answer (s : Server) (id : RequestId) (method : String) (params : Json) : Reply :=
  match method with
  | "textDocument/completion" =>
    match Params.completion? params with
    | some place => .completions id (s.completionsFor place)
    | none => .invalidParams id
  | "textDocument/hover" =>
    match Params.hover? params with
    | some place => .hover id (s.workspace.hoverAt place.uri place.position)
    | none => .invalidParams id
  | _ => .unknownMethod id method

/-! ## Diagnostics -/

/-- The diagnostics to show for a document under the present settings. -/
def visibleDiagnostics (s : Server) (uri : String) : List Diagnostic :=
  if s.settings.diagnosticsEnabled then (s.workspace.diagnostics uri).take s.settings.maxProblems
  else []

/-- Publishes the diagnostics of a document, if it is one that the server has taken over. -/
def publish (s : Server) (uri : String) (version : Option Int) : List Reply :=
  if s.tracked.contains uri then [.publish uri version (s.visibleDiagnostics uri)] else []

/-- Publishes the diagnostics of all open documents. -/
def publishAll (s : Server) : List Reply :=
  s.workspace.openUris.flatMap fun uri =>
    s.publish uri ((s.workspace.documents.atUri? uri).map (·.version))

/-! ## Notifications -/

/-- The state after a document has a new text. -/
def takeText (s : Server) (uri : String) (version : Int) (text : String) : Server :=
  { s with workspace := (s.workspace.change uri version text).2 }

/-- The state after the server has taken over a document. -/
def track (s : Server) (uri : String) : Server :=
  if s.tracked.contains uri then s else { s with tracked := uri :: s.tracked }

/-- A document was opened: the server takes it over if it is a source file of the language, by the
    client's word or by its extension. -/
def opened (s : Server) (d : Params.Opened) : Server × List Reply :=
  if d.languageId = languageId || isSourceUri d.uri then
    let s := (s.takeText d.uri d.version d.text).track d.uri
    (s, s.publish d.uri (some d.version))
  else (s, [])

/-- A document was changed: its text is that of the last change. -/
def changed (s : Server) (c : Params.Changed) : Server × List Reply :=
  match s.tracked.contains c.uri, c.texts.getLast? with
  | true, some text =>
    let s := s.takeText c.uri c.version text
    (s, s.publish c.uri (some c.version))
  | _, _ => (s, [])

/-- A document was closed: it is dropped and its diagnostics are withdrawn. -/
def closed (s : Server) (uri : String) : Server × List Reply :=
  if s.tracked.contains uri then
    ({ s with workspace := (s.workspace.close uri).2, tracked := s.tracked.filter (· != uri) },
      [.publish uri none []])
  else (s, [])

/-- The configuration was changed: settings that cannot be read are passed over; others hold from
    now on, and the diagnostics of all open documents are published again. -/
def configured (s : Server) (value : Json) : Server × List Reply :=
  match Settings.ofJson? value with
  | some settings =>
    let s := { s with settings := settings }
    (s, s.publishAll)
  | none => (s, [])

/-- The state after a notification, and what is sent. -/
def notice (s : Server) (method : String) (params : Json) : Server × List Reply :=
  match method with
  | "textDocument/didOpen" => ((Params.opened? params).map s.opened).getD (s, [])
  | "textDocument/didChange" => ((Params.changed? params).map s.changed).getD (s, [])
  | "textDocument/didClose" => ((Params.closed? params).map s.closed).getD (s, [])
  | "workspace/didChangeConfiguration" =>
    ((Params.configuration? params).map s.configured).getD (s, [])
  | _ => (s, [])

/-- The state after a message, and what is sent. Responses are passed over. -/
def handle (s : Server) : Message → Server × List Reply
  | .request id method params => (s, [s.answer id method params])
  | .response _ => (s, [])
  | .notification method params => s.notice method params

end Server

end FourthGen
