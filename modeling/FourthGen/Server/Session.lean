import FourthGen.Server.Basic

set_option autoImplicit false

/-! # Sessions

A session leads from the client's greeting through the exchange of messages to the farewell. The
client asks to be welcomed, confirms, and then the server handles its messages. After a request to
shut down nothing but the notification to exit may follow. -/

namespace FourthGen

/-- How a session ends. -/
inductive Ending where
  | ok | protocolError
  deriving DecidableEq, Repr, Inhabited

/-- Where a session stands. -/
inductive Session where
  /-- The client has not asked to be welcomed yet. -/
  | waiting
  /-- The client was welcomed and has to confirm. -/
  | welcomed (settings : Settings)
  /-- Messages are handled. -/
  | serving (server : Server)
  /-- The client asked to shut down and has to exit. -/
  | leaving
  /-- The session is over. -/
  | ended (ending : Ending)
  deriving DecidableEq, Repr

namespace Session

/-- The settings with which a client wants to start, from the parameters of its greeting. -/
def settingsOf (params : Json) : Settings := Settings.atStart (params.get? "initializationOptions")

/-- The session after a message, and what is sent. -/
def step : Session → Message → Session × List Reply
  | waiting, .request id method params =>
    if method = "initialize" then (welcomed (settingsOf params), [.welcome id])
    else (waiting, [.notReady id])
  | waiting, .notification method _ =>
    if method = "exit" then (ended .protocolError, []) else (waiting, [])
  | waiting, .response _ => (ended .protocolError, [])
  | welcomed settings, .notification method _ =>
    if method = "initialized" then (serving (.start settings), []) else (ended .protocolError, [])
  | welcomed _, _ => (ended .protocolError, [])
  | serving server, message =>
    match message with
    | .request id "shutdown" _ => (leaving, [.shutDown id])
    | message =>
      let (server, sent) := server.handle message
      (serving server, sent)
  | leaving, .notification method _ =>
    if method = "exit" then (ended .ok, []) else (ended .protocolError, [])
  | leaving, _ => (ended .protocolError, [])
  | ended ending, _ => (ended ending, [])

/-- The session after several messages, and all that is sent, in order. -/
def run : Session → List Message → Session × List Reply
  | session, [] => (session, [])
  | session, message :: rest =>
    let (session, sent) := session.step message
    let (session, later) := session.run rest
    (session, sent ++ later)

/-- How a session ends if the client sends nothing more. -/
def ending : Session → Ending
  | waiting | welcomed _ | leaving => .protocolError
  | serving _ => .ok
  | ended ending => ending

/-- Whether the session is over. -/
def isOver : Session → Bool
  | ended _ => true
  | _ => false

end Session

end FourthGen
