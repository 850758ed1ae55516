import FourthGen.Completion
import FourthGen.Diagnostic.Basic
import FourthGen.Json.Record

set_option autoImplicit false

/-! # Messages

The messages that a client sends and those that the server sends, and their JSON form. -/

namespace FourthGen

/-- The name of a request, which its answer repeats. -/
inductive RequestId where
  | number (value : Int)
  | text (value : String)
  deriving DecidableEq, Repr, Inhabited

namespace RequestId

/-- A request's name in JSON. -/
def encode : RequestId → Json
  | number value => .int value
  | text value => .str value

/-- A request's name read from JSON: an integer of 32 bits or a text. -/
def ofJson? : Json → Option RequestId
  | .str value => some (text value)
  | value => value.int32?.map number

end RequestId

/-! ## From the client -/

/-- A message of a client. -/
inductive Message where
  | request (id : RequestId) (method : String) (params : Json)
  | response (id : RequestId)
  | notification (method : String) (params : Json)
  deriving Repr

namespace Message

/-- A request: its name, its method and its parameters, which are null if they are left out. -/
def request? (value : Json) : Option Message := do
  match ← value.fields? ["id", "method", "params"] with
  | [some id, some method, params] =>
    return request (← RequestId.ofJson? id) (← method.str?) (params.getD .null)
  | _ => none

/-- The error in a response: a code, a text and possibly data. -/
def error? (value : Json) : Option Unit := do
  match ← value.fields? ["code", "message", "data"] with
  | [some code, some text, _] =>
    let _ ← code.int32?
    let _ ← text.str?
    return ()
  | _ => none

/-- A response: the name of the request that it answers, and a result, an error or neither. -/
def response? (value : Json) : Option Message := do
  match ← value.fields? ["id", "result", "error"] with
  | [some id, _, error] =>
    let _ ← Json.optional? error? error
    return response (← RequestId.ofJson? id)
  | _ => none

/-- A notification: its method and its parameters, which are null if they are left out. -/
def notification? (value : Json) : Option Message := do
  match ← value.fields? ["method", "params"] with
  | [some method, params] => return notification (← method.str?) (params.getD .null)
  | _ => none

/-- A message read from JSON: a request if the value can be read as one, else a response, else a
    notification. An object is a request if it has a name and a method and a notification if it only
    has a method; an array of a name and no method is always a response. -/
def ofJson? (value : Json) : Option Message :=
  request? value <|> response? value <|> notification? value

end Message

/-! ## To the client -/

/-- A message of the server. -/
inductive Reply where
  | welcome (id : RequestId)
  | notReady (id : RequestId)
  | completions (id : RequestId) (items : List Completion)
  | hover (id : RequestId) (contents : Option String)
  | shutDown (id : RequestId)
  | unknownMethod (id : RequestId) (method : String)
  | invalidParams (id : RequestId)
  | publish (uri : String) (version : Option Int) (diagnostics : List Diagnostic)
  deriving DecidableEq, Repr

namespace Reply

/-- A position in JSON. -/
def encodePosition (p : Position) : Json :=
  .obj [("line", .nat p.line), ("character", .nat p.character)]

/-- A range in JSON. -/
def encodeRange (r : Range) : Json :=
  .obj [("start", encodePosition r.start), ("end", encodePosition r.stop)]

/-- The number of a severity. -/
def severityCode : Severity → Nat
  | .error => 1
  | .warning => 2

/-- A diagnostic in JSON. -/
def encodeDiagnostic (d : Diagnostic) : Json :=
  .obj
    [("range", encodeRange d.range), ("severity", .nat (severityCode d.severity)),
     ("source", .str d.source), ("message", .str d.message)]

/-- The number of a kind of completion. -/
def kindCode : CompletionKind → Nat
  | .procedure => 2
  | .function => 3
  | .var => 6
  | .keyword => 14

/-- A completion in JSON. -/
def encodeCompletion (c : Completion) : Json :=
  Json.objOfSome
    [("label", some (.str c.label)), ("kind", some (.nat (kindCode c.kind))),
     ("detail", some (.str c.detail)), ("documentation", c.documentation.map .str),
     ("sortText", some (.str c.sortKey)), ("insertText", some (.str c.insertText)),
     ("insertTextFormat", some (.nat (if c.isSnippet then 2 else 1)))]

/-- The text of a hover in JSON. -/
def encodeHover (contents : String) : Json :=
  .obj [("contents", .obj [("kind", .str "markdown"), ("value", .str contents)])]

/-- What the server can do: it takes whole texts of documents, offers completions and hovers. -/
def capabilities : Json :=
  .obj
    [("textDocumentSync", .nat 1),
     ("completionProvider", .obj [("triggerCharacters", .arr [.str ".", .str " ", .str "("])]),
     ("hoverProvider", .bool true)]

/-- The answer to a request. -/
def result (id : RequestId) (value : Json) : Json := .obj [("id", id.encode), ("result", value)]

/-- The answer to a request that failed. -/
def failure (id : RequestId) (code : Int) (message : String) : Json :=
  .obj [("id", id.encode), ("error", .obj [("code", .int code), ("message", .str message)])]

/-- A message of the server in JSON. -/
def encode : Reply → Json
  | welcome id => result id (.obj [("capabilities", capabilities)])
  | notReady id => failure id (-32002) "expected initialize request"
  | completions id items => result id (.arr (items.map encodeCompletion))
  | hover id contents => result id (Json.orNull (contents.map encodeHover))
  | shutDown id => result id .null
  | unknownMethod id method => failure id (-32601) ("method not supported: " ++ method)
  | invalidParams id => failure id (-32602) "invalid parameters"
  | publish uri version diagnostics =>
    .obj
      [("method", .str "textDocument/publishDiagnostics"),
       ("params", Json.objOfSome
         [("uri", some (.str uri)), ("diagnostics", some (.arr (diagnostics.map encodeDiagnostic))),
          ("version", version.map .int)])]

end Reply

end FourthGen
