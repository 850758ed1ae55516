import FourthGen.Json.Record
import FourthGen.Server.Uri
import FourthGen.Text.Position

set_option autoImplicit false

/-! # Parameters of messages

What the messages that the server understands carry, read from their JSON form. -/

namespace FourthGen.Params

/-- An address. -/
def uri? (value : Json) : Option String := do
  let text ← value.str?
  if Uri.isReference text then some text else none

/-- A position. -/
def position? (value : Json) : Option Position := do
  match ← Json.allFields? ["line", "character"] value with
  | [some line, some character] => return ⟨← line.nat32?, ← character.nat32?⟩
  | _ => none

/-- A range, its ends in the order given. -/
def range? (value : Json) : Option Range := do
  match ← Json.allFields? ["start", "end"] value with
  | [some start, some stop] => return ⟨← position? start, ← position? stop⟩
  | _ => none

/-- The address of a document. -/
def document? (value : Json) : Option String := do
  match ← Json.allFields? ["uri"] value with
  | [some uri] => uri? uri
  | _ => none

/-- A token under which a client asks for progress: a number or a text. -/
def token? (value : Json) : Option Unit :=
  if value.int32?.isSome || value.str?.isSome then some () else none

/-! ## Requests -/

/-- A place in a document. -/
structure Place where
  uri : String
  position : Position
  deriving DecidableEq, Repr

/-- The place that a request is about, which has to be given as an object. -/
def place? (params : Json) : Option Place :=
  match params with
  | .obj _ => do return ⟨← document? (← params.get? "textDocument"),
      ← position? (← params.get? "position")⟩
  | _ => none

/-- The parameters of a hover request. -/
def hover? (params : Json) : Option Place := do
  let _ ← Json.optional? token? (params.get? "workDoneToken")
  place? params

/-- How a completion was triggered. -/
def trigger? (value : Json) : Option Unit := do
  match ← Json.allFields? ["triggerKind", "triggerCharacter"] value with
  | [some kind, character] =>
    let _ ← kind.int32?
    let _ ← Json.optional? Json.str? character
    return ()
  | _ => none

/-- The parameters of a completion request. -/
def completion? (params : Json) : Option Place := do
  let _ ← Json.optional? token? (params.get? "workDoneToken")
  let _ ← Json.optional? token? (params.get? "partialResultToken")
  let _ ← Json.optional? trigger? (params.get? "context")
  place? params

/-! ## Notifications -/

/-- A document as it is opened. -/
structure Opened where
  uri : String
  languageId : String
  version : Int
  text : String
  deriving DecidableEq, Repr

/-- The parameters of the notification that a document was opened. -/
def opened? (params : Json) : Option Opened := do
  match ← Json.allFields? ["textDocument"] params with
  | [some item] =>
    match ← Json.allFields? ["uri", "languageId", "version", "text"] item with
    | [some uri, some languageId, some version, some text] =>
      return ⟨← uri? uri, ← languageId.str?, ← version.int32?, ← text.str?⟩
    | _ => none
  | _ => none

/-- Changes of a document, of each its new text. -/
structure Changed where
  uri : String
  version : Int
  texts : List String
  deriving DecidableEq, Repr

/-- The new text of a change. Every change carries the whole text, whatever range it names. -/
def change? (value : Json) : Option String := do
  match ← Json.allFields? ["range", "rangeLength", "text"] value with
  | [range, length, some text] =>
    let _ ← Json.optional? range? range
    let _ ← Json.optional? Json.nat32? length
    text.str?
  | _ => none

/-- The parameters of the notification that a document was changed. -/
def changed? (params : Json) : Option Changed := do
  match ← Json.allFields? ["textDocument", "contentChanges"] params with
  | [some document, some changes] =>
    match ← Json.allFields? ["uri", "version"] document with
    | [some uri, some version] =>
      return ⟨← uri? uri, ← version.int32?, ← (← changes.arr?).mapM change?⟩
    | _ => none
  | _ => none

/-- The address in the notification that a document was closed. -/
def closed? (params : Json) : Option String := do
  match ← Json.allFields? ["textDocument"] params with
  | [some document] => document? document
  | _ => none

/-- The settings value in the notification that the configuration was changed. -/
def configuration? (params : Json) : Option Json := do
  match ← Json.allFields? ["settings"] params with
  | [some settings] => return settings
  | _ => none

end FourthGen.Params
