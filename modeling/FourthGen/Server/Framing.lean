import FourthGen.Json.Reader
import FourthGen.Json.Writer
import FourthGen.Server.Message

set_option autoImplicit false

/-! # Framing

How messages follow each other on a stream of bytes: a header that tells the length of the message in
bytes, an empty line, and the message in JSON. -/

namespace FourthGen.Framing

/-- The name of the header line that tells the length of a message. -/
def lengthHeader : String := "Content-Length"

/-- The length that a header line tells; none if the line is about something else. -/
def contentLength? (line : String) : Option Nat :=
  let name := line.toList.takeWhile (· != ':')
  let value := ((line.toList.dropWhile (· != ':')).drop 1).filter (!Json.isBlank ·)
  if Text.sameWord (String.ofList name) lengthHeader && !value.isEmpty && value.all Char.isDigit then
    some (Json.ofDigits value)
  else none

/-- Whether a line ends the header of a message. -/
def isHeaderEnd (line : String) : Bool := line.toList.all Json.isBlank

/-- The message that a body holds. -/
def message? (body : String) : Option Message := (Json.read? body).bind Message.ofJson?

/-- A value with the mark of the protocol's version, if it is an object. -/
def withVersion : Json → Json
  | .obj members => .obj (("jsonrpc", .str "2.0") :: members)
  | value => value

/-- A message of the server with its header. -/
def frame (reply : Reply) : String :=
  let body := (withVersion reply.encode).render
  lengthHeader ++ ": " ++ toString (Text.utf8Length body.toList) ++ "\r\n\r\n" ++ body

end FourthGen.Framing
