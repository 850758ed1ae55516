import FourthGen.Server.Framing
import FourthGen.Server.Session

set_option autoImplicit false

/-! # The language server as a program

Reads messages from standard input and writes the replies to standard output, until the session is
over or the input ends. -/

namespace FourthGen

/-- Reads a header and yields the length of the message that follows; none if the input ends or the
    header tells no length. -/
partial def readHeader (input : IO.FS.Stream) (length : Option Nat) : IO (Option Nat) := do
  let line ← input.getLine
  if line.isEmpty then
    return none
  else if Framing.isHeaderEnd line then
    return length
  else
    readHeader input ((Framing.contentLength? line).or length)

/-- Reads as many bytes as told, behind those already read; none if the input ends before. -/
partial def readBytes (input : IO.FS.Stream) (length : Nat) (done : ByteArray) :
    IO (Option ByteArray) := do
  if length ≤ done.size then
    return some done
  else
    let bytes ← input.read (USize.ofNat (length - done.size))
    if bytes.isEmpty then
      return none
    else
      readBytes input length (done ++ bytes)

/-- Reads the next message; none if the input ends or holds no message. -/
def readMessage (input : IO.FS.Stream) : IO (Option Message) := do
  match ← readHeader input none with
  | none => return none
  | some length =>
    match ← readBytes input length ByteArray.empty with
    | none => return none
    | some bytes => return (String.fromUTF8? bytes).bind Framing.message?

/-- Handles messages until the session is over or there are no more, and tells how it ended. -/
partial def converse (input output : IO.FS.Stream) (session : Session) : IO Ending := do
  if session.isOver then
    return session.ending
  else
    match ← readMessage input with
    | none => return session.ending
    | some message =>
      let (session, sent) := session.step message
      for reply in sent do
        output.putStr (Framing.frame reply)
      output.flush
      converse input output session

end FourthGen

/-- Runs the server; fails if the client did not keep to the protocol. -/
def main : IO UInt32 := do
  match ← FourthGen.converse (← IO.getStdin) (← IO.getStdout) .waiting with
  | .ok => return 0
  | .protocolError => return 1
