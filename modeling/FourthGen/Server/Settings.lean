import FourthGen.Json.Record

set_option autoImplicit false

/-! # Settings

What a client can configure, and how it is read from the values that clients send: as an object by
name, as an array by place, or inside the section of the client's configuration that belongs to this
server. What is left out has its default. -/

namespace FourthGen

/-- The settings of the server. -/
structure Settings where
  /-- How many diagnostics are published for a document at most. -/
  maxProblems : Nat
  /-- Whether diagnostics are published. -/
  diagnosticsEnabled : Bool
  /-- Whether completions are offered. -/
  completionEnabled : Bool
  deriving DecidableEq, Repr, Inhabited

namespace Settings

/-- The section of a client's configuration that belongs to this server. -/
def sectionName : String := "fourglLanguageServer"

/-- The settings of a client that configures nothing. -/
def standard : Settings := ⟨1000, true, true⟩

/-- A value if there is one that can be read, the default if there is none. -/
def readOr? {α : Type} (default : α) (read? : Json → Option α) : Option Json → Option α
  | none => some default
  | some value => read? value

/-- The settings that the section itself holds. A value of the wrong type is an error, and so is an
    array of more than three values. -/
def ofSection? : Json → Option Settings
  | .null => some standard
  | value => do
    match ← value.fields? ["maxNumberOfProblems", "enableDiagnostics", "enableCompletion"] with
    | [maxProblems, diagnostics, completion] =>
      return ⟨← readOr? standard.maxProblems Json.nat64? maxProblems,
        ← readOr? standard.diagnosticsEnabled Json.bool? diagnostics,
        ← readOr? standard.completionEnabled Json.bool? completion⟩
    | _ => none

/-- The settings in a value that a client sent: the section, or an object that has it as a member. -/
def ofJson? (value : Json) : Option Settings := ofSection? ((value.get? sectionName).getD value)

/-- The settings to start with, given what the client sent when it connected, if it sent any.
    What cannot be read counts as nothing. -/
def atStart (options : Option Json) : Settings := (options.bind ofJson?).getD standard

end Settings

end FourthGen
