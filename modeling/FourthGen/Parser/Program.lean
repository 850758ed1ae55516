import FourthGen.Parser.Statement

set_option autoImplicit false

/-! # Rules for declarations and programs

A program is a list of declarations and of statements that stand outside of them. Every text has a
parse: a tree as complete as could be built, together with the syntax errors. -/

namespace FourthGen

namespace Rule

/-- The parameters of a declaration with their parentheses. -/
def parameters (routine : Routine) : Rule (List (Variable Range)) := do
  match ← expect (.symbol .leftParen) (.missingParameters routine) with
  | none => return []
  | some _ =>
    let params ← if ← ask (·.check (.symbol .rightParen)) then pure [] else declaredList .parameter
    let _ ← expect (.symbol .rightParen) (.missingCloser .parameters)
    return params

/-- The type of the result, which the word `RETURNING` announces. -/
def returning? : Rule (Option String) := do
  if ← ask (·.atWord "RETURNING") then
    let _ ← advance
    return some (← dataType)
  else
    return none

/-- The end of a declaration: its closing word, or `END`, which its opening word may follow. -/
def routineEnd (routine : Routine) : Rule Unit := do
  if ← ask (·.atWord routine.closingWord) then
    let _ ← advance
    return ()
  else if ← ask (·.atWord "END") then
    let _ ← advance
    let _ ← accept [.keyword routine.opener]
    return ()
  else
    complain (.openRoutine routine)

end Rule

namespace Item

/-- `FUNCTION name(parameters) RETURNING type block END`, the result type being optional. -/
def readFunction (room : Nat) : Rule (Item Range) := do
  let start ← Rule.advance
  let name ← Rule.name (.routine .function)
  let params ← Rule.parameters .function
  let returns ← Rule.returning?
  let body ← Stmt.readBlock room
  Rule.routineEnd .function
  return .function (← Rule.upToHere start) name params returns body

/-- `PROCEDURE name(parameters) block END` -/
def readProcedure (room : Nat) : Rule (Item Range) := do
  let start ← Rule.advance
  let name ← Rule.name (.routine .procedure)
  let params ← Rule.parameters .procedure
  let body ← Stmt.readBlock room
  Rule.routineEnd .procedure
  return .procedure (← Rule.upToHere start) name params body

/-- A top-level item. The end of a block has no place here. -/
def read (room : Nat) : Attempt (Item Range) := do
  let token ← Rule.peek
  match token.kind with
  | .keyword .FUNCTION => readFunction room
  | .keyword .PROCEDURE => readProcedure room
  | _ =>
    if ← (Rule.ask Cursor.atBlockEnd : Rule Bool) then
      Attempt.fail (.strayBlockEnd token.text)
    else
      return .statement (← Stmt.read room (Stmt.readBlock room))

/-- The items of a program, up to the end of the text. -/
def readProgram : Rule (List (Item Range)) :=
  Rule.rounds (fun _ => false) (Attempt.recovering (read maxNesting))

end Item

/-- The outcome of parsing: the items that could be built and the errors, in the order found. -/
structure Parse where
  items : List (Item Range)
  errors : List SyntaxError
  deriving Repr, Inhabited

/-- The parse of a program that starts at a cursor. -/
def Cursor.parse (s : Cursor) : Parse :=
  let r := Item.readProgram.run s
  ⟨r.value, r.recorded⟩

/-- The parse of a list of tokens. -/
def parseTokens (tokens : List Token) : Parse := (Cursor.ofTokens tokens).parse

/-- The parse of a text. -/
def parse (text : String) : Parse := parseTokens (tokenize text)

end FourthGen
