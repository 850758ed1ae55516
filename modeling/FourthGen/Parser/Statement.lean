import FourthGen.Parser.Expression

set_option autoImplicit false

/-! # Rules for statements and blocks

Only a `CALL` and a statement that is a bare expression can fail. Every other statement, once its
first word is recognised, is completed as far as possible, with what is missing recorded. -/

namespace FourthGen

namespace Rule

/-- A name; a missing one is complained about and reads as the empty text. -/
def name (role : NameRole) : Rule String := do
  let token ← expect .identifier (.missingName role)
  return (token.map (·.text)).getD ""

/-- The sizes of a data type between its parentheses, the opening one included. -/
def typeSizes : Rule (List String) := do
  let _ ← advance
  let sizes ← commaList Option.isSome (expect .numberLiteral .missingTypeSize)
  let _ ← expect (.symbol .rightParen) (.missingCloser .typeSize)
  return sizes.filterMap fun size => size.map (·.text)

/-- A data type: a type word or any identifier, with sizes if a parenthesis and a number follow.
    Without one, complains, reads nothing and yields `UNKNOWN`. -/
def dataType : Rule String := do
  let token ← peek
  if token.kind.isDataType || token.kind == .identifier then
    let _ ← advance
    if ← ask fun s => s.check (.symbol .leftParen) && (s.peekNth 1).kind == .numberLiteral then
      let sizes ← typeSizes
      return token.text ++ "(" ++ ",".intercalate sizes ++ ")"
    else
      return token.text
  else
    complain .missingType
    return "UNKNOWN"

/-- A declared name with its type; nothing if the name is missing. -/
def declared? (role : NameRole) : Rule (Option (Variable Range)) := do
  match ← expect .identifier (.missingName role) with
  | none => return none
  | some token =>
    let type ← dataType
    return some ⟨← upToHere token, token.text, type⟩

/-- Declared names with their types, divided by commas; missing ones are left out. -/
def declaredList (role : NameRole) : Rule (List (Variable Range)) := do
  let found ← commaList (fun _ => true) (declared? role)
  return found.filterMap id

/-- The end of a compound statement, by one word or by `END` and its opening word. -/
def compoundEnd (compound : Compound) : Rule Unit := do
  if ← accept [.keyword compound.closer] then
    return ()
  else if ← ask fun s => s.atWord "END" && (s.peekNth 1).kind == .keyword compound.opener then
    let _ ← advance
    let _ ← advance
    return ()
  else
    complain (.openCompound compound)

end Rule

namespace Stmt

/-- `DEFINE a INTEGER, b CHAR(20)` -/
def readDefine : Rule (Stmt Range) := do
  let start ← Rule.advance
  let vars ← Rule.declaredList .target
  return .define (← Rule.upToHere start) vars

/-- `LET a = expression` -/
def readAssign (room : Nat) : Rule (Stmt Range) := do
  let start ← Rule.advance
  let target ← Rule.name .target
  let _ ← Rule.expect (.symbol .assign) .missingAssign
  let value ← Expr.readOrError room
  return .assign (← Rule.upToHere start) target value

/-- `IF condition THEN block ELSE block ENDIF`, the second branch being optional. -/
def readConditional (room : Nat) (block : Rule (List (Stmt Range))) : Rule (Stmt Range) := do
  let start ← Rule.advance
  let condition ← Expr.readOrError room
  let _ ← Rule.expect (.keyword .THEN) .missingThen
  let thenBlock ← block
  let elseBlock ← if ← Rule.accept [.keyword .ELSE] then block else pure []
  Rule.compoundEnd .conditional
  return .conditional (← Rule.upToHere start) condition thenBlock elseBlock

/-- `WHILE condition block ENDWHILE` -/
def readWhile (room : Nat) (block : Rule (List (Stmt Range))) : Rule (Stmt Range) := do
  let start ← Rule.advance
  let condition ← Expr.readOrError room
  let body ← block
  Rule.compoundEnd .whileLoop
  return .whileLoop (← Rule.upToHere start) condition body

/-- `FOR header block ENDFOR`, where the header is the rest of the line and is not looked at. -/
def readFor (block : Rule (List (Stmt Range))) : Rule (Stmt Range) := do
  let start ← Rule.advance
  Rule.skipLine
  let body ← block
  Rule.compoundEnd .forLoop
  return .forLoop (← Rule.upToHere start) body

/-- `CALL name(arguments)`, the arguments with their parentheses being optional. -/
def readCall (room : Nat) : Attempt (Stmt Range) := do
  let start ← Rule.advance
  let name ← Rule.name (.routine .function)
  let args ← if ← Rule.accept [.symbol .leftParen] then Expr.arguments room else pure []
  return .call (← Rule.upToHere start) name args

/-- `RETURN expression`, the expression being optional. -/
def readReturn (room : Nat) : Rule (Stmt Range) := do
  let start ← Rule.advance
  if ← Rule.ask fun s => s.atEnd || s.kind.isSeparator || s.atBlockEnd then
    return .giveBack (← Rule.upToHere start) none
  else
    let value ← Expr.readOrError room
    return .giveBack (← Rule.upToHere start) (some value)

/-- A database statement of the given kind, which takes the rest of the line. -/
def readSql (kind : SqlKind) : Rule (Stmt Range) := do
  let start ← Rule.advance
  Rule.skipLine
  return .sql (← Rule.upToHere start) kind

/-- A statement that is an expression. -/
def readExpression (room : Nat) : Attempt (Stmt Range) := do
  let e ← Expr.read room
  return .expression e.range e

/-- A statement, with `room` levels left for its expressions and its blocks read by `block`. -/
def read (room : Nat) (block : Rule (List (Stmt Range))) : Attempt (Stmt Range) := do
  match (← Rule.peek).kind with
  | .keyword .DEFINE => readDefine
  | .keyword .LET => readAssign room
  | .keyword .IF => readConditional room block
  | .keyword .WHILE => readWhile room block
  | .keyword .FOR => readFor block
  | .keyword .CALL => readCall room
  | .keyword .RETURN => readReturn room
  | .keyword .SELECT => readSql .select
  | .keyword .INSERT => readSql .insert
  | .keyword .UPDATE => readSql .update
  | .keyword .DELETE => readSql .delete
  | _ => readExpression room

/-- Where a block stops: at the end of a block or before a declaration. -/
def stopsBlock (s : Cursor) : Bool := s.atBlockEnd || s.atRoutine

/-- A block of statements, with `room` levels left for it. Without room it is skipped. -/
def readBlock : (room : Nat) → Rule (List (Stmt Range))
  | 0 => do
    Rule.complain .nestingTooDeep
    Rule.skipBlock
    return []
  | room + 1 =>
    Rule.rounds stopsBlock (Attempt.recovering (read room (Rule.defer fun _ => readBlock room)))

end Stmt

end FourthGen
