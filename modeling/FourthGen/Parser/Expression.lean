import FourthGen.Parser.Rule
import FourthGen.Syntax.Tree

set_option autoImplicit false

/-! # Rules for expressions

Expressions are read by operator precedence. How deeply constructs may nest is limited: every rule
here takes the `room` that is left, and a parenthesis, an argument, a right operand and every
further operator of a chain use up one level of it. Without room the rest of the line is skipped and
reading fails. -/

namespace FourthGen

/-- How many levels of blocks, parentheses and operators may nest. -/
def maxNesting : Nat := 256

namespace TokenKind

/-- The binary operator that a token stands for. A single equals sign compares, too. -/
def binaryOp? : TokenKind → Option BinaryOp
  | keyword .OR => some .or
  | keyword .AND => some .and
  | symbol .equal => some .eq
  | symbol .assign => some .eq
  | symbol .notEqual => some .ne
  | symbol .lessThan => some .lt
  | symbol .greaterThan => some .gt
  | symbol .lessEqual => some .le
  | symbol .greaterEqual => some .ge
  | _ => none

end TokenKind

/-- The operator at the cursor, if it binds at least as tightly as `least`. -/
def Cursor.operator? (least : Nat) (s : Cursor) : Option BinaryOp :=
  s.kind.binaryOp?.filter (least ≤ ·.power)

namespace Rule

/-- The operator at the cursor, which stays there, if it binds at least as tightly as `least`. -/
def operator? (least : Nat) : Rule (Option BinaryOp) := ask (Cursor.operator? least)

end Rule

namespace Expr

/-- What stands between the parentheses of a call, the closing one included. -/
def argumentsBy (inner : Attempt (Expr Range)) : Attempt (List (Expr Range)) := do
  let args ← if (← Rule.peek).kind = .symbol .rightParen then pure [] else inner.commaList
  let _ ← Rule.expect (.symbol .rightParen) (.missingCloser .arguments)
  return args

/-- An operand: a literal, a name, a call, or a parenthesised expression, where expressions inside
    parentheses are read by `inner`. -/
def primaryBy (inner : Attempt (Expr Range)) : Attempt (Expr Range) := do
  let token ← Rule.peek
  match token.kind with
  | .stringLiteral =>
    let _ ← Rule.advance
    return .literal token.range (.string token.text)
  | .numberLiteral =>
    let _ ← Rule.advance
    return .literal token.range (.number token.text)
  | .identifier =>
    let _ ← Rule.advance
    if ← Rule.accept [.symbol .leftParen] then
      let args ← argumentsBy inner
      return .call (← Rule.upToHere token) token.text args
    else
      return .identifier token.range token.text
  | .symbol .leftParen =>
    let _ ← Rule.advance
    let e ← inner
    let _ ← Rule.expect (.symbol .rightParen) (.missingCloser .expression)
    return e.withRange (← Rule.upToHere token)
  | _ => Attempt.fail .missingExpression

mutual

/-- An operand, with `room` levels left for what it encloses. -/
def primary : (room : Nat) → Attempt (Expr Range)
  | 0 => primaryBy Attempt.tooDeep
  | room + 1 => primaryBy (Attempt.defer fun _ => do chain room 0 (← primary room))

/-- The operators that follow the operand `left` and bind at least as tightly as `least`, each with
    its right operand. -/
def chain : (room : Nat) → (least : Nat) → (left : Expr Range) → Attempt (Expr Range)
  | 0, least, left => do
    match ← Rule.operator? least with
    | none => return left
    | some _ => Attempt.tooDeep
  | room + 1, least, left => do
    match ← Rule.operator? least with
    | none => return left
    | some op =>
      let _ ← Rule.advance
      let right ← chain room (op.power + 1) (← primary room)
      chain room least (.binary (left.range.cover right.range) op left right)

end

/-- An expression whose operators bind at least as tightly as `least`. -/
def readBinding (room least : Nat) : Attempt (Expr Range) :=
  match room with
  | 0 => Attempt.tooDeep
  | room + 1 => do chain room least (← primary room)

/-- An expression. -/
def read (room : Nat) : Attempt (Expr Range) := readBinding room 0

/-- What stands between the parentheses of a call, the closing one included. -/
def arguments (room : Nat) : Attempt (List (Expr Range)) := argumentsBy (read room)

/-- An expression, or, if none can be read, a placeholder where the error was recorded. -/
def readOrError (room : Nat) : Rule (Expr Range) := do
  match ← (read room).run with
  | .ok e => return e
  | .error e =>
    Rule.record e
    return .error e.range

end Expr

end FourthGen
