import FourthGen.Token.Basic

set_option autoImplicit false

/-! # Syntax errors

A syntax error is a complaint about a token: what was missed or not allowed, the kind of token that
was found instead, and where it stands. The wording of all messages is in `Complaint.message`. -/

namespace FourthGen

/-- The two kinds of declaration that contain a block of statements. -/
inductive Routine where
  | function | procedure
  deriving DecidableEq, Repr, Inhabited

namespace Routine

/-- The reserved word that opens the declaration. -/
def opener : Routine → Keyword
  | function => .FUNCTION
  | procedure => .PROCEDURE

/-- How the kind of declaration is called in messages. -/
def noun : Routine → String
  | function => "function"
  | procedure => "procedure"

/-- The single word that closes the declaration. It is not reserved. -/
def closingWord : Routine → String
  | function => "ENDFUNCTION"
  | procedure => "ENDPROCEDURE"

end Routine

/-- The statements that contain blocks of statements. -/
inductive Compound where
  | conditional | whileLoop | forLoop
  deriving DecidableEq, Repr, Inhabited

namespace Compound

/-- The reserved word that opens the statement. -/
def opener : Compound → Keyword
  | conditional => .IF
  | whileLoop => .WHILE
  | forLoop => .FOR

/-- The reserved word that closes the statement. -/
def closer : Compound → Keyword
  | conditional => .ENDIF
  | whileLoop => .ENDWHILE
  | forLoop => .ENDFOR

end Compound

/-- What a missing name would have named: a declaration, a variable that is defined or assigned
    to, or a parameter. -/
inductive NameRole where
  | routine (routine : Routine)
  | target
  | parameter
  deriving DecidableEq, Repr, Inhabited

/-- How a role is called in messages. -/
def NameRole.noun : NameRole → String
  | routine r => r.noun
  | target => "variable"
  | parameter => "parameter"

/-- What a pair of parentheses encloses. -/
inductive Enclosed where
  | arguments | expression | parameters | typeSize
  deriving DecidableEq, Repr, Inhabited

/-- How the enclosed part is called in messages. -/
def Enclosed.noun : Enclosed → String
  | arguments => "arguments"
  | expression => "expression"
  | parameters => "parameters"
  | typeSize => "type size"

/-- The causes of syntax errors. `note` carries a message worded by the caller. -/
inductive Complaint where
  | nestingTooDeep
  | missingExpression
  | missingName (role : NameRole)
  | missingParameters (routine : Routine)
  | missingCloser (enclosed : Enclosed)
  | missingAssign
  | missingThen
  | missingType
  | missingTypeSize
  | openCompound (compound : Compound)
  | openRoutine (routine : Routine)
  | strayBlockEnd (word : String)
  | note (message : String)
  deriving DecidableEq, Repr, Inhabited

/-- The wording of a complaint. -/
def Complaint.message : Complaint → String
  | nestingTooDeep => "Nesting too deep"
  | missingExpression => "Expected expression"
  | missingName role => "Expected " ++ role.noun ++ " name"
  | missingParameters routine => "Expected '(' after " ++ routine.noun ++ " name"
  | missingCloser enclosed => "Expected ')' after " ++ enclosed.noun
  | missingAssign => "Expected '=' after variable"
  | missingThen => "Expected 'THEN' after condition"
  | missingType => "Expected data type"
  | missingTypeSize => "Expected type size"
  | openCompound compound => "Expected '" ++ compound.closer.spelling ++ "'"
  | openRoutine routine => "Expected 'END' or '" ++ routine.closingWord ++ "'"
  | strayBlockEnd word => "Unexpected '" ++ word ++ "' outside of a block"
  | note message => message

/-- A complaint about a token of the source. -/
structure SyntaxError where
  complaint : Complaint
  found : TokenKind
  range : Range
  deriving DecidableEq, Repr, Inhabited

namespace SyntaxError

/-- The error that complains about `token`. -/
def about (token : Token) (complaint : Complaint) : SyntaxError :=
  ⟨complaint, token.kind, token.errorRange⟩

/-- The wording of the error. -/
def message (e : SyntaxError) : String := e.complaint.message

/-- The error as one line for people, who count lines and columns from one. -/
def display (e : SyntaxError) : String :=
  e.message ++ " at " ++ toString (e.range.start.line + 1) ++ ":"
    ++ toString (e.range.start.character + 1)

end SyntaxError

end FourthGen
