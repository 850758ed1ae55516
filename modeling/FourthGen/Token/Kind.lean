import FourthGen.Text.Basic

set_option autoImplicit false

/-! # Kinds of token

The reserved words and the symbols of the language, and the kinds into which the lexer sorts its
tokens. Reserved words are spelled here in their canonical upper case. -/

namespace FourthGen

/-! ## Reserved words -/

/-- The reserved words: declarations, database statements, control flow, data types, logic. -/
inductive Keyword where
  | FUNCTION | PROCEDURE | FORM | REPORT | DATABASE | TABLE | DEFINE | LET
  | SELECT | INSERT | UPDATE | DELETE | WHERE | FROM | INTO | VALUES
  | IF | THEN | ELSE | ENDIF | WHILE | ENDWHILE | FOR | ENDFOR | RETURN | CALL
  | INTEGER | DECIMAL | CHAR | VARCHAR | DATE | DATETIME
  | AND | OR | NOT
  deriving DecidableEq, Repr, Inhabited

namespace Keyword

/-- All reserved words, in the order in which they are offered to the user. -/
def all : List Keyword :=
  [FUNCTION, PROCEDURE, FORM, REPORT, DATABASE, TABLE, DEFINE, LET,
   SELECT, INSERT, UPDATE, DELETE, WHERE, FROM, INTO, VALUES,
   IF, THEN, ELSE, ENDIF, WHILE, ENDWHILE, FOR, ENDFOR, RETURN, CALL,
   INTEGER, DECIMAL, CHAR, VARCHAR, DATE, DATETIME,
   AND, OR, NOT]

/-- The canonical spelling of a reserved word. -/
def spelling : Keyword → String
  | FUNCTION => "FUNCTION"
  | PROCEDURE => "PROCEDURE"
  | FORM => "FORM"
  | REPORT => "REPORT"
  | DATABASE => "DATABASE"
  | TABLE => "TABLE"
  | DEFINE => "DEFINE"
  | LET => "LET"
  | SELECT => "SELECT"
  | INSERT => "INSERT"
  | UPDATE => "UPDATE"
  | DELETE => "DELETE"
  | WHERE => "WHERE"
  | FROM => "FROM"
  | INTO => "INTO"
  | VALUES => "VALUES"
  | IF => "IF"
  | THEN => "THEN"
  | ELSE => "ELSE"
  | ENDIF => "ENDIF"
  | WHILE => "WHILE"
  | ENDWHILE => "ENDWHILE"
  | FOR => "FOR"
  | ENDFOR => "ENDFOR"
  | RETURN => "RETURN"
  | CALL => "CALL"
  | INTEGER => "INTEGER"
  | DECIMAL => "DECIMAL"
  | CHAR => "CHAR"
  | VARCHAR => "VARCHAR"
  | DATE => "DATE"
  | DATETIME => "DATETIME"
  | AND => "AND"
  | OR => "OR"
  | NOT => "NOT"

theorem mem_all (k : Keyword) : k ∈ all := by
  cases k <;> decide

/-- The reserved word that a text spells, in any mixture of cases. -/
def ofText? (text : String) : Option Keyword := all.find? fun k => Text.upper text == k.spelling

/-- The words that name a data type by themselves. -/
def isDataType : Keyword → Bool
  | INTEGER | DECIMAL | CHAR | VARCHAR | DATE | DATETIME => true
  | _ => false

/-- The words that open a database statement. -/
def isSqlStart : Keyword → Bool
  | SELECT | INSERT | UPDATE | DELETE => true
  | _ => false

end Keyword

/-! ## Symbols -/

/-- Operators and punctuation. -/
inductive Punctuation where
  | equal | notEqual | lessEqual | greaterEqual | assign | lessThan | greaterThan
  | semicolon | comma | dot | leftParen | rightParen | leftBrace | rightBrace
  deriving DecidableEq, Repr, Inhabited

namespace Punctuation

/-- The spelling of a symbol. -/
def spelling : Punctuation → String
  | equal => "=="
  | notEqual => "!="
  | lessEqual => "<="
  | greaterEqual => ">="
  | assign => "="
  | lessThan => "<"
  | greaterThan => ">"
  | semicolon => ";"
  | comma => ","
  | dot => "."
  | leftParen => "("
  | rightParen => ")"
  | leftBrace => "\x7b"
  | rightBrace => "\x7d"

/-- The symbol that two characters spell together. -/
def ofPair? : Char → Char → Option Punctuation
  | '=', '=' => some equal
  | '!', '=' => some notEqual
  | '<', '=' => some lessEqual
  | '>', '=' => some greaterEqual
  | _, _ => none

/-- The symbol that one character spells alone. An exclamation mark alone is none. -/
def ofChar? : Char → Option Punctuation
  | '=' => some assign
  | '<' => some lessThan
  | '>' => some greaterThan
  | ';' => some semicolon
  | ',' => some comma
  | '.' => some dot
  | '(' => some leftParen
  | ')' => some rightParen
  | '\x7b' => some leftBrace
  | '\x7d' => some rightBrace
  | _ => none

end Punctuation

/-! ## Token kinds -/

/-- What a token is. A line feed is a token of its own, because it separates statements. -/
inductive TokenKind where
  | eof
  | unknown
  | identifier
  | stringLiteral
  | numberLiteral
  | newline
  | keyword (word : Keyword)
  | symbol (mark : Punctuation)
  deriving DecidableEq, Repr, Inhabited

namespace TokenKind

/-- How a kind is called in messages. -/
def describe : TokenKind → String
  | eof => "end of file"
  | unknown => "unknown"
  | identifier => "Identifier"
  | stringLiteral => "StringLiteral"
  | numberLiteral => "NumberLiteral"
  | newline => "Newline"
  | keyword word => word.spelling
  | symbol mark => mark.spelling

/-- The kind of a reserved word, if the text spells one. -/
def ofWord? (text : String) : Option TokenKind := (Keyword.ofText? text).map keyword

/-- Whether the kind is a reserved word. -/
def isKeyword : TokenKind → Bool
  | keyword _ => true
  | _ => false

/-- Whether the kind is a reserved word that names a data type. -/
def isDataType : TokenKind → Bool
  | keyword word => word.isDataType
  | _ => false

/-- Whether the kind is a reserved word that opens a database statement. -/
def isSqlStart : TokenKind → Bool
  | keyword word => word.isSqlStart
  | _ => false

/-- The kinds that separate statements: line feed and semicolon. -/
def isSeparator : TokenKind → Bool
  | newline | symbol .semicolon => true
  | _ => false

end TokenKind

end FourthGen
