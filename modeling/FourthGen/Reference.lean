import FourthGen.Token.Kind

set_option autoImplicit false

/-! # Reference tables

What the language's own words mean: the functions that come with it, short descriptions of reserved
words, and words that are of use only in certain statements. -/

namespace FourthGen

/-! ## Functions that come with the language -/

/-- A function that comes with the language. -/
structure Builtin where
  name : String
  returnType : String
  usage : String
  description : String
  deriving DecidableEq, Repr, Inhabited

namespace Builtin

/-- All functions that come with the language, in the order in which they are offered. -/
def all : List Builtin :=
  [⟨"TODAY", "DATE", "TODAY()", "Returns the current system date"⟩,
   ⟨"NOW", "DATETIME", "NOW()", "Returns the current system date and time"⟩,
   ⟨"LENGTH", "INTEGER", "LENGTH(string)", "Returns the length of a string"⟩,
   ⟨"SUBSTR", "VARCHAR", "SUBSTR(string, start, length)", "Returns a substring from a string"⟩,
   ⟨"UPPER", "VARCHAR", "UPPER(string)", "Converts string to uppercase"⟩,
   ⟨"LOWER", "VARCHAR", "LOWER(string)", "Converts string to lowercase"⟩,
   ⟨"TRIM", "VARCHAR", "TRIM(string)", "Removes leading and trailing spaces"⟩,
   ⟨"ABS", "DECIMAL", "ABS(number)", "Returns the absolute value of a number"⟩,
   ⟨"ROUND", "DECIMAL", "ROUND(number, places)", "Rounds a number to specified decimal places"⟩,
   ⟨"FLOOR", "INTEGER", "FLOOR(number)",
     "Returns the largest integer less than or equal to the number"⟩,
   ⟨"CEIL", "INTEGER", "CEIL(number)",
     "Returns the smallest integer greater than or equal to the number"⟩,
   ⟨"ISNULL", "INTEGER", "ISNULL(value)", "Returns 1 if the value is null, 0 otherwise"⟩,
   ⟨"NVL", "VARCHAR", "NVL(value, alternative)",
     "Returns alternative value if the first value is null"⟩]

/-- The function of a name, in any mixture of cases. -/
def ofName? (name : String) : Option Builtin := all.find? fun f => Text.sameWord f.name name

end Builtin

/-! ## Reserved words -/

/-- Descriptions of reserved words. -/
def keywordDocs : List (Keyword × String) :=
  [(.FUNCTION, "Defines a user-defined function that returns a value"),
   (.PROCEDURE, "Defines a user-defined procedure that performs actions"),
   (.DEFINE, "Declares variables with their data types"),
   (.LET, "Assigns a value to a variable"),
   (.IF, "Conditional statement for branching logic"),
   (.THEN, "Used with IF statements to specify the condition block"),
   (.ELSE, "Specifies alternative block for IF statements"),
   (.ENDIF, "Closes an IF statement block"),
   (.WHILE, "Creates a loop that continues while condition is true"),
   (.ENDWHILE, "Closes a WHILE loop block"),
   (.FOR, "Creates a counting loop or iteration"),
   (.ENDFOR, "Closes a FOR loop block"),
   (.RETURN, "Returns a value from a function or exits a procedure"),
   (.CALL, "Invokes a function or procedure"),
   (.SELECT, "SQL statement to query data from tables"),
   (.INSERT, "SQL statement to add new rows to a table"),
   (.UPDATE, "SQL statement to modify existing rows in a table"),
   (.DELETE, "SQL statement to remove rows from a table"),
   (.WHERE, "SQL clause to specify conditions for filtering"),
   (.FROM, "SQL clause to specify source tables"),
   (.INTO, "SQL clause to specify target for INSERT or SELECT"),
   (.VALUES, "SQL clause to specify values for INSERT"),
   (.INTEGER, "Whole number data type (-2,147,483,648 to 2,147,483,647)"),
   (.DECIMAL, "Fixed-point decimal number data type"),
   (.CHAR, "Fixed-length character string data type"),
   (.VARCHAR, "Variable-length character string data type"),
   (.DATE, "Date data type (YYYY-MM-DD format)"),
   (.DATETIME, "Date and time data type"),
   (.AND, "Logical AND operator"),
   (.OR, "Logical OR operator"),
   (.NOT, "Logical NOT operator")]

/-- The description of a reserved word, spelled in any mixture of cases. -/
def keywordDoc? (word : String) : Option String :=
  (keywordDocs.find? fun entry => Text.sameWord entry.1.spelling word).map (·.2)

/-! ## Words of certain statements -/

/-- Words whose presence shows that a line is about the database. -/
def sqlTriggers : List String := ["SELECT", "INSERT", "UPDATE", "DELETE", "FROM", "WHERE"]

/-- Words that are of use on a line about the database. -/
def sqlContextWords : List String := ["JOIN", "INNER", "LEFT", "RIGHT", "OUTER"]

/-- Words whose presence shows that a line is about a form. -/
def formTriggers : List String := ["FORM", "INPUT", "DISPLAY", "CONSTRUCT"]

/-- Words that are of use on a line about a form. -/
def formContextWords : List String :=
  ["INPUT", "DISPLAY", "CONSTRUCT", "MENU", "PROMPT", "MESSAGE"]

end FourthGen
