import FourthGen.Syntax.Error

set_option autoImplicit false

/-! # Diagnostics

A diagnostic is a problem of a source text and the range it marks. How serious a problem is, which
family of rules found it and how it is worded follow from the problem. -/

namespace FourthGen

/-- How serious a problem is. -/
inductive Severity where
  | error | warning
  deriving DecidableEq, Repr, Inhabited

/-- The families of rules. -/
inductive RuleFamily where
  | parser | semantic | sql | form | dataType | controlFlow
  deriving DecidableEq, Repr, Inhabited

/-- The label under which clients show a family of rules. -/
def RuleFamily.tag : RuleFamily → String
  | parser => "4gl-parser"
  | semantic => "4gl-semantic"
  | sql => "4gl-sql"
  | form => "4gl-form"
  | dataType => "4gl-datatype"
  | controlFlow => "4gl-controlflow"

/-- The problems that can be reported: complaints of the parser, and what the line rules find. -/
inductive Problem where
  | malformed (complaint : Complaint)
  | shortName (name : String)
  | selectWithoutFrom
  | insertWithoutValues
  | updateWithoutSet
  | formWithoutFields
  | inputWithoutFrom
  | invalidDate (text : String)
  | deprecatedType (name : String)
  | ifWithoutThen
  | whileWithoutBody
  deriving DecidableEq, Repr, Inhabited

namespace Problem

/-- How serious a problem is. -/
def severity : Problem → Severity
  | malformed _ | selectWithoutFrom | insertWithoutValues | updateWithoutSet | invalidDate _
  | ifWithoutThen => .error
  | shortName _ | formWithoutFields | inputWithoutFrom | deprecatedType _ | whileWithoutBody =>
    .warning

/-- The family of rules that finds a problem. -/
def family : Problem → RuleFamily
  | malformed _ => .parser
  | shortName _ => .semantic
  | selectWithoutFrom | insertWithoutValues | updateWithoutSet => .sql
  | formWithoutFields | inputWithoutFrom => .form
  | invalidDate _ | deprecatedType _ => .dataType
  | ifWithoutThen | whileWithoutBody => .controlFlow

/-- The wording of a problem. -/
def message : Problem → String
  | malformed complaint => complaint.message
  | shortName name => "Single-character variable '" ++ name ++ "' may be unclear"
  | selectWithoutFrom => "SELECT statement missing FROM clause"
  | insertWithoutValues => "INSERT statement missing VALUES or SELECT clause"
  | updateWithoutSet => "UPDATE statement missing SET clause"
  | formWithoutFields => "FORM statement may be missing field definitions"
  | inputWithoutFrom => "INPUT statement may be missing FROM clause"
  | invalidDate text => "Invalid date format: " ++ text
  | deprecatedType name =>
    "Data type '" ++ name ++ "' is deprecated, consider using modern alternatives"
  | ifWithoutThen => "IF statement missing THEN clause"
  | whileWithoutBody => "WHILE loop may be missing loop body"

end Problem

/-- A problem and the range it marks. -/
structure Diagnostic where
  problem : Problem
  range : Range
  deriving DecidableEq, Repr, Inhabited

namespace Diagnostic

/-- How serious the problem is. -/
def severity (d : Diagnostic) : Severity := d.problem.severity

/-- The label of the family of rules that found the problem. -/
def source (d : Diagnostic) : String := d.problem.family.tag

/-- The wording of the problem. -/
def message (d : Diagnostic) : String := d.problem.message

/-- The diagnostic of a syntax error. -/
def ofSyntaxError (e : SyntaxError) : Diagnostic := ⟨.malformed e.complaint, e.range⟩

end Diagnostic

end FourthGen
