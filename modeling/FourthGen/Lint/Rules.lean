import FourthGen.Diagnostic.Basic
import FourthGen.Lint.Date
import FourthGen.Lint.Pattern

set_option autoImplicit false

/-! # Line rules

Rules that look at one line at a time and know nothing of the syntax tree. Lines that are comments
are passed over. -/

namespace FourthGen

/-- A problem found in a line, with the columns it marks. -/
structure Finding where
  problem : Problem
  start : Nat
  stop : Nat
  deriving DecidableEq, Repr, Inhabited

namespace Finding

/-- The finding that marks a stretch of the line. -/
def mark (problem : Problem) (found : Stretch) : Finding :=
  ⟨problem, found.site.column, found.site.column + Text.utf16Length found.text⟩

/-- The diagnostic of a finding in the line of the given number. -/
def onLine (finding : Finding) (line : Nat) : Diagnostic :=
  ⟨finding.problem, ⟨⟨line, finding.start⟩, ⟨line, finding.stop⟩⟩⟩

end Finding

namespace Lint

/-! ## The patterns of the rules -/

/-- A word at the start of a line, with nothing but white space before it. -/
def opening (word : String) : Pattern :=
  .sequence [.lineStart, .many Unicode.isWhiteSpace, .spelling word, .edge]

/-- One of the words, as a whole word. -/
def wholeWord (words : List String) : Pattern :=
  .sequence [.edge, .anyOf (words.map .spelling), .edge]

/-- A line with nothing on it but `WHILE`. -/
def loneWhile : Pattern :=
  .sequence [.lineStart, .many Unicode.isWhiteSpace, .spelling "WHILE", .many Unicode.isWhiteSpace,
    .lineEnd]

/-- A name with an equals sign behind it. The name is the first group. -/
def assignment : Pattern :=
  .sequence [.edge, .group (.sequence [.one Text.isNameStart, .many Text.isNameRest]),
    .many Unicode.isWhiteSpace, .one (· == '=')]

/-- A date. Year, month and day are the groups. -/
def dateLiteral : Pattern :=
  .sequence [.edge, .group (.times 4 Char.isDigit), .one (· == '-'), .group (.times 2 Char.isDigit),
    .one (· == '-'), .group (.times 2 Char.isDigit), .edge]

/-! ## The rules -/

/-- A finding that marks the whole line, if there is reason for it. -/
def wholeLineIf (reason : Bool) (problem : Problem) (line : List Char) : List Finding :=
  if reason then [.mark problem ⟨.start line, line⟩] else []

theorem eq_of_mem_wholeLineIf {reason : Bool} {problem : Problem} {line : List Char} {f : Finding}
    (h : f ∈ wholeLineIf reason problem line) : f = .mark problem ⟨.start line, line⟩ := by
  obtain ⟨-, hf⟩ := List.mem_ite_nil_right.1 h
  exact List.mem_singleton.1 hf

/-- Whether a line is a comment. -/
def isComment (line : List Char) : Bool :=
  match line.dropWhile Unicode.isWhiteSpace with
  | '#' :: _ => true
  | '-' :: '-' :: _ => true
  | _ => false

/-- Words that may stand left of an equals sign but are no variables. -/
def notVariables : List String := ["LET", "IF", "WHILE", "FOR", "FUNCTION", "PROCEDURE"]

/-- The finding of an assignment to a name of a single character. -/
def shortName? (m : Pattern.Match) : Option Finding :=
  match m.groups with
  | [] => none
  | name :: _ =>
    -- two equals signs compare
    if (m.site.skip m.text).rest.head? = some '=' then none
    else if notVariables.any (Text.sameWord (String.ofList name.text)) then none
    else if name.text.length = 1 then some (.mark (.shortName (String.ofList name.text)) name)
    else none

/-- Assignments to names of a single character. -/
def shortNames (line : List Char) : List Finding := (assignment.findAll line).filterMap shortName?

/-- Database statements that lack a clause. -/
def sqlClauses (line : List Char) : List Finding :=
  wholeLineIf
      ((opening "SELECT").occursIn line && !(wholeWord ["FROM", "INTO"]).occursIn line)
      .selectWithoutFrom line
    ++ wholeLineIf
      ((opening "INSERT").occursIn line && !(wholeWord ["VALUES", "SELECT"]).occursIn line)
      .insertWithoutValues line
    ++ wholeLineIf ((opening "UPDATE").occursIn line && !(wholeWord ["SET"]).occursIn line)
      .updateWithoutSet line

/-- Form statements that lack a part. -/
def formParts (line : List Char) : List Finding :=
  wholeLineIf ((opening "FORM").occursIn line && !line.contains '(') .formWithoutFields line
    ++ wholeLineIf ((opening "INPUT").occursIn line && !(wholeWord ["FROM"]).occursIn line)
      .inputWithoutFrom line

/-- The number that decimal digits denote. -/
def number (digits : List Char) : Nat := Nat.ofDigitChars 10 digits 0

/-- Whether the calendar has the date of which year, month and day are given in digits. -/
def isDate (groups : List Stretch) : Bool :=
  match groups with
  | [year, month, day] => Calendar.isDate (number year.text) (number month.text) (number day.text)
  | _ => false

/-- Dates that the calendar does not have. -/
def invalidDates (line : List Char) : List Finding :=
  (dateLiteral.findAll line).filterMap fun m =>
    if isDate m.groups then none
    else some (.mark (.invalidDate (String.ofList m.text)) m.toStretch)

/-- Data types that are out of use. -/
def deprecatedTypeNames : List String := ["MONEY", "SMALLFLOAT", "BYTE", "TEXT"]

/-- Names of data types that are out of use. -/
def deprecatedTypes (line : List Char) : List Finding :=
  ((wholeWord deprecatedTypeNames).findAll line).map fun m =>
    .mark (.deprecatedType (Text.upper (String.ofList m.text))) m.toStretch

/-- Control statements that lack a part. -/
def controlParts (line : List Char) : List Finding :=
  wholeLineIf ((opening "IF").occursIn line && !(wholeWord ["THEN"]).occursIn line)
      .ifWithoutThen line
    ++ wholeLineIf (loneWhile.occursIn line) .whileWithoutBody line

/-- What all rules find in a line, rule after rule. -/
def findings (line : List Char) : List Finding :=
  if isComment line then []
  else
    shortNames line ++ sqlClauses line ++ formParts line ++ invalidDates line
      ++ deprecatedTypes line ++ controlParts line

/-- What the rules find in lines that are numbered from `first` on. -/
def check (first : Nat) : (lines : List (List Char)) → List Diagnostic
  | [] => []
  | line :: rest => (findings line).map (·.onLine first) ++ check (first + 1) rest

end Lint

/-- What the line rules find in a text, line after line. -/
def lint (text : String) : List Diagnostic := Lint.check 0 (Text.lines text.toList)

end FourthGen
