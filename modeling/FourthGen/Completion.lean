import FourthGen.Reference
import FourthGen.Symbol.Index

set_option autoImplicit false

/-! # Completion

What can be offered at a place in a document: the user's own functions, procedures and variables,
the reserved words, words of use on the line, and the functions that come with the language. The
offer is a list of candidates from which those are kept that start with what is already typed, and
of several with one label and kind only the first. -/

namespace FourthGen

/-- The kinds of completion. -/
inductive CompletionKind where
  | function | procedure | var | keyword
  deriving DecidableEq, Repr, Inhabited

/-- A completion. A snippet has places to fill in its inserted text. -/
structure Completion where
  label : String
  kind : CompletionKind
  detail : String
  documentation : Option String
  insertText : String
  isSnippet : Bool
  sortKey : String
  deriving DecidableEq, Repr, Inhabited

namespace Completion

/-! ## Making candidates -/

/-- The groups into which clients sort completions: the user's own names come first. -/
inductive Group where
  | functions | procedures | values | keywords | builtins
  deriving DecidableEq, Repr

/-- The place of a group. -/
def Group.rank : Group → Nat
  | functions => 0
  | procedures => 1
  | values => 2
  | keywords => 3
  | builtins => 4

/-- The key by which a client sorts: the group, then the label without regard to case. -/
def sortKeyOf (group : Group) (label : String) : String :=
  toString group.rank ++ "_" ++ Text.lower label

/-- A completion that inserts its label. -/
def plain (group : Group) (kind : CompletionKind) (label detail : String) : Completion where
  label := label
  kind := kind
  detail := detail
  documentation := none
  insertText := label
  isSnippet := false
  sortKey := sortKeyOf group label

/-- A completion that inserts a call, with the cursor between the parentheses. -/
def call (group : Group) (kind : CompletionKind) (label detail : String) : Completion :=
  { plain group kind label detail with insertText := label ++ "($1)", isSnippet := true }

/-- The summary of a symbol, or another text if it has none. -/
def detailOr (s : Symbol) (other : String) : String := if s.detail.isEmpty then other else s.detail

/-- The completion of a function. -/
def ofFunction (s : Symbol) : Completion :=
  call .functions .function s.name (detailOr s ("Function: " ++ s.dataType.getD "void"))

/-- The completion of a procedure. -/
def ofProcedure (s : Symbol) : Completion :=
  call .procedures .procedure s.name (detailOr s "Procedure")

/-- The completion of a variable or a parameter. -/
def ofValue (s : Symbol) : Completion :=
  plain .values .var s.name (detailOr s (s.kind.noun ++ ": " ++ s.dataType.getD "unknown"))

/-- The completion of a word of the language. -/
def ofWord (detail word : String) : Completion := plain .keywords .keyword word detail

/-- The completion of a function that comes with the language. -/
def ofBuiltin (f : Builtin) : Completion :=
  { call .builtins .function f.name ("Built-in function: " ++ f.returnType) with
    documentation := some f.description }

/-! ## The offer -/

/-- Whether one of the words stands in a line as a whole word, in any mixture of cases. -/
def lineHasAny (words : List String) (line : List Char) : Bool :=
  (Text.words line).any fun found => words.any (Text.sameWord (String.ofList found))

/-- The reserved words and the words of use on the given line. -/
def wordCandidates (line : List Char) : List Completion :=
  Keyword.all.map (fun k => ofWord "Keyword" k.spelling)
    ++ (if lineHasAny sqlTriggers line then sqlContextWords.map (ofWord "SQL Keyword") else [])
    ++ (if lineHasAny formTriggers line then formContextWords.map (ofWord "Form Keyword") else [])

/-- Everything that could be offered at a position of a document, of which `line` is the line. -/
def candidates (index : SymbolIndex) (id : DocumentId) (p : Position) (line : List Char) :
    List Completion :=
  index.functions.map ofFunction ++ index.procedures.map ofProcedure
    ++ (index.variablesInScope id p).map ofValue ++ wordCandidates line
    ++ Builtin.all.map ofBuiltin

/-- Whether two completions would show as the same. -/
def sameOffer (c d : Completion) : Bool := c.label == d.label && c.kind == d.kind

/-- The completions of a list that no earlier one equals in label and kind; `seen` holds those that
    came before the list. -/
def distinctFrom (seen : List Completion) : List Completion → List Completion
  | [] => []
  | c :: rest =>
    if seen.any (sameOffer c) then distinctFrom seen rest else c :: distinctFrom (c :: seen) rest

/-- The first completion of each label and kind. -/
def distinct (cs : List Completion) : List Completion := distinctFrom [] cs

end Completion

/-- The completions offered at a position: the candidates that start with the part of a word left of
    it, in any mixture of cases, the first of each label and kind. -/
def completions (index : SymbolIndex) (document : Document) (id : DocumentId) (p : Position) :
    List Completion :=
  let stem := (document.stemAt? p).getD ""
  let line := (document.line? p.line).getD []
  Completion.distinct
    ((Completion.candidates index id p line).filter (Text.startsWithFold stem ·.label))

end FourthGen
