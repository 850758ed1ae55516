import FourthGen.Symbol.Basic

set_option autoImplicit false

/-! # The symbol index

One table of symbols for each document, in the order of the documents' numbers, so that questions
across documents are answered in the order in which the documents were opened. -/

namespace FourthGen

/-- The symbol tables of the documents, in increasing order of their numbers. -/
structure SymbolIndex where
  tables : List (DocumentId × List Symbol)
  deriving DecidableEq, Repr

namespace SymbolIndex

/-- The index without any table. -/
def empty : SymbolIndex := ⟨[]⟩

/-- Replaces the table of a document as a whole. -/
def update (index : SymbolIndex) (id : DocumentId) (table : List Symbol) : SymbolIndex :=
  ⟨id.insert table index.tables⟩

/-- The table of a document, if it has one. -/
def table? (index : SymbolIndex) (id : DocumentId) : Option (List Symbol) :=
  (index.tables.find? (·.1 == id)).map (·.2)

/-- The index without the table of a document. -/
def erase (index : SymbolIndex) (id : DocumentId) : SymbolIndex :=
  ⟨index.tables.filter (·.1 != id)⟩

/-- The symbols of a document; none if it has no table. -/
def symbolsOf (index : SymbolIndex) (id : DocumentId) : List Symbol := (index.table? id).getD []

/-- All symbols, document after document. -/
def all (index : SymbolIndex) : List Symbol := index.tables.flatMap (·.2)

/-- All symbols of a kind. -/
def ofKind (index : SymbolIndex) (kind : SymbolKind) : List Symbol :=
  index.all.filter (·.kind == kind)

/-- All functions. -/
def functions (index : SymbolIndex) : List Symbol := index.ofKind .function

/-- All procedures. -/
def procedures (index : SymbolIndex) : List Symbol := index.ofKind .procedure

/-- The first symbol of a document whose range contains the position, both ends included. Inside a
    routine this is the routine itself, which precedes all it contains. -/
def at? (index : SymbolIndex) (id : DocumentId) (p : Position) : Option Symbol :=
  (index.symbolsOf id).find? (·.range.containsInclusive p)

/-- The symbols of a name, and of a kind if one is given, in all documents. Here case matters. -/
def named (index : SymbolIndex) (name : String) (kind : Option SymbolKind) : List Symbol :=
  index.all.filter fun s => s.name == name && kind.all (s.kind == ·)

/-! ## Scopes -/

/-- Whether a range is smaller than another: by the number of lines, then by its last column. -/
def narrower (r s : Range) : Bool :=
  let height (r : Range) : Nat := r.stop.line - r.start.line
  height r < height s || (height r == height s && r.stop.character < s.stop.character)

/-- The symbol with the narrowest range, the first of several. -/
def narrowest? : List Symbol → Option Symbol
  | [] => none
  | s :: rest =>
    match narrowest? rest with
    | none => some s
    | some t => if narrower t.range s.range then some t else some s

/-- The narrowest function or procedure around a position. -/
def scopeAt? (symbols : List Symbol) (p : Position) : Option Symbol :=
  narrowest? (symbols.filter fun s => s.kind.isCallable && s.range.containsInclusive p)

/-- The parameters and variables in a scope. -/
def valuesIn (symbols : List Symbol) (scope : Range) : List Symbol :=
  symbols.filter fun s => s.kind.isValue && scope.containsRange s.range

/-- The variables outside of all functions and procedures. -/
def globals (symbols : List Symbol) : List Symbol :=
  let scopes := (symbols.filter (·.kind.isCallable)).map (·.range)
  symbols.filter fun s => s.kind == .var && !scopes.any (·.containsRange s.range)

/-- The variables that can be used at a position: those of the narrowest routine around it, or, if
    there is none, those outside of all routines. -/
def variablesInScope (index : SymbolIndex) (id : DocumentId) (p : Position) : List Symbol :=
  let symbols := index.symbolsOf id
  match scopeAt? symbols p with
  | some scope => valuesIn symbols scope.range
  | none => globals symbols

end SymbolIndex

end FourthGen
