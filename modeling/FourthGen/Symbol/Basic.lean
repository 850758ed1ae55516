import FourthGen.Document.Basic
import FourthGen.Text.Position

set_option autoImplicit false

/-! # Symbols

A symbol is a place where a name is declared: a function, a procedure, a parameter or a variable. -/

namespace FourthGen

/-- The kinds of symbol. -/
inductive SymbolKind where
  | function | procedure | var | param
  deriving DecidableEq, Repr, Inhabited

namespace SymbolKind

/-- How a kind is called. -/
def noun : SymbolKind → String
  | function => "function"
  | procedure => "procedure"
  | var => "variable"
  | param => "parameter"

/-- Whether a symbol of this kind encloses a scope of its own. -/
def isCallable : SymbolKind → Bool
  | function | procedure => true
  | var | param => false

/-- Whether a symbol of this kind holds a value. -/
def isValue (kind : SymbolKind) : Bool := !kind.isCallable

end SymbolKind

/-- A declared name. `range` covers the whole declaration, `dataType` is the type of a value or the
    result type of a function, and `detail` a summary on one line. -/
structure Symbol where
  name : String
  kind : SymbolKind
  dataType : Option String
  range : Range
  document : DocumentId
  detail : String
  deriving DecidableEq, Repr, Inhabited

end FourthGen
