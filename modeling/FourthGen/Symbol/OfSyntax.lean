import FourthGen.Symbol.Basic
import FourthGen.Syntax.Tree

set_option autoImplicit false

/-! # The symbols of a program

The symbols of a syntax tree in source order: each declaration is followed by its parameters and
then by the variables defined anywhere in its body. Declarations whose name is missing are left out.
Expressions declare nothing. -/

namespace FourthGen

/-! ## Variables of a block -/

mutual

/-- The variables that a statement defines, at any depth of blocks. -/
def Stmt.definedVariables {ρ : Type} : Stmt ρ → List (Variable ρ)
  | .define _ vars => vars
  | .conditional _ _ thenBlock elseBlock =>
    Stmt.variablesOfBlock thenBlock ++ Stmt.variablesOfBlock elseBlock
  | .whileLoop _ _ body => Stmt.variablesOfBlock body
  | .forLoop _ body => Stmt.variablesOfBlock body
  | .assign .. | .call .. | .giveBack .. | .sql .. | .expression .. => []

/-- The variables that the statements of a block define, at any depth of blocks. -/
def Stmt.variablesOfBlock {ρ : Type} : List (Stmt ρ) → List (Variable ρ)
  | [] => []
  | s :: ss => s.definedVariables ++ Stmt.variablesOfBlock ss

end

theorem Stmt.variablesOfBlock_eq_flatMap {ρ : Type} (ss : List (Stmt ρ)) :
    Stmt.variablesOfBlock ss = ss.flatMap Stmt.definedVariables := by
  induction ss with
  | nil => rfl
  | cons s ss ih => simp [Stmt.variablesOfBlock, ih]

/-! ## Symbols of declarations -/

/-- A declared name with its type, as shown in a summary. -/
def Variable.display {ρ : Type} (v : Variable ρ) : String := v.name ++ ": " ++ v.type

/-- A parameter list as shown in a summary. -/
def signature {ρ : Type} (params : List (Variable ρ)) : String :=
  ", ".intercalate (params.map Variable.display)

namespace Symbol

/-- The symbol of a parameter or a variable. -/
def ofVariable (document : DocumentId) (kind : SymbolKind) (v : Variable Range) : Symbol where
  name := v.name
  kind := kind
  dataType := some v.type
  range := v.range
  document := document
  detail := kind.noun ++ " " ++ v.display

/-- The symbol of a function or a procedure. -/
def ofRoutine (document : DocumentId) (kind : SymbolKind) (range : Range) (name : String)
    (params : List (Variable Range)) (returns : Option String) : Symbol where
  name := name
  kind := kind
  dataType := returns
  range := range
  document := document
  detail := kind.noun ++ " " ++ name ++ "(" ++ signature params ++ ")"
    ++ (returns.map (": " ++ ·)).getD ""

/-- The symbols of what a routine contains: its parameters and its variables. -/
def ofInside (document : DocumentId) (params : List (Variable Range)) (body : List (Stmt Range)) :
    List Symbol :=
  params.map (ofVariable document .param)
    ++ (Stmt.variablesOfBlock body).map (ofVariable document .var)

/-- The symbols of a top-level item, those with a missing name included. -/
def ofItem (document : DocumentId) : Item Range → List Symbol
  | .function range name params returns body =>
    ofRoutine document .function range name params returns :: ofInside document params body
  | .procedure range name params body =>
    ofRoutine document .procedure range name params none :: ofInside document params body
  | .statement stmt => stmt.definedVariables.map (ofVariable document .var)

/-- The symbols of a program, in source order. -/
def ofItems (document : DocumentId) (items : List (Item Range)) : List Symbol :=
  (items.flatMap (ofItem document)).filter (·.name != "")

end Symbol

end FourthGen
