set_option autoImplicit false

/-! # Syntax trees

The trees that the parser builds. Every node carries an annotation of a type `ρ`: the parser
annotates with ranges of the source text, and `map` changes the annotations of a whole tree, so
that the shape of a tree, without any places, is its image under a constant map.

Names, types and literals are kept as they were written. A name that is missing from the source is
the empty text. -/

namespace FourthGen

/-! ## Expressions -/

/-- A literal as written: a string with its quotes, a number with its digits and dots. -/
inductive Literal where
  | string (text : String)
  | number (text : String)
  deriving DecidableEq, Repr, Inhabited

/-- The binary operators. -/
inductive BinaryOp where
  | or | and | eq | ne | lt | gt | le | ge
  deriving DecidableEq, Repr, Inhabited

/-- The spelling of an operator. -/
def BinaryOp.spelling : BinaryOp → String
  | or => "OR"
  | and => "AND"
  | eq => "=="
  | ne => "!="
  | lt => "<"
  | gt => ">"
  | le => "<="
  | ge => ">="

/-- How tightly an operator binds; all operators associate to the left. -/
def BinaryOp.power : BinaryOp → Nat
  | or => 20
  | and => 30
  | eq | ne => 40
  | lt | gt | le | ge => 50

/-- An expression. `error` stands where an expression was required and none could be read.
    Parentheses leave no node of their own. -/
inductive Expr (ρ : Type) where
  | identifier (range : ρ) (name : String)
  | literal (range : ρ) (value : Literal)
  | binary (range : ρ) (op : BinaryOp) (left right : Expr ρ)
  | call (range : ρ) (name : String) (args : List (Expr ρ))
  | error (range : ρ)
  deriving Repr, Inhabited

namespace Expr

/-- The annotation at the root. -/
def range {ρ : Type} : Expr ρ → ρ
  | identifier range _ => range
  | literal range _ => range
  | binary range _ _ _ => range
  | call range _ _ => range
  | error range => range

/-- The same expression with another annotation at the root. -/
def withRange {ρ : Type} (range : ρ) : Expr ρ → Expr ρ
  | identifier _ name => identifier range name
  | literal _ value => literal range value
  | binary _ op left right => binary range op left right
  | call _ name args => call range name args
  | error _ => error range

end Expr

mutual

/-- The expression with every annotation changed by `f`. -/
def Expr.map {ρ σ : Type} (f : ρ → σ) : Expr ρ → Expr σ
  | .identifier range name => .identifier (f range) name
  | .literal range value => .literal (f range) value
  | .binary range op left right => .binary (f range) op (left.map f) (right.map f)
  | .call range name args => .call (f range) name (Expr.mapAll f args)
  | .error range => .error (f range)

/-- `Expr.map` on every expression of a list. -/
def Expr.mapAll {ρ σ : Type} (f : ρ → σ) : List (Expr ρ) → List (Expr σ)
  | [] => []
  | e :: es => e.map f :: Expr.mapAll f es

end

theorem Expr.mapAll_eq_map {ρ σ : Type} (f : ρ → σ) (es : List (Expr ρ)) :
    Expr.mapAll f es = es.map (Expr.map f) := by
  induction es with
  | nil => rfl
  | cons e es ih => simp [Expr.mapAll, ih]

theorem Expr.range_map {ρ σ : Type} (f : ρ → σ) (e : Expr ρ) : (e.map f).range = f e.range := by
  cases e <;> rfl

theorem Expr.map_withRange {ρ σ : Type} (f : ρ → σ) (r : ρ) (e : Expr ρ) :
    (e.withRange r).map f = (e.map f).withRange (f r) := by
  cases e <;> rfl

/-! ## Statements -/

/-- A declared name with its type: a parameter, or a variable of a `DEFINE`. -/
structure Variable (ρ : Type) where
  range : ρ
  name : String
  type : String
  deriving DecidableEq, Repr, Inhabited

/-- The variable with its annotation changed by `f`. -/
def Variable.map {ρ σ : Type} (f : ρ → σ) (v : Variable ρ) : Variable σ := ⟨f v.range, v.name, v.type⟩

/-- The kinds of database statement. -/
inductive SqlKind where
  | select | insert | update | delete
  deriving DecidableEq, Repr, Inhabited

/-- A statement. The header of a `FOR` loop and everything after the first word of a database
    statement are not kept. -/
inductive Stmt (ρ : Type) where
  | define (range : ρ) (vars : List (Variable ρ))
  | assign (range : ρ) (target : String) (value : Expr ρ)
  | conditional (range : ρ) (condition : Expr ρ) (thenBlock elseBlock : List (Stmt ρ))
  | whileLoop (range : ρ) (condition : Expr ρ) (body : List (Stmt ρ))
  | forLoop (range : ρ) (body : List (Stmt ρ))
  | call (range : ρ) (name : String) (args : List (Expr ρ))
  | giveBack (range : ρ) (value : Option (Expr ρ))
  | sql (range : ρ) (kind : SqlKind)
  | expression (range : ρ) (value : Expr ρ)
  deriving Repr, Inhabited

/-- The annotation at the root. -/
def Stmt.range {ρ : Type} : Stmt ρ → ρ
  | define range _ => range
  | assign range _ _ => range
  | conditional range _ _ _ => range
  | whileLoop range _ _ => range
  | forLoop range _ => range
  | call range _ _ => range
  | giveBack range _ => range
  | sql range _ => range
  | expression range _ => range

mutual

/-- The statement with every annotation changed by `f`. -/
def Stmt.map {ρ σ : Type} (f : ρ → σ) : Stmt ρ → Stmt σ
  | .define range vars => .define (f range) (vars.map (Variable.map f))
  | .assign range target value => .assign (f range) target (value.map f)
  | .conditional range condition thenBlock elseBlock =>
    .conditional (f range) (condition.map f) (Stmt.mapAll f thenBlock) (Stmt.mapAll f elseBlock)
  | .whileLoop range condition body =>
    .whileLoop (f range) (condition.map f) (Stmt.mapAll f body)
  | .forLoop range body => .forLoop (f range) (Stmt.mapAll f body)
  | .call range name args => .call (f range) name (args.map (Expr.map f))
  | .giveBack range value => .giveBack (f range) (value.map (Expr.map f))
  | .sql range kind => .sql (f range) kind
  | .expression range value => .expression (f range) (value.map f)

/-- `Stmt.map` on every statement of a block. -/
def Stmt.mapAll {ρ σ : Type} (f : ρ → σ) : List (Stmt ρ) → List (Stmt σ)
  | [] => []
  | s :: ss => s.map f :: Stmt.mapAll f ss

end

theorem Stmt.mapAll_eq_map {ρ σ : Type} (f : ρ → σ) (ss : List (Stmt ρ)) :
    Stmt.mapAll f ss = ss.map (Stmt.map f) := by
  induction ss with
  | nil => rfl
  | cons s ss ih => simp [Stmt.mapAll, ih]

/-! ## Top-level items -/

/-- A top-level item: a declaration, or a statement that stands outside of any. Procedures have no
    result type. -/
inductive Item (ρ : Type) where
  | function (range : ρ) (name : String) (params : List (Variable ρ)) (returns : Option String)
      (body : List (Stmt ρ))
  | procedure (range : ρ) (name : String) (params : List (Variable ρ)) (body : List (Stmt ρ))
  | statement (stmt : Stmt ρ)
  deriving Repr, Inhabited

namespace Item

/-- The annotation at the root. -/
def range {ρ : Type} : Item ρ → ρ
  | function range _ _ _ _ => range
  | procedure range _ _ _ => range
  | statement stmt => stmt.range

/-- The item with every annotation changed by `f`. -/
def map {ρ σ : Type} (f : ρ → σ) : Item ρ → Item σ
  | function range name params returns body =>
    function (f range) name (params.map (Variable.map f)) returns (body.map (Stmt.map f))
  | procedure range name params body =>
    procedure (f range) name (params.map (Variable.map f)) (body.map (Stmt.map f))
  | statement stmt => statement (stmt.map f)

end Item

end FourthGen
