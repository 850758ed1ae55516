import FourthGen.Parser.Program

set_option autoImplicit false

/-! # The grammar

The language as a grammar over lists of tokens. Every relation here says that some tokens spell a
piece of syntax, given as a tree without ranges, and how many levels of nesting that piece takes up:
one for every block, every pair of parentheses and every operand, and one more for every operator that
stands to the left of an operand in the same chain.

Between statements stand gaps of line feeds and semicolons. The grammar has a parameter `gap` that
tells how many of these there have to be at least: with `0` statements may follow each other
directly, with `1` there is a separator behind every header, statement and closing word. -/

namespace FourthGen

/-! ## Shapes of trees -/

/-- An expression without its ranges. -/
def Expr.shape (e : Expr Range) : Expr Unit := e.map fun _ => ()

/-- A variable without its range. -/
def Variable.shape (v : Variable Range) : Variable Unit := v.map fun _ => ()

/-- A statement without its ranges. -/
def Stmt.shape (s : Stmt Range) : Stmt Unit := s.map fun _ => ()

/-- An item without its ranges. -/
def Item.shape (i : Item Range) : Item Unit := i.map fun _ => ()

@[simp] theorem Expr.shape_call (r : Range) (name : String) (args : List (Expr Range)) :
    (Expr.call r name args).shape = .call () name (args.map Expr.shape) := by
  simp only [Expr.shape, Expr.map, Expr.mapAll_eq_map]
  rfl

@[simp] theorem Expr.shape_binary (r : Range) (op : BinaryOp) (left right : Expr Range) :
    (Expr.binary r op left right).shape = .binary () op left.shape right.shape := by
  simp [Expr.shape, Expr.map]

/-- Parentheses leave no trace in a shape. -/
@[simp] theorem Expr.shape_withRange (r : Range) (e : Expr Range) : (e.withRange r).shape = e.shape := by
  cases e <;> simp [Expr.shape, Expr.withRange, Expr.map]

@[simp] theorem Stmt.shape_conditional (r : Range) (e : Expr Range) (ss ss' : List (Stmt Range)) :
    (Stmt.conditional r e ss ss').shape =
      .conditional () e.shape (ss.map Stmt.shape) (ss'.map Stmt.shape) := by
  simp only [Stmt.shape, Stmt.map, Stmt.mapAll_eq_map]
  rfl

@[simp] theorem Stmt.shape_whileLoop (r : Range) (e : Expr Range) (ss : List (Stmt Range)) :
    (Stmt.whileLoop r e ss).shape = .whileLoop () e.shape (ss.map Stmt.shape) := by
  simp only [Stmt.shape, Stmt.map, Stmt.mapAll_eq_map]
  rfl

@[simp] theorem Stmt.shape_forLoop (r : Range) (ss : List (Stmt Range)) :
    (Stmt.forLoop r ss).shape = .forLoop () (ss.map Stmt.shape) := by
  simp only [Stmt.shape, Stmt.map, Stmt.mapAll_eq_map]
  rfl

/-- The reserved word that opens a database statement. -/
def SqlKind.opener : SqlKind → Keyword
  | select => .SELECT
  | insert => .INSERT
  | update => .UPDATE
  | delete => .DELETE

/-- Whether a block of statements stops at a token: at a closing word or at `ELSE`. -/
def Token.endsBlock (t : Token) : Bool :=
  match t.kind with
  | .keyword .ENDIF | .keyword .ENDWHILE | .keyword .ENDFOR | .keyword .ELSE => true
  | .identifier => Cursor.closingWords.any t.isWord
  | _ => false

theorem Cursor.atBlockEnd_eq (s : Cursor) : s.atBlockEnd = s.peek.endsBlock := rfl

namespace Grammar

/-! ## Separators and lists -/

/-- A gap: separators only, at least `least` of them. -/
def Gap (least : Nat) (ts : List Token) : Prop :=
  least ≤ ts.length ∧ ∀ t ∈ ts, t.kind.isSeparator = true

/-- A run of tokens within a line: no separators. -/
def InLine (ts : List Token) : Prop := ∀ t ∈ ts, t.kind.isSeparator = false

/-- One piece or several, divided by commas. -/
inductive CommaList {α : Type} (G : Nat → List Token → α → Prop) : Nat → List Token → List α → Prop
  | one {n : Nat} {ts : List Token} {a : α} (h : G n ts a) : CommaList G n ts [a]
  | more {n m : Nat} {ts us : List Token} {comma : Token} {a : α} {as : List α} (h : G n ts a)
      (hc : comma.kind = .symbol .comma) (hs : CommaList G m us as) :
      CommaList G (max n m) (ts ++ comma :: us) (a :: as)

/-- A list in parentheses, possibly empty. -/
inductive ParenList {α : Type} (G : Nat → List Token → α → Prop) : Nat → List Token → List α → Prop
  | none {opening closing : Token} (ho : opening.kind = .symbol .leftParen)
      (hc : closing.kind = .symbol .rightParen) : ParenList G 0 [opening, closing] []
  | some {opening closing : Token} {n : Nat} {ts : List Token} {as : List α}
      (ho : opening.kind = .symbol .leftParen) (h : CommaList G n ts as)
      (hc : closing.kind = .symbol .rightParen) : ParenList G n (opening :: (ts ++ [closing])) as

/-- Pieces one after the other, each with a gap behind it. -/
inductive Lines (gap : Nat) {α : Type} (G : Nat → List Token → α → Prop) :
    Nat → List Token → List α → Prop
  | nil : Lines gap G 0 [] []
  | cons {n m : Nat} {ts g us : List Token} {a : α} {as : List α} (h : G n ts a) (hg : Gap gap g)
      (hs : Lines gap G m us as) : Lines gap G (max n m) (ts ++ (g ++ us)) (a :: as)

/-! ## Expressions -/

/-- Operands that follow each other with operators between them, where `G` are the operands and all
    operators bind at least as tightly as `least`. All operators associate to the left; the chain
    has `links` operators at its top level. -/
inductive Chain (G : Nat → List Token → Expr Unit → Prop) :
    (least links : Nat) → Nat → List Token → Expr Unit → Prop
  | operand {least n : Nat} {ts : List Token} {e : Expr Unit} (h : G n ts e) : Chain G least 0 n ts e
  | link {least k j n m : Nat} {ts us : List Token} {t : Token} {op : BinaryOp}
      {left right : Expr Unit} (hl : Chain G op.power k n ts left)
      (ht : t.kind.binaryOp? = some op) (hp : least ≤ op.power)
      (hr : Chain G (op.power + 1) j m us right) :
      Chain G least (k + 1) (max n (k + 1 + m)) (ts ++ t :: us) (.binary () op left right)

/-- A chain of any length and with any operators. -/
inductive Phrase (G : Nat → List Token → Expr Unit → Prop) : Nat → List Token → Expr Unit → Prop
  | mk {k n : Nat} {ts : List Token} {e : Expr Unit} (h : Chain G 0 k n ts e) : Phrase G n ts e

/-- An operand: a literal, a name, a call, or an expression in parentheses, which leave no node. -/
inductive Operand : Nat → List Token → Expr Unit → Prop
  | string {t : Token} (h : t.kind = .stringLiteral) : Operand 1 [t] (.literal () (.string t.text))
  | number {t : Token} (h : t.kind = .numberLiteral) : Operand 1 [t] (.literal () (.number t.text))
  | name {t : Token} (h : t.kind = .identifier) : Operand 1 [t] (.identifier () t.text)
  | call {n : Nat} {t : Token} {ts : List Token} {args : List (Expr Unit)}
      (h : t.kind = .identifier) (hs : ParenList (Phrase Operand) n ts args) :
      Operand (n + 1) (t :: ts) (.call () t.text args)
  | parens {n : Nat} {opening closing : Token} {ts : List Token} {e : Expr Unit}
      (ho : opening.kind = .symbol .leftParen) (h : Phrase Operand n ts e)
      (hc : closing.kind = .symbol .rightParen) : Operand (n + 1) (opening :: (ts ++ [closing])) e

/-- An expression. -/
abbrev Expression : Nat → List Token → Expr Unit → Prop := Phrase Operand

/-! ## Declared names -/

/-- A size of a data type. -/
inductive Size : Nat → List Token → String → Prop
  | mk {t : Token} (h : t.kind = .numberLiteral) : Size 0 [t] t.text

/-- A data type: a type word or an identifier, possibly with sizes. -/
inductive TypeName : List Token → String → Prop
  | plain {t : Token} (h : (t.kind.isDataType || t.kind == .identifier) = true) : TypeName [t] t.text
  | sized {t opening closing : Token} {n : Nat} {ts : List Token} {sizes : List String}
      (h : (t.kind.isDataType || t.kind == .identifier) = true)
      (ho : opening.kind = .symbol .leftParen) (hs : CommaList Size n ts sizes)
      (hc : closing.kind = .symbol .rightParen) :
      TypeName (t :: opening :: (ts ++ [closing])) (t.text ++ "(" ++ ",".intercalate sizes ++ ")")

/-- A name and its type. -/
inductive Declared : Nat → List Token → Variable Unit → Prop
  | mk {t : Token} {ts : List Token} {type : String} (h : t.kind = .identifier)
      (ht : TypeName ts type) : Declared 0 (t :: ts) ⟨(), t.text, type⟩

/-- The type of a function's result, if it is told. -/
inductive Returning : List Token → Option String → Prop
  | none : Returning [] none
  | some {t : Token} {ts : List Token} {type : String} (h : t.isWord "RETURNING" = true)
      (ht : TypeName ts type) : Returning (t :: ts) (some type)

/-! ## Closing words -/

/-- The end of a compound statement, by one word or by `END` and its opening word. -/
inductive CompoundEnd (c : Compound) : List Token → Prop
  | short {t : Token} (h : t.kind = .keyword c.closer) : CompoundEnd c [t]
  | long {t u : Token} (h : t.isWord "END" = true) (hu : u.kind = .keyword c.opener) :
      CompoundEnd c [t, u]

/-- The end of a declaration: its closing word, or `END`, which its opening word may follow. -/
inductive RoutineEnd (r : Routine) : List Token → Prop
  | own {t : Token} (h : t.isWord r.closingWord = true) : RoutineEnd r [t]
  | short {t : Token} (h : t.isWord "END" = true) : RoutineEnd r [t]
  | long {t u : Token} (h : t.isWord "END" = true) (hu : u.kind = .keyword r.opener) :
      RoutineEnd r [t, u]

/-! ## Statements, items and programs -/

/-- A block of statements `G`, a gap first. The block itself is a level of nesting. -/
inductive Block (gap : Nat) (G : Nat → List Token → Stmt Unit → Prop) :
    Nat → List Token → List (Stmt Unit) → Prop
  | mk {g ts : List Token} {n : Nat} {body : List (Stmt Unit)} (hg : Gap gap g)
      (h : Lines gap G n ts body) : Block gap G (n + 1) (g ++ ts) body

/-- A statement. The header of a `FOR` loop and all behind the first word of a database statement
    are any tokens of the line. A statement that is an expression, and the value that is returned,
    do not start with a word that closes a block. -/
inductive Statement (gap : Nat) : Nat → List Token → Stmt Unit → Prop
  | define {n : Nat} {t : Token} {ts : List Token} {vars : List (Variable Unit)}
      (h : t.kind = .keyword .DEFINE) (hs : CommaList Declared n ts vars) :
      Statement gap 0 (t :: ts) (.define () vars)
  | assign {n : Nat} {t target equals : Token} {ts : List Token} {e : Expr Unit}
      (h : t.kind = .keyword .LET) (ht : target.kind = .identifier)
      (ha : equals.kind = .symbol .assign) (he : Expression n ts e) :
      Statement gap n (t :: target :: equals :: ts) (.assign () target.text e)
  | ifThen {n m : Nat} {t then_ : Token} {ts us ends : List Token} {e : Expr Unit}
      {thenBlock : List (Stmt Unit)} (h : t.kind = .keyword .IF) (he : Expression n ts e)
      (ht : then_.kind = .keyword .THEN) (hb : Block gap (Statement gap) m us thenBlock)
      (hc : CompoundEnd .conditional ends) :
      Statement gap (max n m) (t :: (ts ++ then_ :: (us ++ ends))) (.conditional () e thenBlock [])
  | ifThenElse {n m k : Nat} {t then_ else_ : Token} {ts us vs ends : List Token} {e : Expr Unit}
      {thenBlock elseBlock : List (Stmt Unit)} (h : t.kind = .keyword .IF) (he : Expression n ts e)
      (ht : then_.kind = .keyword .THEN) (hb : Block gap (Statement gap) m us thenBlock)
      (hl : else_.kind = .keyword .ELSE) (hd : Block gap (Statement gap) k vs elseBlock)
      (hc : CompoundEnd .conditional ends) :
      Statement gap (max n (max m k)) (t :: (ts ++ then_ :: (us ++ else_ :: (vs ++ ends))))
        (.conditional () e thenBlock elseBlock)
  | whileLoop {n m : Nat} {t : Token} {ts us ends : List Token} {e : Expr Unit}
      {body : List (Stmt Unit)} (h : t.kind = .keyword .WHILE) (he : Expression n ts e)
      (hb : Block gap (Statement gap) m us body) (hc : CompoundEnd .whileLoop ends) :
      Statement gap (max n m) (t :: (ts ++ (us ++ ends))) (.whileLoop () e body)
  | forLoop {n : Nat} {t : Token} {header us ends : List Token} {body : List (Stmt Unit)}
      (h : t.kind = .keyword .FOR) (hh : InLine header) (hb : Block gap (Statement gap) n us body)
      (hc : CompoundEnd .forLoop ends) :
      Statement gap n (t :: (header ++ (us ++ ends))) (.forLoop () body)
  | callName {t name : Token} (h : t.kind = .keyword .CALL) (hn : name.kind = .identifier) :
      Statement gap 0 [t, name] (.call () name.text [])
  | call {n : Nat} {t name : Token} {ts : List Token} {args : List (Expr Unit)}
      (h : t.kind = .keyword .CALL) (hn : name.kind = .identifier)
      (hs : ParenList Expression n ts args) :
      Statement gap n (t :: name :: ts) (.call () name.text args)
  | giveBackNothing {t : Token} (h : t.kind = .keyword .RETURN) :
      Statement gap 0 [t] (.giveBack () none)
  | giveBack {n : Nat} {t x : Token} {ts : List Token} {e : Expr Unit}
      (h : t.kind = .keyword .RETURN) (hx : x.endsBlock = false) (he : Expression n (x :: ts) e) :
      Statement gap n (t :: x :: ts) (.giveBack () (some e))
  | sql {t : Token} {ts : List Token} {kind : SqlKind} (h : t.kind = .keyword kind.opener)
      (hs : InLine ts) : Statement gap 0 (t :: ts) (.sql () kind)
  | expression {n : Nat} {x : Token} {ts : List Token} {e : Expr Unit} (hx : x.endsBlock = false)
      (he : Expression n (x :: ts) e) : Statement gap n (x :: ts) (.expression () e)

/-- A top-level item. -/
inductive TopLevel (gap : Nat) : Nat → List Token → Item Unit → Prop
  | function {n m : Nat} {t name : Token} {ts rs us ends : List Token}
      {params : List (Variable Unit)} {returns : Option String} {body : List (Stmt Unit)}
      (h : t.kind = .keyword .FUNCTION) (hn : name.kind = .identifier)
      (hp : ParenList Declared n ts params) (hr : Returning rs returns)
      (hb : Block gap (Statement gap) m us body) (hc : RoutineEnd .function ends) :
      TopLevel gap m (t :: name :: (ts ++ (rs ++ (us ++ ends))))
        (.function () name.text params returns body)
  | procedure {n m : Nat} {t name : Token} {ts us ends : List Token}
      {params : List (Variable Unit)} {body : List (Stmt Unit)}
      (h : t.kind = .keyword .PROCEDURE) (hn : name.kind = .identifier)
      (hp : ParenList Declared n ts params) (hb : Block gap (Statement gap) m us body)
      (hc : RoutineEnd .procedure ends) :
      TopLevel gap m (t :: name :: (ts ++ (us ++ ends))) (.procedure () name.text params body)
  | statement {n : Nat} {ts : List Token} {s : Stmt Unit} (h : Statement gap n ts s) :
      TopLevel gap n ts (.statement s)

/-- A program: items one after the other. There may, but need not, be a gap before the first. -/
inductive Program (gap : Nat) : Nat → List Token → List (Item Unit) → Prop
  | mk {g ts : List Token} {n : Nat} {items : List (Item Unit)} (hg : Gap 0 g)
      (h : Lines gap (TopLevel gap) n ts items) : Program gap n (g ++ ts) items

end Grammar

end FourthGen
