import FourthGen.Proofs.Parser.Completeness
import FourthGen.Proofs.Token.Spacing

set_option autoImplicit false

/-! # Trees that can be written down

Every tree without placeholders for missing expressions can be written as tokens from which the parser
gets it back; and where its names, types and literals are such as a text can hold, these are tokens that
a text can hold. An operand that binds less tightly than its operator asks for is put in parentheses:
on the left one whose operator binds less tightly, on the right also one whose operator binds equally
tightly. The levels of nesting that this takes are a function of the tree. -/

namespace FourthGen

open Grammar

/-! ## Nesting of a tree -/

namespace Expr

/-- Whether an expression needs parentheses where operators must bind at least as tightly as `least`. -/
def looser (least : Nat) : Expr Unit → Bool
  | .binary _ op _ _ => op.power < least
  | _ => false

/-- The number of operators at the top level of an expression as it is written, without those of a
    right operand. -/
def links : Expr Unit → Nat
  | .binary _ op left _ => (if left.looser op.power then 0 else left.links) + 1
  | _ => 0

mutual

/-- The levels of nesting of an expression, with parentheses only where they are needed. -/
def nest : Expr Unit → Nat
  | .identifier _ _ => 1
  | .literal _ _ => 1
  | .binary _ op left right =>
    max (if left.looser op.power then left.nest + 1 else left.nest)
      ((if left.looser op.power then 0 else left.links) + 1 +
        (if right.looser (op.power + 1) then right.nest + 1 else right.nest))
  | .call _ _ args => nestAll args + 1
  | .error _ => 0

/-- The levels of nesting of the deepest expression. -/
def nestAll : List (Expr Unit) → Nat
  | [] => 0
  | e :: es => max e.nest (nestAll es)

end

end Expr

namespace Stmt

mutual

/-- The levels of nesting of a statement: those of its expressions, and one for every block. -/
def nest : Stmt Unit → Nat
  | .define _ _ => 0
  | .assign _ _ value => value.nest
  | .conditional _ condition thenBlock [] => max condition.nest (nestAll thenBlock + 1)
  | .conditional _ condition thenBlock (stmt :: rest) =>
    max condition.nest (max (nestAll thenBlock + 1) (max stmt.nest (nestAll rest) + 1))
  | .whileLoop _ condition body => max condition.nest (nestAll body + 1)
  | .forLoop _ body => nestAll body + 1
  | .call _ _ args => Expr.nestAll args
  | .giveBack _ none => 0
  | .giveBack _ (some value) => value.nest
  | .sql _ _ => 0
  | .expression _ value => value.nest

/-- The levels of nesting of the deepest statement. -/
def nestAll : List (Stmt Unit) → Nat
  | [] => 0
  | s :: ss => max s.nest (nestAll ss)

end

end Stmt

/-- The levels of nesting of an item. -/
def Item.nest : Item Unit → Nat
  | .function _ _ _ _ body => Stmt.nestAll body + 1
  | .procedure _ _ _ body => Stmt.nestAll body + 1
  | .statement stmt => stmt.nest

/-- The levels of nesting of the deepest item. -/
def Item.nestAll : List (Item Unit) → Nat
  | [] => 0
  | i :: is => max i.nest (nestAll is)

/-! ## Printable trees -/

/-- A name is not one of the words that close a block. -/
def IsPlainName (name : String) : Prop := ∀ word ∈ Cursor.closingWords, Text.sameWord name word = false

mutual

/-- An expression without placeholders, with plain names only. -/
def Expr.Printable : Expr Unit → Prop
  | .identifier _ name => IsPlainName name
  | .literal _ _ => True
  | .binary _ _ left right => left.Printable ∧ right.Printable
  | .call _ name args => IsPlainName name ∧ Expr.AllPrintable args
  | .error _ => False

/-- `Expr.Printable` for every expression of a list. -/
def Expr.AllPrintable : List (Expr Unit) → Prop
  | [] => True
  | e :: es => e.Printable ∧ Expr.AllPrintable es

end

mutual

/-- A statement of printable expressions, where a `DEFINE` has variables. -/
def Stmt.Printable : Stmt Unit → Prop
  | .define _ vars => vars ≠ []
  | .assign _ _ value => value.Printable
  | .conditional _ condition thenBlock elseBlock =>
    condition.Printable ∧ Stmt.AllPrintable thenBlock ∧ Stmt.AllPrintable elseBlock
  | .whileLoop _ condition body => condition.Printable ∧ Stmt.AllPrintable body
  | .forLoop _ body => Stmt.AllPrintable body
  | .call _ _ args => Expr.AllPrintable args
  | .giveBack _ none => True
  | .giveBack _ (some value) => value.Printable
  | .sql _ _ => True
  | .expression _ value => value.Printable

/-- `Stmt.Printable` for every statement of a block. -/
def Stmt.AllPrintable : List (Stmt Unit) → Prop
  | [] => True
  | s :: ss => s.Printable ∧ Stmt.AllPrintable ss

end

/-- An item of printable statements. -/
def Item.Printable : Item Unit → Prop
  | .function _ _ _ _ body => Stmt.AllPrintable body
  | .procedure _ _ _ body => Stmt.AllPrintable body
  | .statement stmt => stmt.Printable

/-! ## Tokens for a tree -/

/-- A token of the given kind and text. Where it stands does not matter here. -/
def Token.spelled (kind : TokenKind) (text : String) : Token := ⟨kind, text, ⟨0, 0⟩, .zero, .zero⟩

/-- The line feed behind a line. -/
def lineFeed : Token := .spelled .newline "\n"

/-- A token that can stand in a text: its spelling is read as this token alone. -/
def Token.Lexed (t : Token) : Prop :=
  t.kind ≠ .eof ∧ (tokenize t.text).map Token.face = [t.face, (.eof, "")]

instance (t : Token) : Decidable t.Lexed := inferInstanceAs (Decidable (_ ∧ _))

/-- The property holds of the tokens that are not names, literals or type words. -/
structure Fixed (P : Token → Prop) : Prop where
  keyword (k : Keyword) : P (.spelled (.keyword k) k.spelling)
  mark (m : Punctuation) : P (.spelled (.symbol m) m.spelling)
  lineFeed : P lineFeed
  closing : P (.spelled .identifier "END")
  returning : P (.spelled .identifier "RETURNING")

theorem fixed_ne_eof : Fixed (·.kind ≠ .eof) where
  keyword _ := nofun
  mark _ := nofun
  lineFeed := nofun
  closing := nofun
  returning := nofun

theorem fixed_lexed : Fixed Token.Lexed where
  keyword k := by cases k <;> decide +kernel
  mark m := by cases m <;> decide +kernel
  lineFeed := by decide +kernel
  closing := by decide +kernel
  returning := by decide +kernel

/-- All tokens of a list have a property. -/
def Made (P : Token → Prop) (ts : List Token) : Prop := ∀ t ∈ ts, P t

section

variable {P : Token → Prop}

theorem made_nil : Made P [] := by simp [Made]

theorem made_append {ts us : List Token} : Made P (ts ++ us) ↔ Made P ts ∧ Made P us :=
  List.forall_mem_append

theorem made_cons {t : Token} {ts : List Token} : Made P (t :: ts) ↔ P t ∧ Made P ts :=
  List.forall_mem_cons

theorem made_singleton {t : Token} : Made P [t] ↔ P t := List.forall_mem_singleton

end

/-- Tokens in parentheses. -/
def enclosed (ts : List Token) : List Token :=
  .spelled (.symbol .leftParen) "(" :: (ts ++ [.spelled (.symbol .rightParen) ")"])

theorem Made.enclosed {P : Token → Prop} {ts : List Token} (h : Made P ts) (hP : Fixed P) :
    Made P (enclosed ts) :=
  made_cons.2 ⟨hP.mark .leftParen, made_append.2 ⟨h, made_singleton.2 (hP.mark .rightParen)⟩⟩

/-! ## Names, types and literals -/

/-- The type can be written with such tokens: by one token, or by a type word, parentheses and the sizes
    between them. -/
def TypeSpelled (P : Token → Prop) (type : String) : Prop := ∃ ts, Made P ts ∧ TypeName ts type

section

variable {P : Token → Prop} {base : Token}

theorem typeSpelled_plain (h : (base.kind.isDataType || base.kind == .identifier) = true)
    (hbase : P base) : TypeSpelled P base.text := ⟨[base], made_singleton.2 hbase, .plain h⟩

theorem exists_sizes (hP : Fixed P) {sizes : List String} (hne : sizes ≠ [])
    (hs : ∀ size ∈ sizes, P (.spelled .numberLiteral size)) :
    ∃ ts, Made P ts ∧ CommaList Size 0 ts sizes := by
  induction sizes with
  | nil => exact absurd rfl hne
  | cons size sizes ih =>
      rw [List.forall_mem_cons] at hs
      have hsize : Size 0 [.spelled .numberLiteral size] size :=
        @Size.mk (.spelled .numberLiteral size) rfl
      cases sizes with
      | nil => exact ⟨_, made_singleton.2 hs.1, .one hsize⟩
      | cons size' sizes =>
          obtain ⟨ts, hts, hlist⟩ := ih (by simp) hs.2
          refine ⟨[_] ++ .spelled (.symbol .comma) "," :: ts, ?_, .more hsize rfl hlist⟩
          exact made_append.2 ⟨made_singleton.2 hs.1, made_cons.2 ⟨hP.mark .comma, hts⟩⟩

/-- A type with sizes is written as its type word and the sizes between parentheses. -/
theorem typeSpelled_sized (hP : Fixed P)
    (h : (base.kind.isDataType || base.kind == .identifier) = true) (hbase : P base)
    {sizes : List String} (hne : sizes ≠ []) (hs : ∀ size ∈ sizes, P (.spelled .numberLiteral size)) :
    TypeSpelled P (base.text ++ "(" ++ ",".intercalate sizes ++ ")") := by
  obtain ⟨ts, hts, hlist⟩ := exists_sizes hP hne hs
  refine ⟨base :: enclosed ts, made_cons.2 ⟨hbase, hts.enclosed hP⟩, ?_⟩
  exact .sized h rfl hlist rfl

end

/-- The name and the type of the variable can be written with such tokens. -/
def Variable.Spelled (P : Token → Prop) (v : Variable Unit) : Prop :=
  P (.spelled .identifier v.name) ∧ TypeSpelled P v.type

mutual

/-- The names and the literals of an expression can be written with such tokens. -/
def Expr.Spelled (P : Token → Prop) : Expr Unit → Prop
  | .identifier _ name => P (.spelled .identifier name)
  | .literal _ (.string text) => P (.spelled .stringLiteral text)
  | .literal _ (.number text) => P (.spelled .numberLiteral text)
  | .binary _ _ left right => left.Spelled P ∧ right.Spelled P
  | .call _ name args => P (.spelled .identifier name) ∧ Expr.AllSpelled P args
  | .error _ => True

/-- `Expr.Spelled` for every expression of a list. -/
def Expr.AllSpelled (P : Token → Prop) : List (Expr Unit) → Prop
  | [] => True
  | e :: es => e.Spelled P ∧ Expr.AllSpelled P es

end

mutual

/-- The names, types and literals of a statement can be written with such tokens. -/
def Stmt.Spelled (P : Token → Prop) : Stmt Unit → Prop
  | .define _ vars => ∀ v ∈ vars, v.Spelled P
  | .assign _ target value => P (.spelled .identifier target) ∧ value.Spelled P
  | .conditional _ condition thenBlock elseBlock =>
    condition.Spelled P ∧ Stmt.AllSpelled P thenBlock ∧ Stmt.AllSpelled P elseBlock
  | .whileLoop _ condition body => condition.Spelled P ∧ Stmt.AllSpelled P body
  | .forLoop _ body => Stmt.AllSpelled P body
  | .call _ name args => P (.spelled .identifier name) ∧ Expr.AllSpelled P args
  | .giveBack _ none => True
  | .giveBack _ (some value) => value.Spelled P
  | .sql _ _ => True
  | .expression _ value => value.Spelled P

/-- `Stmt.Spelled` for every statement of a block. -/
def Stmt.AllSpelled (P : Token → Prop) : List (Stmt Unit) → Prop
  | [] => True
  | s :: ss => s.Spelled P ∧ Stmt.AllSpelled P ss

end

/-- The names, types and literals of an item can be written with such tokens. -/
def Item.Spelled (P : Token → Prop) : Item Unit → Prop
  | .function _ name params returns body =>
    P (.spelled .identifier name) ∧ (∀ v ∈ params, v.Spelled P) ∧
      (∀ type ∈ returns, TypeSpelled P type) ∧ Stmt.AllSpelled P body
  | .procedure _ name params body =>
    P (.spelled .identifier name) ∧ (∀ v ∈ params, v.Spelled P) ∧ Stmt.AllSpelled P body
  | .statement stmt => stmt.Spelled P

/-! Any text is the text of some token, if it does not matter whether a text can hold that token. -/

theorem typeSpelled_ne_eof (type : String) : TypeSpelled (·.kind ≠ .eof) type :=
  @typeSpelled_plain _ (.spelled .identifier type) rfl nofun

theorem Variable.spelled_ne_eof (v : Variable Unit) : v.Spelled (·.kind ≠ .eof) :=
  ⟨nofun, typeSpelled_ne_eof v.type⟩

mutual

theorem Expr.spelled_ne_eof (e : Expr Unit) : e.Spelled (·.kind ≠ .eof) := by
  cases e with
  | identifier _ name => exact nofun
  | literal _ value => cases value <;> exact nofun
  | binary _ op left right => exact ⟨left.spelled_ne_eof, right.spelled_ne_eof⟩
  | call _ name args => exact ⟨nofun, Expr.allSpelled_ne_eof args⟩
  | error _ => trivial

theorem Expr.allSpelled_ne_eof (es : List (Expr Unit)) : Expr.AllSpelled (·.kind ≠ .eof) es := by
  match es with
  | [] => trivial
  | e :: es => exact ⟨e.spelled_ne_eof, Expr.allSpelled_ne_eof es⟩

end

mutual

theorem Stmt.spelled_ne_eof (s : Stmt Unit) : s.Spelled (·.kind ≠ .eof) := by
  cases s with
  | define _ vars => exact fun v _ => v.spelled_ne_eof
  | assign _ target value => exact ⟨nofun, value.spelled_ne_eof⟩
  | conditional _ condition thenBlock elseBlock =>
      exact ⟨condition.spelled_ne_eof, Stmt.allSpelled_ne_eof thenBlock,
        Stmt.allSpelled_ne_eof elseBlock⟩
  | whileLoop _ condition body =>
      exact ⟨condition.spelled_ne_eof, Stmt.allSpelled_ne_eof body⟩
  | forLoop _ body => exact Stmt.allSpelled_ne_eof body
  | call _ name args => exact ⟨nofun, Expr.allSpelled_ne_eof args⟩
  | giveBack _ value =>
      cases value with
      | none => trivial
      | some value => exact value.spelled_ne_eof
  | sql _ kind => trivial
  | expression _ value => exact value.spelled_ne_eof

theorem Stmt.allSpelled_ne_eof (ss : List (Stmt Unit)) : Stmt.AllSpelled (·.kind ≠ .eof) ss := by
  match ss with
  | [] => trivial
  | s :: ss => exact ⟨s.spelled_ne_eof, Stmt.allSpelled_ne_eof ss⟩

end

theorem Item.spelled_ne_eof (item : Item Unit) : item.Spelled (·.kind ≠ .eof) := by
  cases item with
  | function _ name params returns body =>
      exact ⟨nofun, fun v _ => v.spelled_ne_eof, fun type _ => typeSpelled_ne_eof type,
        Stmt.allSpelled_ne_eof body⟩
  | procedure _ name params body =>
      exact ⟨nofun, fun v _ => v.spelled_ne_eof, Stmt.allSpelled_ne_eof body⟩
  | statement stmt => exact stmt.spelled_ne_eof

/-! ## Tokens for operators and operands -/

/-- A token that stands for the operator. -/
def BinaryOp.token (op : BinaryOp) : Token :=
  match op with
  | or => .spelled (.keyword .OR) "OR"
  | and => .spelled (.keyword .AND) "AND"
  | eq => .spelled (.symbol .equal) "=="
  | ne => .spelled (.symbol .notEqual) "!="
  | lt => .spelled (.symbol .lessThan) "<"
  | gt => .spelled (.symbol .greaterThan) ">"
  | le => .spelled (.symbol .lessEqual) "<="
  | ge => .spelled (.symbol .greaterEqual) ">="

theorem BinaryOp.token_binaryOp (op : BinaryOp) : op.token.kind.binaryOp? = some op := by
  cases op <;> rfl

theorem Fixed.operator {P : Token → Prop} (hP : Fixed P) (op : BinaryOp) : P op.token :=
  match op with
  | .or => hP.keyword .OR
  | .and => hP.keyword .AND
  | .eq => hP.mark .equal
  | .ne => hP.mark .notEqual
  | .lt => hP.mark .lessThan
  | .gt => hP.mark .greaterThan
  | .le => hP.mark .lessEqual
  | .ge => hP.mark .greaterEqual

/-- The tokens have the property, and start with one that ends no block. -/
structure Writable (P : Token → Prop) (ts : List Token) : Prop where
  head : ∃ x us, ts = x :: us ∧ x.endsBlock = false
  made : Made P ts

theorem Writable.append {P : Token → Prop} {ts us : List Token} (h : Writable P ts) (hus : Made P us) :
    Writable P (ts ++ us) := by
  obtain ⟨⟨x, ts, rfl, hx⟩, hts⟩ := h
  exact ⟨⟨x, ts ++ us, rfl, hx⟩, made_append.2 ⟨hts, hus⟩⟩

theorem endsBlock_of_isPlainName {name : String} (h : IsPlainName name) :
    (Token.spelled .identifier name).endsBlock = false := by
  rw [Token.endsBlock, Token.spelled]
  simp only [List.any_eq_false, Token.isWord, Bool.and_eq_true, not_and, Bool.not_eq_true]
  intro word hword _
  exact h word hword

section

variable {P : Token → Prop} (hP : Fixed P)

/-- What can be written in a list can be written in parentheses, also if there is nothing to write. -/
theorem exists_parenList {α : Type} {G : Nat → List Token → α → Prop} {n : Nat} {as : List α}
    (hP : Fixed P) (hnil : as = [] → n = 0)
    (h : as ≠ [] → ∃ ts, Made P ts ∧ CommaList G n ts as) : ∃ ts, Made P ts ∧ ParenList G n ts as := by
  cases as with
  | nil =>
      rw [hnil rfl]
      exact ⟨enclosed [], made_nil.enclosed hP, .none rfl rfl⟩
  | cons a as =>
      obtain ⟨ts, hts, hlist⟩ := h (by simp)
      exact ⟨enclosed ts, hts.enclosed hP, .some rfl hlist rfl⟩

namespace Expr

/-- What is shown of an expression: wherever it needs no parentheses, it can be written. -/
def Writes (P : Token → Prop) (e : Expr Unit) : Prop :=
  ∃ ts, Writable P ts ∧ ∀ least, e.looser least = false → Chain Operand least e.links e.nest ts e

theorem Writes.expression {e : Expr Unit} (h : e.Writes P) :
    ∃ ts, Writable P ts ∧ Expression e.nest ts e := by
  obtain ⟨ts, hts, hchain⟩ := h
  refine ⟨ts, hts, .mk (hchain 0 ?_)⟩
  unfold looser
  split <;> simp

theorem writes_operand {e : Expr Unit} {x : Token} {us : List Token} (hx : x.endsBlock = false)
    (hus : Made P (x :: us)) (hlinks : e.links = 0) (h : Operand e.nest (x :: us) e) : e.Writes P := by
  refine ⟨x :: us, ⟨⟨x, us, rfl, hx⟩, hus⟩, fun _ _ => ?_⟩
  rw [hlinks]
  exact .operand h

include hP

/-- Where it needs parentheses, it is written in them. -/
theorem Writes.operand {e : Expr Unit} (h : e.Writes P) (least : Nat) :
    ∃ ts, Writable P ts ∧ Chain Operand least (if e.looser least then 0 else e.links)
      (if e.looser least then e.nest + 1 else e.nest) ts e := by
  cases hl : e.looser least with
  | false =>
      obtain ⟨ts, hts, hchain⟩ := h
      exact ⟨ts, hts, hchain least hl⟩
  | true =>
      obtain ⟨ts, hts, hexpr⟩ := h.expression
      exact ⟨enclosed ts, ⟨⟨_, _, rfl, rfl⟩, hts.made.enclosed hP⟩, .operand (.parens rfl hexpr rfl)⟩

theorem writes_binary {op : BinaryOp} {left right : Expr Unit} (hl : left.Writes P)
    (hr : right.Writes P) : (Expr.binary () op left right).Writes P := by
  obtain ⟨ts, hts, hleft⟩ := hl.operand hP op.power
  obtain ⟨us, hus, hright⟩ := hr.operand hP (op.power + 1)
  refine ⟨ts ++ op.token :: us, hts.append (made_cons.2 ⟨hP.operator op, hus.made⟩), ?_⟩
  intro least hleast
  rw [links, nest]
  refine .link hleft op.token_binaryOp ?_ hright
  simpa [looser] using hleast

mutual

theorem writes_of_printable (e : Expr Unit) (h : e.Printable) (hs : e.Spelled P) : e.Writes P := by
  cases e with
  | identifier _ name =>
      exact writes_operand (endsBlock_of_isPlainName h) (made_singleton.2 hs) rfl
        (@Operand.name (.spelled .identifier name) rfl)
  | literal _ value =>
      cases value with
      | string text =>
          exact writes_operand rfl (made_singleton.2 hs) rfl
            (@Operand.string (.spelled .stringLiteral text) rfl)
      | number text =>
          exact writes_operand rfl (made_singleton.2 hs) rfl
            (@Operand.number (.spelled .numberLiteral text) rfl)
  | binary _ op left right =>
      exact writes_binary hP (writes_of_printable left h.1 hs.1) (writes_of_printable right h.2 hs.2)
  | call _ name args =>
      obtain ⟨ts, hts, hargs⟩ := exists_parenList hP (by rintro rfl; rfl) (writes_args args h.2 hs.2)
      exact writes_operand (endsBlock_of_isPlainName h.1) (made_cons.2 ⟨hs.1, hts⟩) rfl
        (@Operand.call _ (.spelled .identifier name) _ _ rfl hargs)
  | error _ => exact h.elim

theorem writes_args (args : List (Expr Unit)) (h : AllPrintable args) (hs : AllSpelled P args) :
    args ≠ [] → ∃ ts, Made P ts ∧ CommaList Expression (nestAll args) ts args := by
  intro hne
  match args, hne with
  | [e], _ =>
      obtain ⟨ts, hts, hexpr⟩ := (writes_of_printable e h.1 hs.1).expression
      refine ⟨ts, hts.made, ?_⟩
      simpa [nestAll] using CommaList.one hexpr
  | e :: e' :: es, _ =>
      obtain ⟨ts, hts, hexpr⟩ := (writes_of_printable e h.1 hs.1).expression
      obtain ⟨us, hus, hlist⟩ := writes_args (e' :: es) h.2 hs.2 (by simp)
      refine ⟨ts ++ .spelled (.symbol .comma) "," :: us, ?_, .more hexpr rfl hlist⟩
      exact made_append.2 ⟨hts.made, made_cons.2 ⟨hP.mark .comma, hus⟩⟩

end

end Expr

include hP

theorem Variable.exists_commaList {vars : List (Variable Unit)} (hs : ∀ v ∈ vars, v.Spelled P)
    (h : vars ≠ []) : ∃ ts, Made P ts ∧ CommaList Declared 0 ts vars := by
  induction vars with
  | nil => exact absurd rfl h
  | cons v vars ih =>
      obtain ⟨⟨hname, us, hus, htype⟩, hrest⟩ := List.forall_mem_cons.1 hs
      have hv : Declared 0 (.spelled .identifier v.name :: us) v :=
        @Declared.mk (.spelled .identifier v.name) _ _ rfl htype
      have hmade : Made P (.spelled .identifier v.name :: us) := made_cons.2 ⟨hname, hus⟩
      cases vars with
      | nil => exact ⟨_, hmade, .one hv⟩
      | cons v' vars =>
          obtain ⟨ts, hts, hlist⟩ := ih hrest (by simp)
          refine ⟨_ ++ .spelled (.symbol .comma) "," :: ts, ?_, .more hv rfl hlist⟩
          exact made_append.2 ⟨hmade, made_cons.2 ⟨hP.mark .comma, hts⟩⟩

theorem Variable.exists_parenList {vars : List (Variable Unit)} (hs : ∀ v ∈ vars, v.Spelled P) :
    ∃ ts, Made P ts ∧ ParenList Declared 0 ts vars :=
  FourthGen.exists_parenList hP (fun _ => rfl) (Variable.exists_commaList hP hs)

omit hP in
theorem gap_lineFeed : Grammar.Gap 1 [lineFeed] :=
  ⟨Nat.le_refl _, by simp [lineFeed, Token.spelled, TokenKind.isSeparator]⟩

/-- Pieces that can be written can be written below each other. -/
theorem Grammar.Lines.exists_cons {α : Type} {G : Nat → List Token → α → Prop} {n m : Nat} {a : α}
    {as : List α} (h : ∃ ts, Made P ts ∧ G n ts a) (hs : ∃ ts, Made P ts ∧ Lines 1 G m ts as) :
    ∃ ts, Made P ts ∧ Lines 1 G (max n m) ts (a :: as) := by
  obtain ⟨ts, hts, ha⟩ := h
  obtain ⟨us, hus, has⟩ := hs
  refine ⟨ts ++ ([lineFeed] ++ us), ?_, .cons ha gap_lineFeed has⟩
  simp only [made_append, made_singleton]
  exact ⟨hts, hP.lineFeed, hus⟩

theorem Grammar.Block.exists_of_lines {n : Nat} {body : List (Stmt Unit)}
    (h : ∃ ts, Made P ts ∧ Lines 1 (Statement 1) n ts body) :
    ∃ ts, Made P ts ∧ Block 1 (Statement 1) (n + 1) ts body := by
  obtain ⟨ts, hts, hlines⟩ := h
  refine ⟨[lineFeed] ++ ts, ?_, .mk gap_lineFeed hlines⟩
  exact made_append.2 ⟨made_singleton.2 hP.lineFeed, hts⟩

namespace Stmt

/-- The statement can be written. -/
def Writes (P : Token → Prop) (s : Stmt Unit) : Prop := ∃ ts, Made P ts ∧ Statement 1 s.nest ts s

theorem writes_conditional {condition : Expr Unit} {thenBlock elseBlock : List (Stmt Unit)}
    (hc : condition.Writes P)
    (ht : ∃ ts, Made P ts ∧ Lines 1 (Statement 1) (nestAll thenBlock) ts thenBlock)
    (hd : ∃ ts, Made P ts ∧ Lines 1 (Statement 1) (nestAll elseBlock) ts elseBlock) :
    (Stmt.conditional () condition thenBlock elseBlock).Writes P := by
  obtain ⟨ts, hts, hexpr⟩ := hc.expression
  obtain ⟨us, hus, hthen⟩ := Block.exists_of_lines hP ht
  have hend : CompoundEnd .conditional [.spelled (.keyword .ENDIF) "ENDIF"] := .short rfl
  cases elseBlock with
  | nil =>
      refine ⟨.spelled (.keyword .IF) "IF" :: (ts ++ .spelled (.keyword .THEN) "THEN" :: (us ++ _)), ?_,
        .ifThen rfl hexpr rfl hthen hend⟩
      simp only [made_cons, made_append]
      exact ⟨hP.keyword .IF, hts.made, hP.keyword .THEN, hus, hP.keyword .ENDIF, made_nil⟩
  | cons stmt rest =>
      obtain ⟨vs, hvs, helse⟩ := Block.exists_of_lines hP hd
      refine ⟨.spelled (.keyword .IF) "IF" :: (ts ++ .spelled (.keyword .THEN) "THEN" ::
          (us ++ .spelled (.keyword .ELSE) "ELSE" :: (vs ++ _))), ?_,
        .ifThenElse rfl hexpr rfl hthen rfl helse hend⟩
      simp only [made_cons, made_append]
      exact ⟨hP.keyword .IF, hts.made, hP.keyword .THEN, hus, hP.keyword .ELSE, hvs,
        hP.keyword .ENDIF, made_nil⟩

theorem writes_whileLoop {condition : Expr Unit} {body : List (Stmt Unit)} (hc : condition.Writes P)
    (hb : ∃ ts, Made P ts ∧ Lines 1 (Statement 1) (nestAll body) ts body) :
    (Stmt.whileLoop () condition body).Writes P := by
  obtain ⟨ts, hts, hexpr⟩ := hc.expression
  obtain ⟨us, hus, hblock⟩ := Block.exists_of_lines hP hb
  refine ⟨.spelled (.keyword .WHILE) "WHILE" ::
      (ts ++ (us ++ [.spelled (.keyword .ENDWHILE) "ENDWHILE"])), ?_,
    .whileLoop rfl hexpr hblock (.short rfl)⟩
  simp only [made_cons, made_append]
  exact ⟨hP.keyword .WHILE, hts.made, hus, hP.keyword .ENDWHILE, made_nil⟩

theorem writes_forLoop {body : List (Stmt Unit)}
    (hb : ∃ ts, Made P ts ∧ Lines 1 (Statement 1) (nestAll body) ts body) :
    (Stmt.forLoop () body).Writes P := by
  obtain ⟨us, hus, hblock⟩ := Block.exists_of_lines hP hb
  refine ⟨.spelled (.keyword .FOR) "FOR" :: ([] ++ (us ++ [.spelled (.keyword .ENDFOR) "ENDFOR"])), ?_,
    .forLoop rfl (by simp [InLine]) hblock (.short rfl)⟩
  simp only [made_cons, made_append]
  exact ⟨hP.keyword .FOR, made_nil, hus, hP.keyword .ENDFOR, made_nil⟩

theorem writes_giveBack {value : Expr Unit} (h : value.Writes P) :
    (Stmt.giveBack () (some value)).Writes P := by
  obtain ⟨_, ⟨⟨x, us, rfl, hx⟩, hmade⟩, hexpr⟩ := h.expression
  exact ⟨.spelled (.keyword .RETURN) "RETURN" :: x :: us,
    made_cons.2 ⟨hP.keyword .RETURN, hmade⟩, .giveBack rfl hx hexpr⟩

omit hP in
theorem writes_expression {value : Expr Unit} (h : value.Writes P) :
    (Stmt.expression () value).Writes P := by
  obtain ⟨_, ⟨⟨x, us, rfl, hx⟩, hmade⟩, hexpr⟩ := h.expression
  exact ⟨x :: us, hmade, .expression hx hexpr⟩

mutual

theorem writes_of_printable (s : Stmt Unit) (h : s.Printable) (hs : s.Spelled P) : s.Writes P := by
  cases s with
  | define _ vars =>
      obtain ⟨ts, hts, hlist⟩ := Variable.exists_commaList hP hs h
      exact ⟨.spelled (.keyword .DEFINE) "DEFINE" :: ts, made_cons.2 ⟨hP.keyword .DEFINE, hts⟩,
        .define rfl hlist⟩
  | assign _ target value =>
      obtain ⟨ts, hts, hexpr⟩ := (Expr.writes_of_printable hP value h hs.2).expression
      refine ⟨.spelled (.keyword .LET) "LET" :: .spelled .identifier target ::
        .spelled (.symbol .assign) "=" :: ts, ?_, @Statement.assign 1 _ _ (.spelled .identifier target)
          _ _ _ rfl rfl rfl hexpr⟩
      simp only [made_cons]
      exact ⟨hP.keyword .LET, hs.1, hP.mark .assign, hts.made⟩
  | conditional _ condition thenBlock elseBlock =>
      exact writes_conditional hP (Expr.writes_of_printable hP condition h.1 hs.1)
        (lines_of_printable thenBlock h.2.1 hs.2.1) (lines_of_printable elseBlock h.2.2 hs.2.2)
  | whileLoop _ condition body =>
      exact writes_whileLoop hP (Expr.writes_of_printable hP condition h.1 hs.1)
        (lines_of_printable body h.2 hs.2)
  | forLoop _ body => exact writes_forLoop hP (lines_of_printable body h hs)
  | call _ name args =>
      obtain ⟨ts, hts, hargs⟩ :=
        exists_parenList hP (by rintro rfl; rfl) (Expr.writes_args hP args h hs.2)
      refine ⟨.spelled (.keyword .CALL) "CALL" :: .spelled .identifier name :: ts, ?_,
        @Statement.call 1 _ _ (.spelled .identifier name) _ _ rfl rfl hargs⟩
      simp only [made_cons]
      exact ⟨hP.keyword .CALL, hs.1, hts⟩
  | giveBack _ value =>
      cases value with
      | none =>
          exact ⟨[.spelled (.keyword .RETURN) "RETURN"], made_singleton.2 (hP.keyword .RETURN),
            .giveBackNothing rfl⟩
      | some value => exact writes_giveBack hP (Expr.writes_of_printable hP value h hs)
  | sql _ kind =>
      exact ⟨[.spelled (.keyword kind.opener) kind.opener.spelling],
        made_singleton.2 (hP.keyword kind.opener), .sql rfl (by simp [InLine])⟩
  | expression _ value => exact writes_expression (Expr.writes_of_printable hP value h hs)

theorem lines_of_printable (ss : List (Stmt Unit)) (h : AllPrintable ss) (hs : AllSpelled P ss) :
    ∃ ts, Made P ts ∧ Lines 1 (Statement 1) (nestAll ss) ts ss := by
  match ss with
  | [] => exact ⟨[], made_nil, .nil⟩
  | s :: ss =>
      exact Lines.exists_cons hP (writes_of_printable s h.1 hs.1) (lines_of_printable ss h.2 hs.2)

end

end Stmt

namespace Item

theorem exists_topLevel (item : Item Unit) (h : item.Printable) (hs : item.Spelled P) :
    ∃ ts, Made P ts ∧ TopLevel 1 item.nest ts item := by
  cases item with
  | function _ name params returns body =>
      obtain ⟨hname, hps, htype, hbody⟩ := hs
      obtain ⟨ps, hps, hparams⟩ := Variable.exists_parenList hP hps
      obtain ⟨us, hus, hblock⟩ := Block.exists_of_lines hP (Stmt.lines_of_printable hP body h hbody)
      obtain ⟨rs, hrs, hreturns⟩ : ∃ rs, Made P rs ∧ Returning rs returns := by
        cases returns with
        | none => exact ⟨[], made_nil, .none⟩
        | some type =>
            obtain ⟨ts, hts, htype⟩ := htype type rfl
            exact ⟨.spelled .identifier "RETURNING" :: ts, made_cons.2 ⟨hP.returning, hts⟩,
              .some (by decide) htype⟩
      refine ⟨.spelled (.keyword .FUNCTION) "FUNCTION" :: .spelled .identifier name ::
          (ps ++ (rs ++ (us ++ [.spelled .identifier "END"]))), ?_,
        @TopLevel.function 1 _ _ _ (.spelled .identifier name) _ _ _ _ _ _ _ rfl rfl hparams hreturns
          hblock (.short (by decide))⟩
      simp only [made_cons, made_append]
      exact ⟨hP.keyword .FUNCTION, hname, hps, hrs, hus, hP.closing, made_nil⟩
  | procedure _ name params body =>
      obtain ⟨hname, hps, hbody⟩ := hs
      obtain ⟨ps, hps, hparams⟩ := Variable.exists_parenList hP hps
      obtain ⟨us, hus, hblock⟩ := Block.exists_of_lines hP (Stmt.lines_of_printable hP body h hbody)
      refine ⟨.spelled (.keyword .PROCEDURE) "PROCEDURE" :: .spelled .identifier name ::
          (ps ++ (us ++ [.spelled .identifier "END"])), ?_,
        @TopLevel.procedure 1 _ _ _ (.spelled .identifier name) _ _ _ _ _ rfl rfl hparams hblock
          (.short (by decide))⟩
      simp only [made_cons, made_append]
      exact ⟨hP.keyword .PROCEDURE, hname, hps, hus, hP.closing, made_nil⟩
  | statement stmt =>
      obtain ⟨ts, hts, hstmt⟩ := Stmt.writes_of_printable hP stmt h hs
      exact ⟨ts, hts, .statement hstmt⟩

theorem exists_lines (items : List (Item Unit)) (h : ∀ i ∈ items, i.Printable)
    (hs : ∀ i ∈ items, i.Spelled P) :
    ∃ ts, Made P ts ∧ Lines 1 (TopLevel 1) (nestAll items) ts items := by
  induction items with
  | nil => exact ⟨[], made_nil, .nil⟩
  | cons i is ih =>
      rw [List.forall_mem_cons] at h hs
      exact Lines.exists_cons hP (exists_topLevel hP i h.1 hs.1) (ih h.2 hs.2)

theorem exists_program (items : List (Item Unit)) (h : ∀ i ∈ items, i.Printable)
    (hs : ∀ i ∈ items, i.Spelled P) :
    ∃ ts, Made P ts ∧ Program 1 (nestAll items) ts items := by
  obtain ⟨ts, hts, hlines⟩ := exists_lines hP items h hs
  exact ⟨ts, hts, @Program.mk 1 [] _ _ _ ⟨Nat.le_refl _, by simp⟩ hlines⟩

end Item

end

/-! ## The round trip -/

/-- What is written down is parsed back. First, for all tokens that the grammar derives with
    separators behind every header, statement and closing word, and within the levels of nesting that
    there are: the parse has no errors and yields the derived items. Second, all printable items have
    such tokens, with just the levels of nesting of the items. Third, if the names, types and literals
    can stand in a text, then so can all these tokens: a type with sizes is its type word, and the sizes
    between parentheses. -/
theorem parse_rendering :
    (∀ (n : Nat) (tokens : List Token) (eof : Token) (items : List (Item Unit)), eof.kind = .eof →
      (∀ t ∈ tokens, t.kind ≠ .eof) → Program 1 n tokens items → n ≤ maxNesting →
      (parseTokens (tokens ++ [eof])).errors = [] ∧
        (parseTokens (tokens ++ [eof])).items.map Item.shape = items) ∧
    (∀ items : List (Item Unit), (∀ i ∈ items, i.Printable) →
      ∃ tokens, (∀ t ∈ tokens, t.kind ≠ .eof) ∧ Program 1 (Item.nestAll items) tokens items) ∧
    ∀ items : List (Item Unit), (∀ i ∈ items, i.Printable) → (∀ i ∈ items, i.Spelled Token.Lexed) →
      ∃ tokens, (∀ t ∈ tokens, t.Lexed) ∧ Program 1 (Item.nestAll items) tokens items := by
  refine ⟨fun n tokens eof items he hts h hn => parseTokens_complete hts he hn h, ?_, ?_⟩
  · intro items h
    exact Item.exists_program fixed_ne_eof items h fun i _ => i.spelled_ne_eof
  · intro items h hs
    exact Item.exists_program fixed_lexed items h hs

/-- A function with sized types, and a loop whose condition needs parentheses. -/
theorem parse_rendering_loop :
    let items : List (Item Unit) := [.function () "f" [⟨(), "a", "DECIMAL(8,2)"⟩] (some "CHAR(9)")
      [.whileLoop () (.binary () .and (.binary () .or (.identifier () "a") (.identifier () "b"))
        (.call () "g" [.literal () (.number "1")])) [.giveBack () none]]]
    ∃ tokens, (∀ t ∈ tokens, t.Lexed) ∧ (parseTokens (tokens ++ [eofOf ""])).errors = [] ∧
      (parseTokens (tokens ++ [eofOf ""])).items.map Item.shape = items := by
  intro items
  have hprintable : ∀ i ∈ items, i.Printable := by
    simp only [items, List.mem_singleton, forall_eq, Item.Printable, Stmt.AllPrintable,
      Stmt.Printable, Expr.Printable, Expr.AllPrintable, IsPlainName]
    decide
  have hdecimal : TypeSpelled Token.Lexed "DECIMAL(8,2)" :=
    @typeSpelled_sized _ (.spelled (.keyword .DECIMAL) "DECIMAL") fixed_lexed rfl (fixed_lexed.keyword _)
      ["8", "2"] (by decide) (by decide +kernel)
  have hchar : TypeSpelled Token.Lexed "CHAR(9)" :=
    @typeSpelled_sized _ (.spelled (.keyword .CHAR) "CHAR") fixed_lexed rfl (fixed_lexed.keyword _)
      ["9"] (by decide) (by decide +kernel)
  have hspelled : ∀ i ∈ items, i.Spelled Token.Lexed := by
    simp only [items, List.mem_singleton, forall_eq, Item.Spelled, Stmt.AllSpelled, Stmt.Spelled,
      Expr.Spelled, Expr.AllSpelled, Variable.Spelled, Option.mem_some, forall_eq', and_true]
    exact ⟨by decide +kernel, ⟨by decide +kernel, hdecimal⟩, hchar, by decide +kernel⟩
  obtain ⟨tokens, hts, h⟩ := parse_rendering.2.2 items hprintable hspelled
  exact ⟨tokens, hts, parse_rendering.1 _ tokens (eofOf "") items rfl (fun t ht => (hts t ht).1) h
    (by decide)⟩

end FourthGen
