import FourthGen.Proofs.Parser.Simulation

set_option autoImplicit false

/-! # Trees that are rewritten

Two texts that are alike have trees that are alike, node by node. Where one of two things that stand
for each other determines the other, this is an equation: the one tree is the other with its ranges,
names and literals rewritten (`Likeness.ItemLike.rewrite_eq`). -/

namespace FourthGen

/-- What is put for the ranges, placeholders, words and string literals of a tree. The words are the
    names, types and numbers. -/
structure Rewriting (ρ σ : Type) where
  range : ρ → σ
  hole : ρ → σ
  word : String → String
  string : String → String

/-- Puts other ranges and leaves all else. -/
def Rewriting.ofRange {ρ σ : Type} (f : ρ → σ) : Rewriting ρ σ := ⟨f, f, id, id⟩

section

variable {ρ σ : Type}

/-- The literal rewritten. -/
def Literal.rewrite (w : Rewriting ρ σ) : Literal → Literal
  | string text => string (w.string text)
  | number text => number (w.word text)

mutual

/-- The expression rewritten. -/
def Expr.rewrite (w : Rewriting ρ σ) : Expr ρ → Expr σ
  | .identifier range name => .identifier (w.range range) (w.word name)
  | .literal range value => .literal (w.range range) (value.rewrite w)
  | .binary range op left right => .binary (w.range range) op (left.rewrite w) (right.rewrite w)
  | .call range name args => .call (w.range range) (w.word name) (Expr.rewriteAll w args)
  | .error range => .error (w.hole range)

/-- `Expr.rewrite` on every expression of a list. -/
def Expr.rewriteAll (w : Rewriting ρ σ) : List (Expr ρ) → List (Expr σ)
  | [] => []
  | e :: es => e.rewrite w :: Expr.rewriteAll w es

end

/-- The variable rewritten. -/
def Variable.rewrite (w : Rewriting ρ σ) (v : Variable ρ) : Variable σ :=
  ⟨w.range v.range, w.word v.name, w.word v.type⟩

mutual

/-- The statement rewritten. -/
def Stmt.rewrite (w : Rewriting ρ σ) : Stmt ρ → Stmt σ
  | .define range vars => .define (w.range range) (vars.map (Variable.rewrite w))
  | .assign range target value => .assign (w.range range) (w.word target) (value.rewrite w)
  | .conditional range condition thenBlock elseBlock =>
    .conditional (w.range range) (condition.rewrite w) (Stmt.rewriteAll w thenBlock)
      (Stmt.rewriteAll w elseBlock)
  | .whileLoop range condition body =>
    .whileLoop (w.range range) (condition.rewrite w) (Stmt.rewriteAll w body)
  | .forLoop range body => .forLoop (w.range range) (Stmt.rewriteAll w body)
  | .call range name args => .call (w.range range) (w.word name) (args.map (Expr.rewrite w))
  | .giveBack range value => .giveBack (w.range range) (value.map (Expr.rewrite w))
  | .sql range kind => .sql (w.range range) kind
  | .expression range value => .expression (w.range range) (value.rewrite w)

/-- `Stmt.rewrite` on every statement of a block. -/
def Stmt.rewriteAll (w : Rewriting ρ σ) : List (Stmt ρ) → List (Stmt σ)
  | [] => []
  | s :: ss => s.rewrite w :: Stmt.rewriteAll w ss

end

/-- The item rewritten. -/
def Item.rewrite (w : Rewriting ρ σ) : Item ρ → Item σ
  | function range name params returns body =>
    function (w.range range) (w.word name) (params.map (Variable.rewrite w)) (returns.map w.word)
      (body.map (Stmt.rewrite w))
  | procedure range name params body =>
    procedure (w.range range) (w.word name) (params.map (Variable.rewrite w))
      (body.map (Stmt.rewrite w))
  | statement stmt => statement (stmt.rewrite w)

/-! ## Other ranges -/

mutual

theorem Expr.rewrite_ofRange (f : ρ → σ) (e : Expr ρ) : e.rewrite (.ofRange f) = e.map f := by
  cases e with
  | identifier range name => rfl
  | literal range value => cases value <;> rfl
  | binary range op left right =>
      rw [Expr.rewrite, Expr.map, Expr.rewrite_ofRange f left, Expr.rewrite_ofRange f right]
      rfl
  | call range name args =>
      rw [Expr.rewrite, Expr.map, Expr.rewriteAll_ofRange f args]
      rfl
  | error range => rfl

theorem Expr.rewriteAll_ofRange (f : ρ → σ) (es : List (Expr ρ)) :
    Expr.rewriteAll (.ofRange f) es = Expr.mapAll f es := by
  cases es with
  | nil => rfl
  | cons e es =>
      rw [Expr.rewriteAll, Expr.mapAll, Expr.rewrite_ofRange f e, Expr.rewriteAll_ofRange f es]

end

theorem Variable.rewrite_ofRange (f : ρ → σ) : Variable.rewrite (.ofRange f) = Variable.map f := rfl

mutual

theorem Stmt.rewrite_ofRange (f : ρ → σ) (s : Stmt ρ) : s.rewrite (.ofRange f) = s.map f := by
  have hexpr : Expr.rewrite (.ofRange f) = Expr.map f := funext (Expr.rewrite_ofRange f)
  cases s with
  | define range vars => rfl
  | assign range target value => rw [Stmt.rewrite, Stmt.map, hexpr]; rfl
  | conditional range condition thenBlock elseBlock =>
      rw [Stmt.rewrite, Stmt.map, hexpr, Stmt.rewriteAll_ofRange f thenBlock,
        Stmt.rewriteAll_ofRange f elseBlock]
      rfl
  | whileLoop range condition body =>
      rw [Stmt.rewrite, Stmt.map, hexpr, Stmt.rewriteAll_ofRange f body]
      rfl
  | forLoop range body =>
      rw [Stmt.rewrite, Stmt.map, Stmt.rewriteAll_ofRange f body]
      rfl
  | call range name args => rw [Stmt.rewrite, Stmt.map, hexpr]; rfl
  | giveBack range value => rw [Stmt.rewrite, Stmt.map, hexpr]; rfl
  | sql range kind => rfl
  | expression range value => rw [Stmt.rewrite, Stmt.map, hexpr]; rfl

theorem Stmt.rewriteAll_ofRange (f : ρ → σ) (ss : List (Stmt ρ)) :
    Stmt.rewriteAll (.ofRange f) ss = Stmt.mapAll f ss := by
  cases ss with
  | nil => rfl
  | cons s ss =>
      rw [Stmt.rewriteAll, Stmt.mapAll, Stmt.rewrite_ofRange f s, Stmt.rewriteAll_ofRange f ss]

end

/-- To put other ranges is to map the annotations. -/
theorem Item.rewrite_ofRange (f : ρ → σ) (i : Item ρ) : i.rewrite (.ofRange f) = i.map f := by
  have hstmt : Stmt.rewrite (.ofRange f) = Stmt.map f := funext (Stmt.rewrite_ofRange f)
  cases i with
  | function range name params returns body =>
      rw [Item.rewrite, Item.map, hstmt, Variable.rewrite_ofRange]
      cases returns <;> rfl
  | procedure range name params body =>
      rw [Item.rewrite, Item.map, hstmt, Variable.rewrite_ofRange]
      rfl
  | statement stmt => rw [Item.rewrite, Item.map, Stmt.rewrite_ofRange]

end

/-! ## Trees that are alike -/

namespace Likeness

/-- What stands for each other is rewritten to the same. -/
structure Rewrites (L : Likeness) {ρ : Type} (w w' : Rewriting Range ρ) : Prop where
  range : ∀ {r r'}, L.range r r' → w'.range r' = w.range r
  hole : ∀ {r r'}, L.hole r r' → w'.hole r' = w.hole r
  word : ∀ {t t'}, L.text t t' → w'.word t' = w.word t
  string : ∀ {t t'}, L.quoted t t' → w'.string t' = w.string t

/-- Lists whose members have the same images. -/
theorem map_eq_of_forall₂ {α β γ : Type} {V : α → β → Prop} {k : α → γ} {k' : β → γ}
    (hV : ∀ a b, V a b → k' b = k a) {as : List α} {bs : List β} (h : List.Forall₂ V as bs) :
    bs.map k' = as.map k := by
  induction h with
  | nil => rfl
  | cons hab _ ih => rw [List.map_cons, List.map_cons, hV _ _ hab, ih]

variable {L : Likeness} {ρ : Type} {w w' : Rewriting Range ρ}

mutual

theorem ExprLike.rewrite_eq (hL : L.Rewrites w w') {e e' : Expr Range} (h : L.ExprLike e e') :
    e'.rewrite w' = e.rewrite w := by
  cases h with
  | identifier hr hn => rw [Expr.rewrite, Expr.rewrite, hL.range hr, hL.word hn]
  | string hr ht =>
      rw [Expr.rewrite, Expr.rewrite, Literal.rewrite, Literal.rewrite, hL.range hr, hL.string ht]
  | number hr ht =>
      rw [Expr.rewrite, Expr.rewrite, Literal.rewrite, Literal.rewrite, hL.range hr, hL.word ht]
  | binary hr hleft hright =>
      rw [Expr.rewrite, Expr.rewrite, hL.range hr, ExprLike.rewrite_eq hL hleft,
        ExprLike.rewrite_eq hL hright]
  | call hr hn hargs =>
      rw [Expr.rewrite, Expr.rewrite, hL.range hr, hL.word hn, rewriteAll_exprLike hL hargs]

theorem rewriteAll_exprLike (hL : L.Rewrites w w') {es es' : List (Expr Range)}
    (h : List.Forall₂ L.ExprLike es es') : Expr.rewriteAll w' es' = Expr.rewriteAll w es := by
  cases h with
  | nil => rfl
  | cons he hes =>
      rw [Expr.rewriteAll, Expr.rewriteAll, ExprLike.rewrite_eq hL he, rewriteAll_exprLike hL hes]

end

theorem ValueLike.rewrite_eq (hL : L.Rewrites w w') {e e' : Expr Range} (h : L.ValueLike e e') :
    e'.rewrite w' = e.rewrite w := by
  cases h with
  | expr he => exact he.rewrite_eq hL
  | hole hr => rw [Expr.rewrite, Expr.rewrite, hL.hole hr]

theorem map_varLike (hL : L.Rewrites w w') {vs vs' : List (Variable Range)}
    (h : List.Forall₂ L.VarLike vs vs') :
    vs'.map (Variable.rewrite w') = vs.map (Variable.rewrite w) := by
  refine map_eq_of_forall₂ ?_ h
  rintro v v' ⟨hr, hn, ht⟩
  rw [Variable.rewrite, Variable.rewrite, hL.range hr, hL.word hn, hL.word ht]

mutual

theorem StmtLike.rewrite_eq (hL : L.Rewrites w w') {s s' : Stmt Range} (h : L.StmtLike s s') :
    s'.rewrite w' = s.rewrite w := by
  cases h with
  | define hr hv => rw [Stmt.rewrite, Stmt.rewrite, hL.range hr, map_varLike hL hv]
  | assign hr hn he => rw [Stmt.rewrite, Stmt.rewrite, hL.range hr, hL.word hn, he.rewrite_eq hL]
  | conditional hr he hts hes =>
      rw [Stmt.rewrite, Stmt.rewrite, hL.range hr, he.rewrite_eq hL, rewriteAll_stmtLike hL hts,
        rewriteAll_stmtLike hL hes]
  | whileLoop hr he hb =>
      rw [Stmt.rewrite, Stmt.rewrite, hL.range hr, he.rewrite_eq hL, rewriteAll_stmtLike hL hb]
  | forLoop hr hb => rw [Stmt.rewrite, Stmt.rewrite, hL.range hr, rewriteAll_stmtLike hL hb]
  | call hr hn hargs =>
      rw [Stmt.rewrite, Stmt.rewrite, hL.range hr, hL.word hn,
        map_eq_of_forall₂ (fun _ _ he => he.rewrite_eq hL) hargs]
  | giveBackNothing hr =>
      rw [Stmt.rewrite, Stmt.rewrite, hL.range hr, Option.map_none, Option.map_none]
  | giveBack hr he =>
      rw [Stmt.rewrite, Stmt.rewrite, hL.range hr, Option.map_some, Option.map_some,
        he.rewrite_eq hL]
  | sql hr => rw [Stmt.rewrite, Stmt.rewrite, hL.range hr]
  | expression hr he => rw [Stmt.rewrite, Stmt.rewrite, hL.range hr, he.rewrite_eq hL]

theorem rewriteAll_stmtLike (hL : L.Rewrites w w') {ss ss' : List (Stmt Range)}
    (h : List.Forall₂ L.StmtLike ss ss') : Stmt.rewriteAll w' ss' = Stmt.rewriteAll w ss := by
  cases h with
  | nil => rfl
  | cons hs hss =>
      rw [Stmt.rewriteAll, Stmt.rewriteAll, StmtLike.rewrite_eq hL hs, rewriteAll_stmtLike hL hss]

end

theorem map_stmtLike (hL : L.Rewrites w w') {ss ss' : List (Stmt Range)}
    (h : List.Forall₂ L.StmtLike ss ss') : ss'.map (Stmt.rewrite w') = ss.map (Stmt.rewrite w) :=
  map_eq_of_forall₂ (fun _ _ hs => hs.rewrite_eq hL) h

theorem map_rel_text (hL : L.Rewrites w w') {o o' : Option String} (h : Option.Rel L.text o o') :
    o'.map w'.word = o.map w.word := by
  cases h with
  | none => rfl
  | some ht => rw [Option.map_some, Option.map_some, hL.word ht]

/-- Items that stand for each other are rewritten to the same. -/
theorem ItemLike.rewrite_eq (hL : L.Rewrites w w') {i i' : Item Range} (h : L.ItemLike i i') :
    i'.rewrite w' = i.rewrite w := by
  cases h with
  | function hr hn hp ht hb =>
      rw [Item.rewrite, Item.rewrite, hL.range hr, hL.word hn, map_varLike hL hp,
        map_rel_text hL ht, map_stmtLike hL hb]
  | procedure hr hn hp hb =>
      rw [Item.rewrite, Item.rewrite, hL.range hr, hL.word hn, map_varLike hL hp,
        map_stmtLike hL hb]
  | statement h => rw [Item.rewrite, Item.rewrite, h.rewrite_eq hL]

end Likeness

end FourthGen
