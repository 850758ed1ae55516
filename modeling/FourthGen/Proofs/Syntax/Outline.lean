import FourthGen.Proofs.Token.Lexer
import FourthGen.Syntax.Tree

set_option autoImplicit false

/-! # Outlines of syntax trees

The ranges of a syntax tree form a tree of their own, its outline, in which placeholders for missing
expressions have no part. An outline is well nested over a list of tokens if every range goes from the
start of a token to the end of one, siblings follow each other, and children lie within their parent.
How outlines are put together is told for tokens in the order of the text: outlines over one stretch
of tokens and over the next stand side by side (`Fits.append`), and a node that goes from the first
token of a stretch to its last one encloses all outlines over it (`Fits.node`). -/

namespace FourthGen

/-! ## Outlines -/

/-- The ranges of a tree. -/
inductive Outline where
  | node (range : Range) (children : List Outline)

/-- The range of the whole tree. -/
def Outline.range : Outline → Range
  | node range _ => range

mutual

/-- The ranges of an expression; a placeholder has none. -/
def Expr.outline : Expr Range → List Outline
  | .identifier range _ => [.node range []]
  | .literal range _ => [.node range []]
  | .binary range _ left right => [.node range (left.outline ++ right.outline)]
  | .call range _ args => [.node range (Expr.outlineAll args)]
  | .error _ => []

/-- The ranges of several expressions. -/
def Expr.outlineAll : List (Expr Range) → List Outline
  | [] => []
  | e :: es => e.outline ++ Expr.outlineAll es

end

theorem Expr.outlineAll_eq_flatMap (es : List (Expr Range)) :
    Expr.outlineAll es = es.flatMap Expr.outline := by
  induction es with
  | nil => rfl
  | cons e es ih => rw [Expr.outlineAll, ih, List.flatMap_cons]

/-- The range of a parameter or a variable. -/
def Variable.outline (v : Variable Range) : Outline := .node v.range []

mutual

/-- The ranges of a statement, with its parts in the order of the text. -/
def Stmt.outline : Stmt Range → Outline
  | .define range vars => .node range (vars.map Variable.outline)
  | .assign range _ value => .node range value.outline
  | .conditional range condition thenBlock elseBlock =>
    .node range (condition.outline ++ (Stmt.outlineAll thenBlock ++ Stmt.outlineAll elseBlock))
  | .whileLoop range condition body => .node range (condition.outline ++ Stmt.outlineAll body)
  | .forLoop range body => .node range (Stmt.outlineAll body)
  | .call range _ args => .node range (args.flatMap Expr.outline)
  | .giveBack range none => .node range []
  | .giveBack range (some value) => .node range value.outline
  | .sql range _ => .node range []
  | .expression range value => .node range value.outline

/-- The ranges of the statements of a block. -/
def Stmt.outlineAll : List (Stmt Range) → List Outline
  | [] => []
  | s :: ss => s.outline :: Stmt.outlineAll ss

end

theorem Stmt.outlineAll_eq_map (ss : List (Stmt Range)) :
    Stmt.outlineAll ss = ss.map Stmt.outline := by
  induction ss with
  | nil => rfl
  | cons s ss ih => rw [Stmt.outlineAll, ih, List.map_cons]

/-- The ranges of an item. -/
def Item.outline : Item Range → Outline
  | .function range _ params _ body => .node range (params.map Variable.outline ++ body.map Stmt.outline)
  | .procedure range _ params body => .node range (params.map Variable.outline ++ body.map Stmt.outline)
  | .statement stmt => stmt.outline

/-! ## Placeholders -/

mutual

/-- There is no placeholder in the expression. -/
def Expr.Whole : Expr Range → Prop
  | .identifier _ _ => True
  | .literal _ _ => True
  | .binary _ _ left right => left.Whole ∧ right.Whole
  | .call _ _ args => Expr.AllWhole args
  | .error _ => False

/-- There is no placeholder in any of the expressions. -/
def Expr.AllWhole : List (Expr Range) → Prop
  | [] => True
  | e :: es => e.Whole ∧ Expr.AllWhole es

end

theorem Expr.allWhole_iff {es : List (Expr Range)} : Expr.AllWhole es ↔ ∀ e ∈ es, e.Whole := by
  induction es with
  | nil => simp [Expr.AllWhole]
  | cons e es ih => rw [Expr.AllWhole, ih, List.forall_mem_cons]

/-- The expression is a placeholder, or there is none in it. -/
def Expr.WholeOrHole (e : Expr Range) : Prop := e.Whole ∨ ∃ range, e = .error range

mutual

/-- Placeholders stand only for conditions, for assigned values and for returned ones. -/
def Stmt.HolesInPlace : Stmt Range → Prop
  | .define _ _ => True
  | .assign _ _ value => value.WholeOrHole
  | .conditional _ condition thenBlock elseBlock =>
    condition.WholeOrHole ∧ Stmt.AllHolesInPlace thenBlock ∧ Stmt.AllHolesInPlace elseBlock
  | .whileLoop _ condition body => condition.WholeOrHole ∧ Stmt.AllHolesInPlace body
  | .forLoop _ body => Stmt.AllHolesInPlace body
  | .call _ _ args => ∀ e ∈ args, e.Whole
  | .giveBack _ none => True
  | .giveBack _ (some value) => value.WholeOrHole
  | .sql _ _ => True
  | .expression _ value => value.Whole

/-- The same for all statements of a block. -/
def Stmt.AllHolesInPlace : List (Stmt Range) → Prop
  | [] => True
  | s :: ss => s.HolesInPlace ∧ Stmt.AllHolesInPlace ss

end

theorem Stmt.allHolesInPlace_iff {ss : List (Stmt Range)} :
    Stmt.AllHolesInPlace ss ↔ ∀ s ∈ ss, s.HolesInPlace := by
  induction ss with
  | nil => simp [Stmt.AllHolesInPlace]
  | cons s ss ih => rw [Stmt.AllHolesInPlace, ih, List.forall_mem_cons]

/-- Placeholders stand in an item only where they may in its statements. -/
def Item.HolesInPlace : Item Range → Prop
  | .function _ _ _ _ body => ∀ s ∈ body, s.HolesInPlace
  | .procedure _ _ _ body => ∀ s ∈ body, s.HolesInPlace
  | .statement stmt => stmt.HolesInPlace

/-- The outline of an expression without placeholders is one tree, of which parentheses around the
    expression change the range only. -/
theorem Expr.Whole.outline_eq {e : Expr Range} (h : e.Whole) :
    ∃ children, e.outline = [.node e.range children] ∧
      ∀ range, (e.withRange range).outline = [.node range children] := by
  cases e with
  | identifier _ _ => exact ⟨[], rfl, fun _ => rfl⟩
  | literal _ _ => exact ⟨[], rfl, fun _ => rfl⟩
  | binary _ _ left right => exact ⟨left.outline ++ right.outline, rfl, fun _ => rfl⟩
  | call _ _ args => exact ⟨outlineAll args, rfl, fun _ => rfl⟩
  | error _ => exact absurd h (by simp [Whole])

theorem Expr.Whole.withRange {e : Expr Range} (h : e.Whole) (range : Range) :
    (e.withRange range).Whole := by
  cases e <;> exact h

/-! ## Well nested outlines -/

/-- The range goes from the start of a token to the end of one that is no separator. -/
def AlignedTo (tokens : List Token) (r : Range) : Prop :=
  (∃ t ∈ tokens, r.start = t.start) ∧
    (∃ t ∈ tokens, t.kind.isSeparator = false ∧ r.stop = t.stop) ∧ r.start < r.stop

/-- The outlines follow each other. -/
def Outline.InTurn (os : List Outline) : Prop := os.Pairwise fun a b => a.range.stop ≤ b.range.start

/-- All ranges are aligned to tokens, children lie within their parent, and siblings follow each
    other. -/
inductive Outline.WellNested (tokens : List Token) : Outline → Prop
  | node {range : Range} {children : List Outline} (hr : AlignedTo tokens range)
      (hin : ∀ o ∈ children, range.containsRange o.range = true) (hturn : InTurn children)
      (h : ∀ o ∈ children, WellNested tokens o) : WellNested tokens (node range children)

theorem AlignedTo.mono {us vs : List Token} {r : Range} (h : AlignedTo us r) (hsub : us ⊆ vs) :
    AlignedTo vs r := by
  obtain ⟨⟨x, hx, hstart⟩, ⟨y, hy, hstop⟩, hlt⟩ := h
  exact ⟨⟨x, hsub hx, hstart⟩, ⟨y, hsub hy, hstop⟩, hlt⟩

theorem Outline.WellNested.mono {us vs : List Token} (hsub : us ⊆ vs) {o : Outline}
    (h : o.WellNested us) : o.WellNested vs := by
  induction h with
  | node hr hin hturn _ ih => exact .node (hr.mono hsub) hin hturn ih

theorem Outline.WellNested.aligned {tokens : List Token} {o : Outline} (h : o.WellNested tokens) :
    AlignedTo tokens o.range := by
  cases h with
  | node hr _ _ _ => exact hr

/-! ## Tokens in order -/

/-- The tokens stand in the order of the text, each of them with some text of its own. -/
structure InOrder (tokens : List Token) : Prop where
  pairwise : tokens.Pairwise (·.stop ≤ ·.start)
  forward : ∀ t ∈ tokens, t.start < t.stop

theorem Position.le_of_lt {p q : Position} (h : p < q) : p ≤ q := by
  rw [lt_def] at h
  rw [le_def]
  omega

theorem Position.lt_of_lt_of_le {p q r : Position} (h : p < q) (k : q ≤ r) : p < r := by
  rw [lt_def] at h ⊢
  rw [le_def] at k
  omega

theorem Position.lt_of_le_of_lt {p q r : Position} (h : p ≤ q) (k : q < r) : p < r := by
  rw [lt_def] at k ⊢
  rw [le_def] at h
  omega

/-- A range and one that does not start before it, nor ends before it. -/
theorem Range.cover_of_le {r s : Range} (hstart : r.start ≤ s.start) (hstop : r.stop ≤ s.stop) :
    r.cover s = ⟨r.start, s.stop⟩ := by
  have hmin : min r.start s.start = r.start := if_pos hstart
  have hmax : max r.stop s.stop = s.stop := if_pos hstop
  rw [cover, hmin, hmax]

namespace InOrder

theorem left {us vs : List Token} (h : InOrder (us ++ vs)) : InOrder us :=
  ⟨(List.pairwise_append.1 h.pairwise).1, fun t ht => h.forward t (List.mem_append_left vs ht)⟩

theorem right {us vs : List Token} (h : InOrder (us ++ vs)) : InOrder vs :=
  ⟨(List.pairwise_append.1 h.pairwise).2.1, fun t ht => h.forward t (List.mem_append_right us ht)⟩

theorem range_eq {tokens : List Token} (h : InOrder tokens) {t : Token} (ht : t ∈ tokens) :
    t.range = ⟨t.start, t.stop⟩ :=
  Range.between_of_le (Position.le_of_lt (h.forward t ht))

/-- No token starts before the first one. -/
theorem first_le {x t : Token} {us : List Token} (h : InOrder (x :: us)) (ht : t ∈ x :: us) :
    x.start ≤ t.start := by
  rcases List.mem_cons.1 ht with rfl | ht
  · exact Position.le_refl _
  · have hxt := (List.pairwise_cons.1 h.pairwise).1 t ht
    exact Position.le_trans (Position.le_of_lt (h.forward x List.mem_cons_self)) hxt

/-- No token ends behind one that only separators follow, but for these. -/
theorem le_last {us vs : List Token} {z t : Token} (h : InOrder (us ++ z :: vs))
    (hvs : ∀ y ∈ vs, y.kind.isSeparator = true) (ht : t ∈ us ++ z :: vs)
    (hs : t.kind.isSeparator = false) : t.stop ≤ z.stop := by
  rcases List.mem_append.1 ht with ht | ht
  · have htz := (List.pairwise_append.1 h.pairwise).2.2 t ht z List.mem_cons_self
    exact Position.le_trans htz (Position.le_of_lt (h.forward z (by simp)))
  · rcases List.mem_cons.1 ht with rfl | ht
    · exact Position.le_refl _
    · rw [hvs t ht] at hs
      cases hs

end InOrder

/-! ## Outlines over a stretch of tokens -/

/-- The outlines follow each other, and are well nested over the tokens. -/
structure Fits (tokens : List Token) (os : List Outline) : Prop where
  inTurn : Outline.InTurn os
  wellNested : ∀ o ∈ os, o.WellNested tokens

namespace Fits

theorem nil (tokens : List Token) : Fits tokens [] := ⟨.nil, by simp⟩

theorem mono {us vs : List Token} {os : List Outline} (h : Fits us os) (hsub : us ⊆ vs) : Fits vs os :=
  ⟨h.inTurn, fun o ho => (h.wellNested o ho).mono hsub⟩

theorem append {us vs : List Token} {os qs : List Outline} (huv : InOrder (us ++ vs)) (hos : Fits us os)
    (hqs : Fits vs qs) : Fits (us ++ vs) (os ++ qs) := by
  constructor
  · refine List.pairwise_append.2 ⟨hos.inTurn, hqs.inTurn, ?_⟩
    intro o ho q hq
    obtain ⟨-, ⟨x, hx, -, hstop⟩, -⟩ := (hos.wellNested o ho).aligned
    obtain ⟨⟨y, hy, hstart⟩, -, -⟩ := (hqs.wellNested q hq).aligned
    rw [hstop, hstart]
    exact (List.pairwise_append.1 huv.pairwise).2.2 x hx y hy
  · intro o ho
    rcases List.mem_append.1 ho with ho | ho
    · exact (hos.wellNested o ho).mono (List.subset_append_left us vs)
    · exact (hqs.wellNested o ho).mono (List.subset_append_right us vs)

/-- What stands below a node. -/
theorem children {tokens : List Token} {r : Range} {os : List Outline}
    (h : Fits tokens [.node r os]) : Fits tokens os := by
  cases h.wellNested _ (List.mem_singleton_self _) with
  | node _ _ hturn hos => exact ⟨hturn, hos⟩

theorem singleton {tokens : List Token} {o : Outline} (h : o.WellNested tokens) : Fits tokens [o] :=
  ⟨List.pairwise_singleton _ o, by simpa using h⟩

/-- A node that goes from the first token to the last one that is no separator encloses all. -/
theorem node {x z : Token} {us vs ws : List Token} {os : List Outline} (huw : InOrder (x :: us))
    (hx : x.kind.isSeparator = false) (hz : z.kind.isSeparator = false)
    (hsplit : x :: us = vs ++ z :: ws) (hws : ∀ y ∈ ws, y.kind.isSeparator = true)
    (h : Fits (x :: us) os) : Fits (x :: us) [.node (x.range.cover z.range) os] := by
  have hzmem : z ∈ x :: us := by
    rw [hsplit]
    simp
  have hlast (t : Token) (ht : t ∈ x :: us) (hs : t.kind.isSeparator = false) : t.stop ≤ z.stop := by
    rw [hsplit] at huw ht
    exact huw.le_last hws ht hs
  have hrange : x.range.cover z.range = ⟨x.start, z.stop⟩ := by
    rw [huw.range_eq List.mem_cons_self, huw.range_eq hzmem]
    exact Range.cover_of_le (huw.first_le hzmem) (hlast x List.mem_cons_self hx)
  rw [hrange]
  refine singleton (.node ?_ ?_ h.inTurn h.wellNested)
  · refine ⟨⟨x, List.mem_cons_self, rfl⟩, ⟨z, hzmem, hz, rfl⟩, ?_⟩
    exact Position.lt_of_le_of_lt (huw.first_le hzmem) (huw.forward z hzmem)
  · intro o ho
    obtain ⟨⟨a, ha, hstart⟩, ⟨b, hb, hbs, hstop⟩, -⟩ := (h.wellNested o ho).aligned
    rw [Range.containsRange, decide_eq_true_eq, hstart, hstop]
    exact ⟨huw.first_le ha, hlast b hb hbs⟩

/-- A node with the same range as its only child. -/
theorem wrap {tokens : List Token} {o : Outline} (h : Fits tokens [o]) :
    Fits tokens [.node o.range [o]] := by
  refine singleton (.node (h.wellNested o (List.mem_singleton_self o)).aligned ?_ h.inTurn h.wellNested)
  intro q hq
  rw [List.mem_singleton.1 hq, Range.containsRange, decide_eq_true_eq]
  exact ⟨Position.le_refl _, Position.le_refl _⟩

/-- A node that goes from the start of one outline to the end of the next encloses both. -/
theorem binary {tokens : List Token} {a b : Outline} (h : Fits tokens [a, b]) :
    Fits tokens [.node (a.range.cover b.range) [a, b]] := by
  have hab : a.range.stop ≤ b.range.start := by
    have hturn := h.inTurn
    rw [Outline.InTurn, List.pairwise_cons] at hturn
    exact hturn.1 b (List.mem_singleton_self b)
  obtain ⟨hstart, -, ha⟩ := (h.wellNested a (by simp)).aligned
  obtain ⟨-, hstop, hb⟩ := (h.wellNested b (by simp)).aligned
  have hleft : a.range.start ≤ b.range.start := Position.le_trans (Position.le_of_lt ha) hab
  have hright : a.range.stop ≤ b.range.stop := Position.le_trans hab (Position.le_of_lt hb)
  rw [Range.cover_of_le hleft hright]
  refine singleton (.node ?_ ?_ h.inTurn h.wellNested)
  · exact ⟨hstart, hstop, Position.lt_of_lt_of_le ha hright⟩
  · intro o ho
    rw [Range.containsRange, decide_eq_true_eq]
    rcases List.mem_cons.1 ho with rfl | ho
    · exact ⟨Position.le_refl _, hright⟩
    · rw [List.mem_singleton.1 ho]
      exact ⟨hleft, Position.le_refl _⟩

end Fits

/-! ## The tokens of a text -/

theorem Location.pairwise_tokens (l : Location) (xs : List Lexeme) :
    (l.tokens xs).Pairwise (·.stop ≤ ·.start) := by
  have hplace := l.inTurn_place xs
  rw [place_eq] at hplace
  exact (List.pairwise_append.1 hplace).1

theorem inOrder_tokensOf (text : String) : InOrder (tokensOf text) :=
  ⟨Location.pairwise_tokens _ _, fun _ ht => start_lt_stop_of_mem_tokensOf ht⟩

end FourthGen
