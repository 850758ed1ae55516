import FourthGen.Proofs.Parser.Ensures
import FourthGen.Proofs.Parser.Isolation
import FourthGen.Proofs.Syntax.Outline

set_option autoImplicit false

/-! # The ranges of parsed trees

What a rule reads between two cursors is outlined over the tokens between them (`Cursor.Spans`). A node
starts with its first token, which is no separator, and ends with the last such token that was
consumed, whatever was skipped or missing in between. So the outlines of its parts, which lie over
parts of these tokens, one behind the other, are enclosed (`Cursor.Spans.node`). -/

namespace FourthGen

namespace Cursor

/-- The end of the text is marked as such, and the tokens ahead stand in order. -/
structure InOrder (s : Cursor) : Prop where
  eof : s.eof.kind = .eof
  ahead : FourthGen.InOrder s.ahead

/-- From `s` up to `t` trees with these outlines are read. -/
def Spans (s : Cursor) (os : List Outline) (t : Cursor) : Prop :=
  s.InOrder → ∃ us, s.Takes us t ∧ Fits us os

/-- The token `x`, which is no separator, stands between `s` and `t`. -/
def Begins (s : Cursor) (x : Token) (t : Cursor) : Prop :=
  s.InOrder → s.Takes [x] t ∧ x.kind.isSeparator = false

theorem InOrder.of_takes {s t : Cursor} {us : List Token} (h : s.InOrder) (hus : s.Takes us t) :
    FourthGen.InOrder us ∧ t.InOrder := by
  have hall := h.ahead
  rw [hus.ahead] at hall
  refine ⟨hall.left, ?_, hall.right⟩
  rw [hus.eof]
  exact h.eof

theorem path_spans : Path Spans := by
  constructor
  · intro s t h _
    obtain ⟨us, hus⟩ := reaches_iff_takes.1 h
    exact ⟨us, hus, .nil us⟩
  · intro s t u os qs hos hqs hs
    obtain ⟨us, hus, hfits⟩ := hos hs
    obtain ⟨vs, hvs, hfits'⟩ := hqs (hs.of_takes hus).2
    have hboth := hus.trans hvs
    exact ⟨us ++ vs, hboth, hfits.append (hs.of_takes hboth).1 hfits'⟩

/-- The cursor is at a token that is no separator. -/
theorem begins_peek {s : Cursor} {k : TokenKind} (hk : s.kind = k) (hs : k.isSeparator = false)
    (he : k ≠ .eof) : s.Begins s.peek s.advance := by
  subst hk
  intro h
  obtain ⟨x, rfl, hx⟩ := exists_takes_of_kind h.eof he
  exact ⟨hx, hs⟩

/-- The token last consumed that is no separator, if some such token was. -/
theorem Takes.previousRange_eq {s t : Cursor} {x : Token} {us : List Token} (h : s.Takes (x :: us) t)
    (hx : x.kind.isSeparator = false) :
    ∃ vs z ws, x :: us = vs ++ z :: ws ∧ z.kind.isSeparator = false ∧
      (∀ y ∈ ws, y.kind.isSeparator = true) ∧ t.previousRange = z.range := by
  cases hfind : (x :: us).reverse.find? (!·.kind.isSeparator) with
  | none =>
      rw [List.find?_eq_none] at hfind
      exact absurd hx (by simpa using hfind x (by simp))
  | some z =>
      obtain ⟨hz, as, bs, hsplit, has⟩ := List.find?_eq_some_iff_append.1 hfind
      refine ⟨bs.reverse, z, as.reverse, ?_, by simpa using hz, ?_, ?_⟩
      · have hreverse := congrArg List.reverse hsplit
        simpa using hreverse
      · intro y hy
        simpa using has y (List.mem_reverse.1 hy)
      · rw [previousRange, h.before, List.find?_append, hfind]
        rfl

namespace Spans

variable {s t u : Cursor} {os : List Outline} {x : Token}

/-- A node encloses what is read behind its first token. -/
theorem node (hx : s.Begins x t) (h : t.Spans os u) :
    s.Spans [.node (x.range.cover u.previousRange) os] u := by
  intro hs
  obtain ⟨hx, hsep⟩ := hx hs
  obtain ⟨us, hus, hfits⟩ := h (hs.of_takes hx).2
  have hall := hx.trans hus
  obtain ⟨vs, z, ws, hsplit, hz, hws, hprevious⟩ := hall.previousRange_eq hsep
  rw [hprevious]
  exact ⟨x :: us, hall, .node (hs.of_takes hall).1 hsep hz hsplit hws
    (hfits.mono (List.subset_cons_self x us))⟩

/-- A node of one token. -/
theorem leaf (hx : s.Begins x t) : s.Spans [.node x.range []] t := by
  intro hs
  obtain ⟨htakes, hsep⟩ := hx hs
  have hself : x.range.cover x.range = x.range := Range.cover_of_le (Position.le_refl _) (Position.le_refl _)
  have hnode := @Fits.node x x [] [] [] [] (hs.of_takes htakes).1 hsep hsep rfl (by simp) (.nil [x])
  rw [hself] at hnode
  exact ⟨[x], htakes, hnode⟩

/-- Other outlines over the same tokens. -/
theorem imp {qs : List Outline} (h : s.Spans os t) (hfits : ∀ us, Fits us os → Fits us qs) :
    s.Spans qs t := by
  intro hs
  obtain ⟨us, hus, hos⟩ := h hs
  exact ⟨us, hus, hfits us hos⟩

/-- What is skipped behind does not count. -/
theorem skip (h : s.Spans os t) (htu : t.Reaches u) : s.Spans os u := by
  have hall := path_spans.append h (path_spans.skip htu)
  rwa [List.append_nil] at hall

end Spans

end Cursor

open Cursor

/-! ## Primitive rules -/

namespace Rule

variable {s : Cursor}

/-- The first word of a statement or a declaration. -/
theorem keyword_begins {k : Keyword} (hk : s.kind = .keyword k) :
    advance.Ensures s fun x t => s.Begins x t := by
  intro h
  obtain ⟨hpeek, hsep⟩ := begins_peek hk rfl (by simp) h
  rw [run_advance, hpeek.previous_eq]
  exact ⟨hpeek, hsep⟩

theorem expect_begins {k : TokenKind} (hk : k.isSeparator = false) (c : Complaint) :
    (expect k c).Ensures s fun o t => s.Reaches t ∧ ∀ x, o = some x → s.Begins x t := by
  refine ⟨(expect k c).reaches s, ?_⟩
  rw [run_expect]
  split
  · next hc =>
    obtain ⟨y, hy, rfl⟩ := check_iff.1 hc
    intro x hx _
    cases hx
    rw [hy.previous_eq]
    exact ⟨hy, hk⟩
  · intro x hx
    cases hx

theorem declared_spans (role : NameRole) (s : Cursor) :
    (declared? role).Ensures s fun o t => s.Spans (o.toList.map Variable.outline) t := by
  unfold declared?
  refine (expect_begins rfl (.missingName role)).bind fun o t ho => ?_
  cases o with
  | none => exact ensures_pure (path_spans.skip ho.1)
  | some x =>
      refine (ensures_reaches dataType t).bind fun type u hu => ?_
      refine ensures_upToHere ?_
      exact ensures_pure (.node (ho.2 x rfl) (path_spans.skip hu))

theorem declaredList_spans (role : NameRole) (s : Cursor) :
    (declaredList role).Ensures s fun vs t => s.Spans (vs.map Variable.outline) t := by
  unfold declaredList
  refine (path_spans.commaList (declared_spans role) (fun _ => true) s).bind fun found t h => ?_
  refine ensures_pure ?_
  rw [List.filterMap_eq_flatMap_toList, List.map_flatMap]
  exact h

theorem parameters_spans (routine : Routine) (s : Cursor) :
    (parameters routine).Ensures s fun vs t => s.Spans (vs.map Variable.outline) t := by
  have hclose (t : Cursor) (ht : s.Reaches t) (vs : List (Variable Range)) (u : Cursor)
      (hvs : t.Spans (vs.map Variable.outline) u) :
      (do let _ ← expect (.symbol .rightParen) (.missingCloser .parameters); return vs : Rule _).Ensures u
        fun vs v => s.Spans (vs.map Variable.outline) v := by
    refine (ensures_reaches _ u).bind fun _ v hv => ?_
    exact ensures_pure (path_spans.behind ht (hvs.skip hv))
  unfold parameters
  refine (ensures_reaches _ s).bind fun o t ht => ?_
  cases o with
  | none => exact ensures_pure (path_spans.skip ht)
  | some x =>
      refine ensures_ask ?_
      split
      · exact Ensures.bind (ensures_pure (path_spans.skip (.refl t))) (hclose t ht)
      · exact (declaredList_spans .parameter t).bind (hclose t ht)

end Rule

/-! ## Expressions -/

namespace Expr

/-- From `s` up to `t` a whole expression is read. -/
def ReadFrom (s : Cursor) (e : Expr Range) (t : Cursor) : Prop := e.Whole ∧ s.Spans e.outline t

/-- From `s` up to `t` whole expressions are read. -/
def ReadAllFrom (s : Cursor) (es : List (Expr Range)) (t : Cursor) : Prop :=
  (∀ e ∈ es, e.Whole) ∧ s.Spans (es.flatMap outline) t

theorem path_readAllFrom : Path ReadAllFrom := path_spans.parts Whole outline

section

variable {inner : Attempt (Expr Range)} (hinner : ∀ s, Attempt.Ensures inner s (ReadFrom s))

include hinner

theorem argumentsBy_spans (s : Cursor) : Attempt.Ensures (argumentsBy inner) s (ReadAllFrom s) := by
  have hclose (args : List (Expr Range)) (t : Cursor) (hargs : ReadAllFrom s args t) :
      Attempt.Ensures
        (do let _ ← Rule.expect (.symbol .rightParen) (.missingCloser .arguments); return args) t
        (ReadAllFrom s) := by
    refine (Attempt.ensures_lift (Rule.ensures_reaches _ t)).bind fun _ u hu => ?_
    exact Attempt.ensures_pure ⟨hargs.1, hargs.2.skip hu⟩
  have hone (s : Cursor) : Attempt.Ensures inner s fun e t => ReadAllFrom s [e] t := by
    refine (hinner s).mono fun e t he => ?_
    rw [ReadAllFrom, List.forall_mem_singleton, List.flatMap_singleton]
    exact he
  unfold argumentsBy
  refine Attempt.ensures_ask ?_
  split
  · exact Attempt.Ensures.bind (Attempt.ensures_pure (path_readAllFrom.skip (.refl s))) hclose
  · exact (path_readAllFrom.attempts hone s).bind hclose

theorem primaryBy_spans (s : Cursor) : Attempt.Ensures (primaryBy inner) s (ReadFrom s) := by
  unfold primaryBy
  refine Attempt.ensures_ask ?_
  split
  · next hk =>
    have hx := begins_peek hk rfl (by simp)
    refine Attempt.ensures_advance ?_
    exact Attempt.ensures_pure ⟨trivial, .leaf hx⟩
  · next hk =>
    have hx := begins_peek hk rfl (by simp)
    refine Attempt.ensures_advance ?_
    exact Attempt.ensures_pure ⟨trivial, .leaf hx⟩
  · next hk =>
    have hx := begins_peek hk rfl (by simp)
    refine Attempt.ensures_advance ?_
    refine (Attempt.ensures_lift (Rule.ensures_reaches _ _)).bind fun called u hu => ?_
    cases called with
    | false => exact Attempt.ensures_pure ⟨trivial, (Spans.leaf hx).skip hu⟩
    | true =>
        refine (argumentsBy_spans hinner u).bind fun args v hargs => ?_
        refine Attempt.ensures_upToHere ?_
        refine Attempt.ensures_pure ⟨allWhole_iff.2 hargs.1, ?_⟩
        rw [outline, outlineAll_eq_flatMap]
        exact .node hx (path_spans.behind hu hargs.2)
  · next hk =>
    have hx := begins_peek hk rfl (by simp)
    refine Attempt.ensures_advance ?_
    refine (hinner _).bind fun e u he => ?_
    refine (Attempt.ensures_lift (Rule.ensures_reaches _ u)).bind fun _ v hv => ?_
    refine Attempt.ensures_upToHere ?_
    refine Attempt.ensures_pure ⟨he.1.withRange _, ?_⟩
    -- the parentheses widen the range of the node that they enclose
    obtain ⟨children, houtline, hwiden⟩ := he.1.outline_eq
    rw [hwiden]
    have hinside := he.2
    rw [houtline] at hinside
    exact .node hx ((hinside.imp fun _ => Fits.children).skip hv)
  · exact Attempt.ensures_fail

end

/-- A node for an operator goes from the start of its left operand to the end of its right one. -/
theorem ReadFrom.binary {s t u v : Cursor} {left right : Expr Range} (hleft : ReadFrom s left t)
    (hop : t.Reaches u) (hright : ReadFrom u right v) (op : BinaryOp) :
    ReadFrom s (.binary (left.range.cover right.range) op left right) v := by
  refine ⟨⟨hleft.1, hright.1⟩, ?_⟩
  obtain ⟨_, hleftOutline, -⟩ := hleft.1.outline_eq
  obtain ⟨_, hrightOutline, -⟩ := hright.1.outline_eq
  have hboth := path_spans.append hleft.2 (path_spans.behind hop hright.2)
  rw [outline]
  rw [hleftOutline, hrightOutline] at hboth ⊢
  exact hboth.imp fun _ => Fits.binary

theorem read_spans (room : Nat) (s : Cursor) : Attempt.Ensures (read room) s (ReadFrom s) := by
  refine ensures_readBinding (R := fun _ => ReadFrom) (L := fun _ _ => ReadFrom) ?_ ?_ ?_ room 0 s
  · intro _ _ _ _ _ h
    exact h
  · intro _ _ _ _ _ _ op _ _ hleft hop hright _
    exact hleft.binary hop hright op
  · intro _ _ hinner
    exact primaryBy_spans hinner

/-- A placeholder has no part in the outline. -/
theorem readOrError_spans (room : Nat) (s : Cursor) :
    (readOrError room).Ensures s fun e t => e.WholeOrHole ∧ s.Spans e.outline t := by
  refine ensures_readOrError ((read_spans room s).mono fun e t he => ⟨.inl he.1, he.2⟩) ?_
  intro r t ht
  exact ⟨.inr ⟨r, rfl⟩, path_spans.skip ht⟩

end Expr

/-! ## Statements -/

namespace Stmt

/-- From `s` up to `t` a statement is read. -/
def ReadFrom (s : Cursor) (stmt : Stmt Range) (t : Cursor) : Prop :=
  stmt.HolesInPlace ∧ s.Spans [stmt.outline] t

/-- From `s` up to `t` statements are read. -/
def ReadAllFrom (s : Cursor) (ss : List (Stmt Range)) (t : Cursor) : Prop :=
  (∀ stmt ∈ ss, stmt.HolesInPlace) ∧ s.Spans (ss.map outline) t

theorem path_readAllFrom : Path ReadAllFrom := by
  unfold ReadAllFrom
  simp only [List.map_eq_flatMap]
  exact path_spans.parts HolesInPlace fun stmt => [stmt.outline]

section

variable {s : Cursor} {k : Keyword} (hk : s.kind = .keyword k) (room : Nat)

include hk

theorem readDefine_spans : readDefine.Ensures s (ReadFrom s) := by
  unfold readDefine
  refine (Rule.keyword_begins hk).bind fun start t hstart => ?_
  refine (Rule.declaredList_spans .target t).bind fun vars u hvars => ?_
  refine Rule.ensures_upToHere ?_
  exact Rule.ensures_pure ⟨trivial, .node hstart hvars⟩

theorem readAssign_spans : (readAssign room).Ensures s (ReadFrom s) := by
  unfold readAssign
  refine (Rule.keyword_begins hk).bind fun start t hstart => ?_
  refine (Rule.ensures_reaches _ t).bind fun target u hu => ?_
  refine (Rule.ensures_reaches _ u).bind fun _ v hv => ?_
  refine (Expr.readOrError_spans room v).bind fun value w hvalue => ?_
  refine Rule.ensures_upToHere ?_
  exact Rule.ensures_pure ⟨hvalue.1, .node hstart (path_spans.behind (hu.trans hv) hvalue.2)⟩

theorem readReturn_spans : (readReturn room).Ensures s (ReadFrom s) := by
  unfold readReturn
  refine (Rule.keyword_begins hk).bind fun start t hstart => ?_
  refine Rule.ensures_ask ?_
  split
  · refine Rule.ensures_upToHere ?_
    exact Rule.ensures_pure ⟨trivial, .node hstart (path_spans.skip (.refl t))⟩
  · refine (Expr.readOrError_spans room t).bind fun value u hvalue => ?_
    refine Rule.ensures_upToHere ?_
    exact Rule.ensures_pure ⟨hvalue.1, .node hstart hvalue.2⟩

theorem readSql_spans (kind : SqlKind) : (readSql kind).Ensures s (ReadFrom s) := by
  unfold readSql
  refine (Rule.keyword_begins hk).bind fun start t hstart => ?_
  refine (Rule.ensures_reaches _ t).bind fun _ u hu => ?_
  refine Rule.ensures_upToHere ?_
  exact Rule.ensures_pure ⟨trivial, .node hstart (path_spans.skip hu)⟩

theorem readCall_spans : Attempt.Ensures (readCall room) s (ReadFrom s) := by
  unfold readCall
  refine (Attempt.ensures_lift (Rule.keyword_begins hk)).bind fun start t hstart => ?_
  refine (Attempt.ensures_lift (Rule.ensures_reaches _ t)).bind fun name u hu => ?_
  refine (Attempt.ensures_lift (Rule.ensures_reaches _ u)).bind fun called v hv => ?_
  -- what follows the arguments, which may be missing
  have hclose (args : List (Expr Range)) (w : Cursor) (hargs : Expr.ReadAllFrom v args w) :
      Attempt.Ensures (do return .call (← Rule.upToHere start) name args : Attempt (Stmt Range)) w
        (ReadFrom s) := by
    refine Attempt.ensures_upToHere ?_
    exact Attempt.ensures_pure ⟨hargs.1, .node hstart (path_spans.behind (hu.trans hv) hargs.2)⟩
  cases called with
  | true => exact (Expr.argumentsBy_spans (Expr.read_spans room) v).bind hclose
  | false =>
      exact Attempt.Ensures.bind (Attempt.ensures_pure (Expr.path_readAllFrom.skip (.refl v))) hclose

variable {block : Rule (List (Stmt Range))} (hblock : ∀ s, block.Ensures s (ReadAllFrom s))

include hblock

theorem readConditional_spans : (readConditional room block).Ensures s (ReadFrom s) := by
  unfold readConditional
  refine (Rule.keyword_begins hk).bind fun start t hstart => ?_
  refine (Expr.readOrError_spans room t).bind fun condition u hcondition => ?_
  refine (Rule.ensures_reaches _ u).bind fun _ v hv => ?_
  refine (hblock v).bind fun thenBlock w hthen => ?_
  refine (Rule.ensures_reaches _ w).bind fun more x hx => ?_
  -- what follows the second branch, which may be empty
  have hclose (elseBlock : List (Stmt Range)) (y : Cursor) (helse : ReadAllFrom x elseBlock y) :
      Rule.Ensures (do
          Rule.compoundEnd .conditional
          return .conditional (← Rule.upToHere start) condition thenBlock elseBlock : Rule (Stmt Range)) y
        (ReadFrom s) := by
    refine (Rule.ensures_reaches _ y).bind fun _ z hz => ?_
    refine Rule.ensures_upToHere ?_
    refine Rule.ensures_pure ⟨⟨hcondition.1, allHolesInPlace_iff.2 hthen.1,
      allHolesInPlace_iff.2 helse.1⟩, ?_⟩
    have hblocks := path_spans.append hthen.2 (path_spans.behind hx helse.2)
    have hall := path_spans.append hcondition.2 (path_spans.behind hv hblocks)
    rw [outline, outlineAll_eq_map, outlineAll_eq_map]
    exact .node hstart (hall.skip hz)
  cases more with
  | true => exact (hblock x).bind hclose
  | false => exact Rule.Ensures.bind (Rule.ensures_pure (path_readAllFrom.skip (.refl x))) hclose

theorem readWhile_spans : (readWhile room block).Ensures s (ReadFrom s) := by
  unfold readWhile
  refine (Rule.keyword_begins hk).bind fun start t hstart => ?_
  refine (Expr.readOrError_spans room t).bind fun condition u hcondition => ?_
  refine (hblock u).bind fun body v hbody => ?_
  refine (Rule.ensures_reaches _ v).bind fun _ w hw => ?_
  refine Rule.ensures_upToHere ?_
  refine Rule.ensures_pure ⟨⟨hcondition.1, allHolesInPlace_iff.2 hbody.1⟩, ?_⟩
  rw [outline, outlineAll_eq_map]
  exact .node hstart ((path_spans.append hcondition.2 hbody.2).skip hw)

theorem readFor_spans : (readFor block).Ensures s (ReadFrom s) := by
  unfold readFor
  refine (Rule.keyword_begins hk).bind fun start t hstart => ?_
  refine (Rule.ensures_reaches _ t).bind fun _ u hu => ?_
  refine (hblock u).bind fun body v hbody => ?_
  refine (Rule.ensures_reaches _ v).bind fun _ w hw => ?_
  refine Rule.ensures_upToHere ?_
  refine Rule.ensures_pure ⟨allHolesInPlace_iff.2 hbody.1, ?_⟩
  rw [outline, outlineAll_eq_map]
  exact .node hstart ((path_spans.behind hu hbody.2).skip hw)

end

theorem readExpression_spans (room : Nat) (s : Cursor) :
    Attempt.Ensures (readExpression room) s (ReadFrom s) := by
  unfold readExpression
  refine (Expr.read_spans room s).bind fun e t he => ?_
  refine Attempt.ensures_pure ⟨he.1, ?_⟩
  obtain ⟨children, houtline, -⟩ := he.1.outline_eq
  have hspans := he.2
  rw [outline]
  rw [houtline] at hspans ⊢
  exact hspans.imp fun _ => Fits.wrap

theorem read_spans (room : Nat) {block : Rule (List (Stmt Range))}
    (hblock : ∀ s, block.Ensures s (ReadAllFrom s)) (s : Cursor) :
    Attempt.Ensures (read room block) s (ReadFrom s) := by
  unfold read
  refine Attempt.ensures_ask ?_
  split
  · next hk => exact Attempt.ensures_lift (readDefine_spans hk)
  · next hk => exact Attempt.ensures_lift (readAssign_spans hk room)
  · next hk => exact Attempt.ensures_lift (readConditional_spans hk room hblock)
  · next hk => exact Attempt.ensures_lift (readWhile_spans hk room hblock)
  · next hk => exact Attempt.ensures_lift (readFor_spans hk hblock)
  · next hk => exact readCall_spans hk room
  · next hk => exact Attempt.ensures_lift (readReturn_spans hk room)
  · next hk => exact Attempt.ensures_lift (readSql_spans hk .select)
  · next hk => exact Attempt.ensures_lift (readSql_spans hk .insert)
  · next hk => exact Attempt.ensures_lift (readSql_spans hk .update)
  · next hk => exact Attempt.ensures_lift (readSql_spans hk .delete)
  · exact readExpression_spans room s

theorem readBlock_spans (room : Nat) (s : Cursor) : (readBlock room).Ensures s (ReadAllFrom s) := by
  induction room generalizing s with
  | zero => exact path_readAllFrom.skip ((readBlock 0).reaches s)
  | succ room ih =>
      have hone (s : Cursor) :
          Attempt.Ensures (read room (readBlock room)) s fun stmt t => ReadAllFrom s [stmt] t := by
        refine (read_spans room ih s).mono fun stmt t hstmt => ?_
        rw [ReadAllFrom, List.forall_mem_singleton]
        exact hstmt
      rw [readBlock, Rule.defer_eq]
      exact path_readAllFrom.rounds (fun s => path_readAllFrom.recovering (hone s)) stopsBlock s

end Stmt

/-! ## Items and programs -/

namespace Item

/-- From `s` up to `t` items are read. -/
def ReadAllFrom (s : Cursor) (items : List (Item Range)) (t : Cursor) : Prop :=
  (∀ item ∈ items, item.HolesInPlace) ∧ s.Spans (items.map outline) t

theorem path_readAllFrom : Path ReadAllFrom := by
  unfold ReadAllFrom
  simp only [List.map_eq_flatMap]
  exact path_spans.parts HolesInPlace fun item => [item.outline]

theorem readFunction_spans {s : Cursor} {k : Keyword} (hk : s.kind = .keyword k) (room : Nat) :
    (readFunction room).Ensures s fun item t => ReadAllFrom s [item] t := by
  unfold readFunction
  refine (Rule.keyword_begins hk).bind fun start t hstart => ?_
  refine (Rule.ensures_reaches _ t).bind fun name u hu => ?_
  refine (Rule.parameters_spans .function u).bind fun params v hparams => ?_
  refine (Rule.ensures_reaches _ v).bind fun returns w hw => ?_
  refine (Stmt.readBlock_spans room w).bind fun body x hbody => ?_
  refine (Rule.ensures_reaches _ x).bind fun _ y hy => ?_
  refine Rule.ensures_upToHere ?_
  refine Rule.ensures_pure ?_
  rw [ReadAllFrom, List.forall_mem_singleton]
  have hall := path_spans.append hparams (path_spans.behind hw hbody.2)
  exact ⟨hbody.1, .node hstart ((path_spans.behind hu hall).skip hy)⟩

theorem readProcedure_spans {s : Cursor} {k : Keyword} (hk : s.kind = .keyword k) (room : Nat) :
    (readProcedure room).Ensures s fun item t => ReadAllFrom s [item] t := by
  unfold readProcedure
  refine (Rule.keyword_begins hk).bind fun start t hstart => ?_
  refine (Rule.ensures_reaches _ t).bind fun name u hu => ?_
  refine (Rule.parameters_spans .procedure u).bind fun params v hparams => ?_
  refine (Stmt.readBlock_spans room v).bind fun body w hbody => ?_
  refine (Rule.ensures_reaches _ w).bind fun _ x hx => ?_
  refine Rule.ensures_upToHere ?_
  refine Rule.ensures_pure ?_
  rw [ReadAllFrom, List.forall_mem_singleton]
  have hall := path_spans.append hparams hbody.2
  exact ⟨hbody.1, .node hstart ((path_spans.behind hu hall).skip hx)⟩

theorem read_spans (room : Nat) (s : Cursor) :
    Attempt.Ensures (read room) s fun item t => ReadAllFrom s [item] t := by
  unfold read
  refine Attempt.ensures_ask ?_
  split
  · next hk => exact Attempt.ensures_lift (readFunction_spans hk room)
  · next hk => exact Attempt.ensures_lift (readProcedure_spans hk room)
  · refine Attempt.ensures_ask ?_
    split
    · exact Attempt.ensures_fail
    · refine (Stmt.read_spans room (Stmt.readBlock_spans room) s).bind fun stmt t hstmt => ?_
      refine Attempt.ensures_pure ?_
      rw [ReadAllFrom, List.forall_mem_singleton]
      exact hstmt

theorem readProgram_spans (s : Cursor) : readProgram.Ensures s (ReadAllFrom s) :=
  path_readAllFrom.rounds (fun s => path_readAllFrom.recovering (read_spans maxNesting s))
    (fun _ => false) s

end Item

/-- The items of every text follow each other, and their ranges are well nested and aligned to the
    tokens of the text. Placeholders stand only for conditions, for assigned values and for returned
    ones. -/
theorem parse_ranges (text : String) :
    Outline.InTurn ((parse text).items.map Item.outline) ∧
      (∀ item ∈ (parse text).items, item.outline.WellNested (tokenize text)) ∧
      ∀ item ∈ (parse text).items, item.HolesInPlace := by
  have hread := Item.readProgram_spans ⟨[], tokensOf text, eofOf text⟩
  have hitems : (parse text).items = (Item.readProgram.run ⟨[], tokensOf text, eofOf text⟩).value := by
    rw [parse_eq]
    rfl
  rw [hitems]
  obtain ⟨us, hus, hfits⟩ := hread.2 ⟨eofOf_kind text, inOrder_tokensOf text⟩
  have hsub : us ⊆ tokenize text := by
    intro t ht
    rw [tokenize_eq]
    have hahead : tokensOf text = us ++ _ := hus.ahead
    rw [hahead]
    simp [ht]
  refine ⟨hfits.inTurn, ?_, hread.1⟩
  intro item hitem
  exact (hfits.wellNested _ (List.mem_map_of_mem hitem)).mono hsub

end FourthGen
