import FourthGen.Proofs.Parser.Completeness
import FourthGen.Proofs.Parser.Confinement
import FourthGen.Proofs.Parser.Descent
import FourthGen.Proofs.Parser.Rendering

set_option autoImplicit false

/-! # The limit on nesting is exact

The grammar counts the levels of nesting that an expression takes up. With room for all of them it is
read (`Expr.read_complete`); here is the other half: with less room than that, however little is missing
and wherever in the expression, reading fails with a complaint about the nesting, has recorded nothing,
and skips what is left of the line (`Attempt.Overflows`).

Inside an expression it is the first part with too many levels for what is left of the room that fails.
All before it is read cleanly, and consumes no separator (`Attempt.Within`), so that the rest of the line
is the same from there. -/

namespace FourthGen

open Grammar

/-! ## Readings that run out of room -/

namespace Attempt

variable {α β : Type} {p : Attempt α} {f : α → Attempt β} {s t : Cursor} {a : α}

/-- Started at `s`, the rule finds no room for what is nested there: it fails with a complaint about that
    and nothing else, and skips the rest of the line. -/
def Overflows (p : Attempt α) (s : Cursor) : Prop :=
  ∃ e, Descent.HitsLimit e ∧ Rule.run p.run s = ⟨.error e, [], s.skipLine⟩

theorem overflows_tooDeep (s : Cursor) : Overflows (tooDeep : Attempt α) s :=
  ⟨s.errorHere .nestingTooDeep, rfl, run_run_tooDeep s⟩

/-- A rule that runs out of room does not read. -/
theorem Clean.not_overflows (h : Clean p s a t) : ¬ Overflows p s := by
  rintro ⟨e, -, he⟩
  rw [show Rule.run p.run s = ⟨.ok a, [], t⟩ from h] at he
  cases he

theorem Overflows.of_run_eq {q : Attempt α} (h : Overflows q t) (hline : t.skipLine = s.skipLine)
    (hrun : Rule.run p.run s = Rule.run q.run t) : Overflows p s := by
  obtain ⟨e, he, hq⟩ := h
  exact ⟨e, he, by rw [hrun, hq, hline]⟩

/-- Behind a clean reading, a sequence goes on from where that stopped. -/
theorem run_bind_of_clean (h : Clean p s a t) (f : α → Attempt β) :
    Rule.run (p >>= f).run s = Rule.run (f a).run t := by
  rw [run_bind, show Rule.run p.run s = ⟨.ok a, [], t⟩ from h]
  rfl

theorem Overflows.bind (h : Overflows p s) (f : α → Attempt β) : Overflows (p >>= f) s := by
  obtain ⟨e, he, hp⟩ := h
  exact ⟨e, he, by rw [run_bind, hp]⟩

/-- What is read before does not matter if it stands in the same line. -/
theorem overflows_behind (hp : Clean p s a t) (hline : t.skipLine = s.skipLine)
    (hf : Overflows (f a) t) : Overflows (p >>= f) s :=
  hf.of_run_eq hline (run_bind_of_clean hp f)

theorem overflows_behind_advance {f : Token → Attempt β} (hs : s.kind.isSeparator = false)
    (hf : Overflows (f s.advance.previous) s.advance) :
    Overflows ((liftM Rule.advance : Attempt Token) >>= f) s :=
  hf.of_run_eq (Cursor.skipLine_advance hs) rfl

theorem Clean.skipLine_eq (h : Clean p s a t) (hw : Within p s) : t.skipLine = s.skipLine := by
  have hrest : (Rule.run p.run s).rest.skipLine = s.skipLine := hw
  rwa [show Rule.run p.run s = ⟨.ok a, [], t⟩ from h] at hrest

theorem Overflows.commaList (h : Overflows p s) : Overflows (commaList p) s := by
  obtain ⟨e, he, hp⟩ := h
  exact ⟨e, he, by rw [run_commaList, hp]⟩

/-- A list runs out of room where what stands behind one of its commas does. -/
theorem overflows_commaList_behind {u : Cursor} {comma : Token} (hp : Clean p s a t)
    (hline : t.skipLine = s.skipLine) (hcomma : t.Takes [comma] u)
    (hk : comma.kind = .symbol .comma) (h : Overflows (Attempt.commaList p) u) :
    Overflows (Attempt.commaList p) s := by
  obtain ⟨e, he, hrest⟩ := h
  have hcheck : t.check (.symbol .comma) = true := by
    rw [hcomma.check_eq, hk]
    rfl
  have hsame : u.skipLine = s.skipLine := by
    rw [← hcomma.advance_eq, Cursor.skipLine_advance (by rw [hcomma.kind_eq, hk]; rfl), hline]
  refine ⟨e, he, ?_⟩
  rw [run_commaList, show Rule.run p.run s = ⟨.ok a, [], t⟩ from hp]
  simp only [hcheck, if_true]
  rw [hcomma.advance_eq, hrest, hsame]
  rfl

end Attempt

/-! ## Expressions with more levels than there is room -/

theorem Token.ne_leftParen_of_binaryOp {x : Token} {op : BinaryOp} (h : x.kind.binaryOp? = some op) :
    x.kind ≠ .symbol .leftParen := by
  intro hk
  rw [hk] at h
  cases h

namespace Expr

variable {room : Nat} {s t : Cursor}

/-- A chain that is read, with the operators behind it still to come, leaves a level less for each of its
    own operators. -/
theorem run_readBinding_of_chain {tight k n least : Nat} {ts : List Token} {e : Expr Unit}
    (h : Chain Operand tight k n ts e) (hn : n ≤ room + 1) (hle : least ≤ tight) (hts : s.Takes ts t)
    (ht : t.peek.kind ≠ .symbol .leftParen) (hop : t.operator? (tight + 1) = none) :
    k ≤ room ∧ ∃ v : Expr Range, v.shape = e ∧
      Rule.run (readBinding (room + 1) least).run s = Rule.run (chain (room - k) least v).run t := by
  induction h generalizing t with
  | operand h =>
      obtain ⟨v, hv, hclean⟩ := primaryBy_complete (read_complete room) hn h hts ht
      refine ⟨Nat.zero_le _, v, hv, ?_⟩
      rw [readBinding, primary_eq]
      exact Attempt.run_bind_of_clean hclean _
  | @link tight k j n m ts us x op left right hl hx hp hr ihl _ =>
      obtain ⟨u, hu, hrest⟩ := Cursor.takes_append.1 hts
      obtain ⟨v, hv, hus⟩ := Cursor.takes_cons.1 hrest
      have hopu := @operator_of_kind u op (by rw [hv.peek_eq, hx])
      have hxk : u.peek.kind ≠ .symbol .leftParen := by
        rw [hv.peek_eq]
        exact Token.ne_leftParen_of_binaryOp hx
      obtain ⟨hk, l, hlshape, hrun⟩ := ihl (by omega) (Nat.le_trans hle hp) hu hxk
        (by rw [hopu, if_neg (by omega)])
      have hpos := hr.pos
      obtain ⟨next, hnext⟩ : ∃ next, room - k = next + 1 := ⟨room - k - 1, by omega⟩
      obtain ⟨r, hrshape, hrclean⟩ := (bindingComplete next).readBinding hr (by omega) hus ht
        (operator_eq_none hop (by omega))
      refine ⟨by omega, .binary (l.range.cover r.range) op l r, ?_, ?_⟩
      · rw [shape_binary, hlshape, hrshape]
      · rw [hrun, hnext, Descent.run_chain_succ (by rw [hopu, if_pos (Nat.le_trans hle hp)]),
          hv.advance_eq, Attempt.run_bind_of_clean hrclean, show next = room - (k + 1) by omega]

/-- What is shown of expressions with more levels than there is room, for all of the room that is less
    than `bound`. -/
def BindingOverflows (bound : Nat) : Prop :=
  ∀ ⦃room tight k n least : Nat⦄ ⦃ts : List Token⦄ ⦃e : Expr Unit⦄ ⦃s t : Cursor⦄, room < bound →
    Chain Operand tight k n ts e → room < n → least ≤ tight → s.Takes ts t →
    t.peek.kind ≠ .symbol .leftParen → t.operator? (tight + 1) = none →
    Attempt.Overflows (readBinding room least) s

theorem BindingOverflows.read {bound : Nat} (h : BindingOverflows bound) (hroom : room < bound) {n : Nat}
    {ts : List Token} {e : Expr Unit} (he : Expression n ts e) (hn : room < n) (hts : s.Takes ts t)
    (ht : t.peek.EndsExpr) : Attempt.Overflows (Expr.read room) s := by
  obtain ⟨hc⟩ := he
  refine h hroom hc hn (Nat.le_refl 0) hts ht.2 ?_
  rw [Cursor.operator?, Cursor.kind, ht.1]
  rfl

/-- The first argument with too many levels is where a list of them fails. -/
theorem BindingOverflows.commaList {bound : Nat} (h : BindingOverflows bound) (hroom : room < bound)
    {n : Nat} {ts : List Token} {args : List (Expr Unit)} (hargs : CommaList Expression n ts args)
    (hn : room < n) (hts : s.Takes ts t) (ht : t.peek.EndsExpr) :
    Attempt.Overflows (Attempt.commaList (Expr.read room)) s := by
  induction hargs generalizing s with
  | one harg => exact (h.read hroom harg hn hts ht).commaList
  | @more n m ts us comma arg args harg hc _ ih =>
      obtain ⟨u, hu, hrest⟩ := Cursor.takes_append.1 hts
      obtain ⟨v, hv, hus⟩ := Cursor.takes_cons.1 hrest
      have hend : u.peek.EndsExpr := by
        rw [hv.peek_eq]
        exact .of_kind hc rfl (by decide)
      by_cases hfirst : room < n
      · exact (h.read hroom harg hfirst hu hend).commaList
      · obtain ⟨a, -, hclean⟩ := read_complete room (by omega) harg hu hend
        exact Attempt.overflows_commaList_behind hclean (hclean.skipLine_eq (read_within room s)) hv hc
          (ih (by omega) hus)

/-- The arguments of a call, behind their opening parenthesis. -/
theorem BindingOverflows.argumentsBy {bound : Nat} (h : BindingOverflows bound) (hroom : room < bound)
    {n : Nat} {ts : List Token} {args : List (Expr Unit)} (hargs : CommaList Expression n ts args)
    (hn : room < n) {closing : Token} (hc : closing.kind = .symbol .rightParen)
    (hts : s.Takes (ts ++ [closing]) t) :
    Attempt.Overflows (argumentsBy (Expr.read room)) s := by
  obtain ⟨u, hu, hcl⟩ := Cursor.takes_append.1 hts
  have hend : u.peek.EndsExpr := by
    rw [hcl.peek_eq]
    exact .of_kind hc rfl (by decide)
  have hopens : s.peek.kind ≠ .symbol .rightParen := by
    obtain ⟨_, _, us, vs, hfirst, rfl⟩ := hargs.head
    obtain ⟨x, us', rfl, hx⟩ := hfirst.head
    rw [hu.peek_eq]
    intro hk
    rw [hk] at hx
    cases hx
  refine Attempt.Overflows.of_run_eq ?_ rfl
    (Attempt.run_bind_of_clean (Attempt.clean_lift.2 (Rule.clean_peek.2 ⟨rfl, rfl⟩)) _)
  rw [if_neg hopens]
  exact (h.commaList hroom hargs hn hu hend).bind _

/-- An operand has its levels from what its parentheses enclose. -/
theorem BindingOverflows.primaryBy {bound : Nat} (h : BindingOverflows bound) (hroom : room < bound)
    {n : Nat} {ts : List Token} {e : Expr Unit} (he : Operand n ts e) (hn : room + 1 < n)
    (hts : s.Takes ts t) : Attempt.Overflows (primaryBy (Expr.read room)) s := by
  unfold Expr.primaryBy
  refine Attempt.Overflows.of_run_eq ?_ rfl
    (Attempt.run_bind_of_clean (Attempt.clean_lift.2 (Rule.clean_peek.2 ⟨rfl, rfl⟩)) _)
  cases he with
  | string | number | name => omega
  | @call n x ts args hk hs =>
      obtain ⟨u, hx, hrest⟩ := Cursor.takes_cons.1 hts
      cases hs with
      | none => omega
      | @some opening closing _ us _ ho hargs hc =>
          obtain ⟨v, hv, hrest⟩ := Cursor.takes_cons.1 hrest
          simp only [hx.peek_eq, hk]
          refine Attempt.overflows_behind_advance (by rw [hx.kind_eq, hk]; rfl) ?_
          rw [hx.advance_eq]
          have haccept :
              Attempt.Clean (liftM (Rule.accept [.symbol .leftParen]) : Attempt Bool) u true v :=
            Attempt.clean_lift.2 (Rule.clean_accept.2 (.inl ⟨rfl, opening, hv, by simp [ho]⟩))
          refine Attempt.overflows_behind haccept ?_ ?_
          · exact haccept.skipLine_eq (Attempt.within_lift (Rule.within_accept rfl))
          · exact (h.argumentsBy hroom hargs (by omega) hc hrest).bind _
  | @parens n opening closing us _ ho he hc =>
      obtain ⟨u, hx, hrest⟩ := Cursor.takes_cons.1 hts
      obtain ⟨v, hv, hcl⟩ := Cursor.takes_append.1 hrest
      have hend : v.peek.EndsExpr := by
        rw [hcl.peek_eq]
        exact .of_kind hc rfl (by decide)
      simp only [hx.peek_eq, ho]
      refine Attempt.overflows_behind_advance (by rw [hx.kind_eq, ho]; rfl) ?_
      rw [hx.advance_eq]
      exact (h.read hroom he (by omega) hv hend).bind _

/-- An operator for which, or for whose right operand, no room is left. -/
theorem BindingOverflows.chain {bound : Nat} (h : BindingOverflows bound) (hroom : room < bound)
    {j m least : Nat} {x : Token} {us : List Token} {op : BinaryOp} {right : Expr Unit} {u : Cursor}
    (hop : s.operator? least = some op) (hx : s.Takes [x] u)
    (hr : Chain Operand (op.power + 1) j m us right) (hm : room < m) (hus : u.Takes us t)
    (ht : t.peek.kind ≠ .symbol .leftParen) (hstop : t.operator? (op.power + 1) = none)
    (left : Expr Range) : Attempt.Overflows (Expr.chain room least left) s := by
  cases room with
  | zero => exact (Attempt.overflows_tooDeep s).of_run_eq rfl (Descent.run_chain_zero hop)
  | succ room =>
      have hright : Attempt.Overflows (readBinding (room + 1) (op.power + 1)) s.advance := by
        rw [hx.advance_eq]
        exact h hroom hr hm (Nat.le_refl _) hus ht (operator_eq_none hstop (Nat.le_succ _))
      have hline := Cursor.skipLine_advance (Likeness.isSeparator_of_operator hop).1
      exact (hright.bind _).of_run_eq hline (Descent.run_chain_succ hop)

/-- A chain whose left part is read, with an operator behind it that there is no room for. -/
theorem BindingOverflows.link {bound : Nat} (h : BindingOverflows bound) (hroom : room < bound)
    {tight k j n m least : Nat} {ts us : List Token} {x : Token} {op : BinaryOp}
    {left right : Expr Unit} {u v : Cursor} (hl : Chain Operand op.power k n ts left)
    (hn : n ≤ room + 1) (hx : x.kind.binaryOp? = some op) (hp : tight ≤ op.power)
    (hr : Chain Operand (op.power + 1) j m us right) (hm : room < k + m) (hle : least ≤ tight)
    (hu : s.Takes ts u) (hv : u.Takes [x] v) (hus : v.Takes us t)
    (ht : t.peek.kind ≠ .symbol .leftParen) (hstop : t.operator? (tight + 1) = none) :
    Attempt.Overflows (readBinding (room + 1) least) s := by
  have hopu := @operator_of_kind u op (by rw [hv.peek_eq, hx])
  have hop : u.operator? least = some op := by rw [hopu, if_pos (Nat.le_trans hle hp)]
  have hxk : u.peek.kind ≠ .symbol .leftParen := by
    rw [hv.peek_eq]
    exact Token.ne_leftParen_of_binaryOp hx
  obtain ⟨hk, l, -, hrun⟩ := run_readBinding_of_chain hl hn (Nat.le_trans hle hp) hu hxk
    (by rw [hopu, if_neg (by omega)])
  have hless : room - k < m := by omega
  have hchain := h.chain (by omega) hop hv hr hless hus ht (operator_eq_none hstop (by omega)) l
  refine hchain.of_run_eq ?_ hrun
  -- the whole reading and the part of it from `u` on stop at the same place
  have hwhole : (Rule.run (readBinding (room + 1) least).run s).rest.skipLine = s.skipLine :=
    within_hereditary.readBinding (room + 1) least s
  rw [hrun] at hwhole
  exact (within_hereditary.chain (room - k) least l u).symm.trans hwhole

theorem bindingOverflows (bound : Nat) : BindingOverflows bound := by
  induction bound with
  | zero =>
      intro room _ _ _ _ _ _ _ _ hroom
      omega
  | succ bound ih =>
      intro room tight k n least ts e s t hroom hc hn hle hts ht hop
      cases room with
      | zero => exact Attempt.overflows_tooDeep s
      | succ room =>
          -- along the left operands, the innermost of which is read first
          induction hc generalizing t with
          | operand h =>
              rw [readBinding, primary_eq]
              exact (ih.primaryBy (by omega) h hn hts).bind _
          | @link tight k j n m ts us x op left right hl hx hp hr ihl _ =>
              obtain ⟨u, hu, hrest⟩ := Cursor.takes_append.1 hts
              obtain ⟨v, hv, hus⟩ := Cursor.takes_cons.1 hrest
              by_cases hleft : room + 1 < n
              · refine ihl (Nat.le_trans hle hp) hu ?_ ?_ hleft
                · rw [hv.peek_eq]
                  exact Token.ne_leftParen_of_binaryOp hx
                · rw [operator_of_kind (by rw [hv.peek_eq, hx]), if_neg (by omega)]
              · exact ih.link (by omega) hl (by omega) hx hp hr (by omega) hle hu hv hus ht hop

/-- An expression with more levels than there is room runs out of it. -/
theorem read_overflows {n : Nat} {ts : List Token} {e : Expr Unit} (he : Expression n ts e)
    (hn : room < n) (hts : s.Takes ts t) (ht : t.peek.EndsExpr) : Attempt.Overflows (read room) s :=
  (bindingOverflows (room + 1)).read (Nat.lt_succ_self room) he hn hts ht

end Expr

/-! ## The limit -/

/-- An expression takes up no more levels than another one of the same tokens: with as much room as that
    one needs, it is read as well. -/
theorem Grammar.Phrase.level_le {n m : Nat} {ts : List Token} {e e' : Expr Unit}
    (h : Expression n ts e) (h' : Expression m ts e') {s t : Cursor} (hts : s.Takes ts t)
    (ht : t.peek.EndsExpr) : m ≤ n := by
  obtain ⟨v, -, hv⟩ := Expr.read_complete n (Nat.le_refl n) h hts ht
  by_contra hlt
  exact hv.not_overflows (Expr.read_overflows h' (Nat.lt_of_not_le hlt) hts ht)

/-- The tokens of an expression determine its tree and how many levels it takes up. -/
theorem Grammar.Phrase.unique {n m : Nat} {ts : List Token} {e e' : Expr Unit}
    (h : Expression n ts e) (h' : Expression m ts e') : m = n ∧ e' = e := by
  have hts : Cursor.Takes ⟨[], ts, Cursor.endOf []⟩ ts ⟨ts.reverse, [], Cursor.endOf []⟩ :=
    ⟨(List.append_nil ts).symm, (List.append_nil _).symm, rfl⟩
  have ht : (Cursor.endOf []).EndsExpr := ⟨rfl, by decide⟩
  have hm : m = n := Nat.le_antisymm (h.level_le h' hts ht) (h'.level_le h hts ht)
  subst hm
  obtain ⟨v, rfl, hv⟩ := Expr.read_complete m (Nat.le_refl m) h hts ht
  obtain ⟨w, rfl, hw⟩ := Expr.read_complete m (Nat.le_refl m) h' hts ht
  have heq : v = w := by
    have hrun := hv.symm.trans hw
    simp only [Reading.mk.injEq, Except.ok.injEq] at hrun
    exact hrun.1
  exact ⟨rfl, by rw [heq]⟩

/-- Before a token that does not continue it, an expression that takes up `n` levels is read with `d`
    levels in use already if and only if there are `d + n` of them. Then exactly its tokens are consumed
    and nothing is recorded. Otherwise there is one error, which is not recorded, and the cursor is left
    at the next separator or at the end. How many levels there are is told by the tokens alone. -/
theorem read_iff_levels {d n : Nat} {ts : List Token} {e : Expr Unit} (h : Expression n ts e)
    {s t : Cursor} (hts : s.Takes ts t) (ht : t.peek.EndsExpr) :
    (∀ m e', Expression m ts e' → m = n ∧ e' = e) ∧
    (d + n ≤ maxNesting → ∃ v : Expr Range, v.shape = e ∧
      Rule.run (Expr.read (maxNesting - d)).run s = ⟨.ok v, [], t⟩) ∧
    (maxNesting < d + n → ∃ err line u,
      Rule.run (Expr.read (maxNesting - d)).run s = ⟨.error err, [], u⟩ ∧
        err.message = "Nesting too deep" ∧ s.Takes line u ∧ InLine line ∧
        (u.atEnd = true ∨ u.kind.isSeparator = true)) := by
  refine ⟨fun m e' h' => h.unique h', fun hfits => ?_, fun hover => ?_⟩
  · exact Expr.read_complete (maxNesting - d) (by omega) h hts ht
  · have hpos : 0 < n := by
      obtain ⟨hc⟩ := h
      exact hc.pos
    have hless : maxNesting - d < n := by omega
    obtain ⟨err, hlimit, hrun⟩ := Expr.read_overflows h hless hts ht
    obtain ⟨line, hline, hin, hend⟩ := s.takes_skipUntil (·.kind.isSeparator)
    exact ⟨err, line, s.skipLine, hrun, congrArg Complaint.message hlimit, hline, hin, hend⟩

/-- `(a OR f(1)) AND b < 2` takes up four levels: a pair of parentheses, the operator before `f`, its own
    parentheses and the number. So it is read with 252 levels in use and not with 253. -/
theorem read_iff_levels_mixed :
    let opening := Token.spelled (.symbol .leftParen) "("
    let closing := Token.spelled (.symbol .rightParen) ")"
    let content := [.spelled .identifier "a", .spelled (.keyword .OR) "OR", .spelled .identifier "f",
      opening, .spelled .numberLiteral "1", closing]
    let right := [.spelled .identifier "b", .spelled (.symbol .lessThan) "<",
      .spelled .numberLiteral "2"]
    let ts := (opening :: (content ++ [closing])) ++ .spelled (.keyword .AND) "AND" :: right
    let s : Cursor := ⟨[], ts ++ [lineFeed], Cursor.endOf []⟩
    (∃ e, Expression 4 ts e) ∧
      (∃ v, Rule.run (Expr.read (maxNesting - 252)).run s =
        ⟨.ok v, [], ⟨ts.reverse, [lineFeed], Cursor.endOf []⟩⟩) ∧
      ∃ err u, Rule.run (Expr.read (maxNesting - 253)).run s = ⟨.error err, [], u⟩ ∧
        err.message = "Nesting too deep" ∧ (u.atEnd = true ∨ u.kind.isSeparator = true) := by
  intro opening closing content right ts s
  have hname (name : String) : Operand 1 [.spelled .identifier name] (.identifier () name) := .name rfl
  have hnumber (text : String) : Operand 1 [.spelled .numberLiteral text] (.literal () (.number text)) :=
    .number rfl
  have hargument : Expression 1 [.spelled .numberLiteral "1"] _ := .mk (.operand (hnumber "1"))
  have hcall : Operand 2 (.spelled .identifier "f" :: opening ::
      ([.spelled .numberLiteral "1"] ++ [closing])) _ :=
    .call rfl (.some rfl (.one hargument) rfl)
  have hor : Chain Operand 0 1 3 ([.spelled .identifier "a"] ++ .spelled (.keyword .OR) "OR" ::
      .spelled .identifier "f" :: [opening, .spelled .numberLiteral "1", closing]) _ :=
    .link (.operand (hname "a")) rfl (Nat.zero_le _) (.operand hcall)
  have hless : Chain Operand (BinaryOp.and.power + 1) 1 2 ([.spelled .identifier "b"] ++
      .spelled (.symbol .lessThan) "<" :: [.spelled .numberLiteral "2"]) _ :=
    .link (.operand (hname "b")) rfl (by decide) (.operand (hnumber "2"))
  have hparens : Operand 4 (opening :: (content ++ [closing])) _ := .parens rfl (.mk hor) rfl
  have hand : Chain Operand 0 1 4 ts _ := .link (.operand hparens) rfl (Nat.zero_le _) hless
  have h : Expression 4 ts _ := .mk hand
  have hts : s.Takes ts ⟨ts.reverse, [lineFeed], Cursor.endOf []⟩ := ⟨rfl, rfl, rfl⟩
  have ht : lineFeed.EndsExpr := .of_separator rfl
  obtain ⟨v, -, hv⟩ := (@read_iff_levels 252 _ _ _ h _ _ hts ht).2.1 (by decide)
  obtain ⟨err, -, u, hrun, hmessage, -, -, hend⟩ :=
    (@read_iff_levels 253 _ _ _ h _ _ hts ht).2.2 (by decide)
  exact ⟨⟨_, h⟩, ⟨v, hv⟩, err, u, hrun, hmessage, hend⟩

end FourthGen
