import FourthGen.Proofs.Parser.CleanRules
import FourthGen.Proofs.Parser.Grammar

set_option autoImplicit false

/-! # What the grammar derives is parsed without errors

The converse of soundness: a rule started at tokens that the grammar derives, with room for the
levels of the derivation, reads them cleanly and yields the tree. What a rule reads also depends on
the token behind: a name is read on as a call if a parenthesis follows. So the lemmas say which tokens
may follow, and the grammar, with a separator behind every statement, provides such a token. -/

namespace FourthGen

open Grammar

/-- With `room` levels, the rule reads what `G` derives, as a value with the derived `view`, before
    any token that may follow. -/
def Rule.Complete {α β : Type} (p : Rule α) (view : α → β) (G : Nat → List Token → β → Prop)
    (follow : Token → Prop) (room : Nat) : Prop :=
  ∀ ⦃s t : Cursor⦄ ⦃n : Nat⦄ ⦃ts : List Token⦄ ⦃b : β⦄, n ≤ room → G n ts b → s.Takes ts t →
    follow t.peek → ∃ a, view a = b ∧ p.Clean s a t

/-- With `room` levels, the rule reads what `G` derives, as a value with the derived `view`, before
    any token that may follow. -/
def Attempt.Complete {α β : Type} (p : Attempt α) (view : α → β) (G : Nat → List Token → β → Prop)
    (follow : Token → Prop) (room : Nat) : Prop :=
  ∀ ⦃s t : Cursor⦄ ⦃n : Nat⦄ ⦃ts : List Token⦄ ⦃b : β⦄, n ≤ room → G n ts b → s.Takes ts t →
    follow t.peek → ∃ a, view a = b ∧ p.Clean s a t

theorem Cursor.check_eq_false {s : Cursor} {k : TokenKind} (h : s.peek.kind ≠ k) :
    s.check k = false := by
  cases hc : s.check k with
  | false => rfl
  | true =>
      obtain ⟨x, hx, hk⟩ := check_iff.1 hc
      rw [hx.peek_eq] at h
      exact absurd hk h

/-! ## Lists -/

/-- Items divided by commas are read if each of them is, before a comma and before what follows. -/
theorem Rule.commaList_complete {α β : Type} {more : Option α → Bool} {p : Rule (Option α)}
    {view : α → β} {G : Nat → List Token → β → Prop} {follow : Token → Prop}
    (hmore : ∀ a, more (some a) = true)
    (hcomma : ∀ x : Token, x.kind = .symbol .comma → follow x)
    (hp : ∀ ⦃s t : Cursor⦄ ⦃n : Nat⦄ ⦃ts : List Token⦄ ⦃b : β⦄, G n ts b → s.Takes ts t →
      follow t.peek → ∃ a, view a = b ∧ p.Clean s (some a) t)
    {n : Nat} {ts : List Token} {bs : List β} (h : CommaList G n ts bs) {s t : Cursor}
    (hts : s.Takes ts t) (ht : follow t.peek) (htk : t.peek.kind ≠ .symbol .comma) :
    ∃ os, (os.filterMap id).map view = bs ∧ (commaList more p).Clean s os t := by
  induction h generalizing s with
  | one h =>
      obtain ⟨a, rfl, ha⟩ := hp h hts ht
      refine ⟨[some a], rfl, clean_commaList.2 ⟨_, t, ha, .inl ⟨rfl, rfl, ?_⟩⟩⟩
      rw [Cursor.check_eq_false htk, Bool.and_false]
  | more h hc _ ih =>
      obtain ⟨u, hu, hrest⟩ := Cursor.takes_append.1 hts
      obtain ⟨v, hv, hus⟩ := Cursor.takes_cons.1 hrest
      obtain ⟨a, rfl, ha⟩ := hp h hu (by rw [hv.peek_eq]; exact hcomma _ hc)
      obtain ⟨os, rfl, hos⟩ := ih hus
      exact ⟨some a :: os, rfl,
        clean_commaList.2 ⟨_, u, ha, .inr ⟨hmore a, _, v, os, hv, hc, hos, rfl⟩⟩⟩

theorem Attempt.commaList_complete {α β : Type} {p : Attempt α} {view : α → β}
    {G : Nat → List Token → β → Prop} {follow : Token → Prop} {room : Nat}
    (hp : p.Complete view G follow room) (hcomma : ∀ x : Token, x.kind = .symbol .comma → follow x) :
    (commaList p).Complete (List.map view) (CommaList G)
      (fun x => follow x ∧ x.kind ≠ .symbol .comma) room := by
  intro s t n ts bs hn h hts ht
  induction h generalizing s with
  | one h =>
      obtain ⟨a, rfl, ha⟩ := hp hn h hts ht.1
      exact ⟨[a], rfl, clean_commaList.2 ⟨a, t, ha, .inl ⟨rfl, rfl, Cursor.check_eq_false ht.2⟩⟩⟩
  | more h hc _ ih =>
      obtain ⟨u, hu, hrest⟩ := Cursor.takes_append.1 hts
      obtain ⟨v, hv, hus⟩ := Cursor.takes_cons.1 hrest
      obtain ⟨a, rfl, ha⟩ := hp (by omega) h hu (by rw [hv.peek_eq]; exact hcomma _ hc)
      obtain ⟨as, rfl, has⟩ := ih (by omega) hus
      exact ⟨a :: as, rfl, clean_commaList.2 ⟨a, u, ha, .inr ⟨_, v, as, hv, hc, has, rfl⟩⟩⟩

/-- A list starts with its first item. -/
theorem Grammar.CommaList.head {α : Type} {G : Nat → List Token → α → Prop} {n : Nat}
    {ts : List Token} {as : List α} (h : CommaList G n ts as) :
    ∃ m a us vs, G m us a ∧ ts = us ++ vs := by
  cases h with
  | one h => exact ⟨_, _, _, [], h, by simp⟩
  | more h _ _ => exact ⟨_, _, _, _, h, rfl⟩

/-! ## Expressions -/

/-- The kinds that an operand can start with. -/
def TokenKind.opensOperand : TokenKind → Bool
  | .stringLiteral | .numberLiteral | .identifier | .symbol .leftParen => true
  | _ => false

/-- What may follow an expression: neither an operator nor an opening parenthesis. -/
def Token.EndsExpr (x : Token) : Prop :=
  x.kind.binaryOp? = none ∧ x.kind ≠ .symbol .leftParen

theorem Token.EndsExpr.of_kind {x : Token} {k : TokenKind} (h : x.kind = k)
    (ho : k.binaryOp? = none) (hp : k ≠ .symbol .leftParen) : x.EndsExpr := by
  subst h
  exact ⟨ho, hp⟩

theorem Token.EndsExpr.of_separator {x : Token} (h : x.kind.isSeparator = true) : x.EndsExpr := by
  unfold Token.EndsExpr
  cases hk : x.kind with
  | symbol mark => cases mark <;> simp_all [TokenKind.isSeparator, TokenKind.binaryOp?]
  | _ => simp_all [TokenKind.isSeparator, TokenKind.binaryOp?]

namespace Grammar

theorem Operand.head {n : Nat} {ts : List Token} {e : Expr Unit} (h : Operand n ts e) :
    ∃ x us, ts = x :: us ∧ x.kind.opensOperand = true := by
  cases h with
  | string h => exact ⟨_, _, rfl, by rw [h]; rfl⟩
  | number h => exact ⟨_, _, rfl, by rw [h]; rfl⟩
  | name h => exact ⟨_, _, rfl, by rw [h]; rfl⟩
  | call h _ => exact ⟨_, _, rfl, by rw [h]; rfl⟩
  | parens h _ _ => exact ⟨_, _, rfl, by rw [h]; rfl⟩

theorem Chain.head {least k n : Nat} {ts : List Token} {e : Expr Unit}
    (h : Chain Operand least k n ts e) : ∃ x us, ts = x :: us ∧ x.kind.opensOperand = true := by
  induction h with
  | operand h => exact h.head
  | link _ _ _ _ ihl _ =>
      obtain ⟨x, us, rfl, hx⟩ := ihl
      exact ⟨x, _, rfl, hx⟩

/-- An expression starts with an operand. -/
theorem Phrase.head {n : Nat} {ts : List Token} {e : Expr Unit} (h : Expression n ts e) :
    ∃ x us, ts = x :: us ∧ x.kind.opensOperand = true := by
  obtain ⟨h⟩ := h
  exact h.head

/-- An operand takes up a level. -/
theorem Operand.pos {n : Nat} {ts : List Token} {e : Expr Unit} (h : Operand n ts e) : 0 < n := by
  cases h <;> omega

theorem Chain.pos {least k n : Nat} {ts : List Token} {e : Expr Unit}
    (h : Chain Operand least k n ts e) : 0 < n := by
  induction h with
  | operand h => exact h.pos
  | link _ _ _ _ ihl _ => omega

end Grammar

namespace Expr

theorem argumentsBy_complete {inner : Attempt (Expr Range)} {room : Nat}
    (hinner : inner.Complete shape Expression Token.EndsExpr room) {n : Nat} {ts : List Token}
    {args : List (Expr Unit)} (hn : n ≤ room) (h : ParenList Expression n ts args) {s t : Cursor}
    (hts : s.Takes ts t) :
    ∃ opening u as, s.Takes [opening] u ∧ opening.kind = .symbol .leftParen ∧
      as.map shape = args ∧ Attempt.Clean (argumentsBy inner) u as t := by
  have hfollow : ∀ x : Token, x.kind = .symbol .comma → x.EndsExpr :=
    fun _ hx => .of_kind hx rfl (by decide)
  cases h with
  | none ho hc =>
      obtain ⟨u, hu, hcl⟩ := Cursor.takes_cons.1 hts
      refine ⟨_, u, [], hu, ho, rfl, clean_argumentsBy.2 ⟨u, _, hcl, hc, .inl ⟨?_, rfl, rfl⟩⟩⟩
      rw [hcl.kind_eq, hc]
  | some ho h hc =>
      obtain ⟨u, hu, hrest⟩ := Cursor.takes_cons.1 hts
      obtain ⟨v, hv, hcl⟩ := Cursor.takes_append.1 hrest
      obtain ⟨as, has, hclean⟩ := Attempt.commaList_complete hinner hfollow hn h hv
        (by rw [hcl.peek_eq]; exact ⟨.of_kind hc rfl (by decide), by rw [hc]; decide⟩)
      refine ⟨_, u, as, hu, ho, has, clean_argumentsBy.2 ⟨v, _, hcl, hc, .inr ⟨?_, hclean⟩⟩⟩
      -- the first argument does not start with a closing parenthesis
      obtain ⟨_, _, us, vs, hfirst, rfl⟩ := h.head
      obtain ⟨x, us', rfl, hx⟩ := hfirst.head
      rw [hv.kind_eq]
      intro hk
      rw [hk] at hx
      cases hx

/-- An operand is read if no parenthesis follows that would make a call of it. -/
theorem primaryBy_complete {inner : Attempt (Expr Range)} {room : Nat}
    (hinner : inner.Complete shape Expression Token.EndsExpr room) :
    (primaryBy inner).Complete shape Operand (fun x => x.kind ≠ .symbol .leftParen) (room + 1) := by
  intro s t n ts e hn h hts ht
  cases h with
  | string hk => exact ⟨_, rfl, (clean_primaryBy hts).2 (.inl ⟨hk, rfl, rfl⟩)⟩
  | number hk => exact ⟨_, rfl, (clean_primaryBy hts).2 (.inr (.inl ⟨hk, rfl, rfl⟩))⟩
  | name hk =>
      exact ⟨_, rfl, (clean_primaryBy hts).2
        (.inr (.inr (.inl ⟨hk, Cursor.check_eq_false ht, rfl, rfl⟩)))⟩
  | call hk hs =>
      obtain ⟨u, hx, hrest⟩ := Cursor.takes_cons.1 hts
      obtain ⟨opening, v, as, ho, hok, rfl, hclean⟩ :=
        argumentsBy_complete hinner (by omega) hs hrest
      exact ⟨_, shape_call .., (clean_primaryBy hx).2
        (.inr (.inr (.inr (.inl ⟨hk, opening, v, as, ho, hok, hclean, rfl⟩))))⟩
  | parens hk he hc =>
      obtain ⟨u, hx, hrest⟩ := Cursor.takes_cons.1 hts
      obtain ⟨v, hv, hcl⟩ := Cursor.takes_append.1 hrest
      obtain ⟨content, rfl, hclean⟩ := hinner (by omega) he hv
        (by rw [hcl.peek_eq]; exact .of_kind hc rfl (by decide))
      exact ⟨_, shape_withRange .., (clean_primaryBy hx).2
        (.inr (.inr (.inr (.inr ⟨hk, content, v, _, hclean, hcl, hc, rfl⟩))))⟩

/-- What is shown of `readBinding`, one level up: having read a derived chain, it goes on with the
    operators behind it, with a level less for each operator of the chain. -/
def BindingComplete (room : Nat) : Prop :=
  ∀ ⦃tight k n : Nat⦄ ⦃ts : List Token⦄ ⦃e : Expr Unit⦄ ⦃least : Nat⦄ ⦃s t : Cursor⦄,
    Chain Operand tight k n ts e → n ≤ room + 1 → least ≤ tight → s.Takes ts t →
    t.peek.kind ≠ .symbol .leftParen → t.operator? (tight + 1) = none →
    k ≤ room ∧ ∃ v : Expr Range, v.shape = e ∧ ∀ ⦃w r⦄, Attempt.Clean (chain (room - k) least v) t w r →
      Attempt.Clean (readBinding (room + 1) least) s w r

theorem operator_eq_none {s : Cursor} {least least' : Nat} (h : s.operator? least = none)
    (hle : least ≤ least') : s.operator? least' = none := by
  rw [Cursor.operator?, Option.filter_eq_none_iff] at h ⊢
  intro op hop
  have := h op hop
  simp only [decide_eq_true_eq] at this ⊢
  omega

theorem operator_of_kind {s : Cursor} {op : BinaryOp} (h : s.peek.kind.binaryOp? = some op)
    (least : Nat) : s.operator? least = if least ≤ op.power then some op else none := by
  rw [Cursor.operator?, Cursor.kind, h, Option.filter_some]
  simp

/-- A whole chain is read where no operator follows that it would take. -/
theorem BindingComplete.readBinding {room : Nat} (h : BindingComplete room) {k n : Nat}
    {ts : List Token} {e : Expr Unit} {least : Nat} {s t : Cursor} (hc : Chain Operand least k n ts e)
    (hn : n ≤ room + 1) (hts : s.Takes ts t) (ht : t.peek.kind ≠ .symbol .leftParen)
    (hop : t.operator? least = none) :
    ∃ v : Expr Range, v.shape = e ∧ Attempt.Clean (readBinding (room + 1) least) s v t := by
  obtain ⟨-, v, hv, hcont⟩ := h hc hn (Nat.le_refl _) hts ht (operator_eq_none hop (Nat.le_succ _))
  exact ⟨v, hv, hcont (clean_chain.2 (.inl ⟨hop, rfl, rfl⟩))⟩

theorem read_complete_of_binding {room : Nat} (h : BindingComplete room) :
    (read (room + 1)).Complete shape Expression Token.EndsExpr (room + 1) := by
  intro s t n ts e hn he hts ht
  obtain ⟨hc⟩ := he
  refine h.readBinding hc hn hts ht.2 ?_
  rw [Cursor.operator?, Cursor.kind, ht.1]
  rfl

theorem read_zero_complete : (read 0).Complete shape Expression Token.EndsExpr 0 := by
  intro s t n ts e hn he _ _
  obtain ⟨hc⟩ := he
  have := hc.pos
  omega

/-- One operand: with the expressions inside of it, which have a level less. -/
theorem binding_operand {room : Nat} (hread : (read room).Complete shape Expression Token.EndsExpr room)
    {n : Nat} {ts : List Token} {e : Expr Unit} (h : Operand n ts e) (hn : n ≤ room + 1) {s t : Cursor}
    (hts : s.Takes ts t) (ht : t.peek.kind ≠ .symbol .leftParen) (least : Nat) :
    ∃ v : Expr Range, v.shape = e ∧ ∀ ⦃w r⦄, Attempt.Clean (chain room least v) t w r →
      Attempt.Clean (readBinding (room + 1) least) s w r := by
  obtain ⟨v, hv, hclean⟩ := primaryBy_complete hread hn h hts ht
  refine ⟨v, hv, fun w r hw => clean_readBinding.2 ⟨v, t, ?_, hw⟩⟩
  rw [primary_eq]
  exact hclean

theorem bindingComplete (room : Nat) : BindingComplete room := by
  induction room using Nat.strongRecOn with
  | ind room ih =>
    have hread : (read room).Complete shape Expression Token.EndsExpr room := by
      cases room with
      | zero => exact read_zero_complete
      | succ room => exact read_complete_of_binding (ih room (Nat.lt_succ_self _))
    intro tight k n ts e least s t hc hn hle hts ht hop
    -- along the left operands, which the loop has read before it reaches their operator
    induction hc generalizing t with
    | operand h => exact ⟨Nat.zero_le _, binding_operand hread h hn hts ht least⟩
    | @link tight k j n m ts us x op left right hl hx hp hr ihl _ =>
        obtain ⟨u, hu, hrest⟩ := Cursor.takes_append.1 hts
        obtain ⟨v, hv, hus⟩ := Cursor.takes_cons.1 hrest
        have hopu := @operator_of_kind u op (by rw [hv.peek_eq, hx])
        have hxk : u.peek.kind ≠ .symbol .leftParen := by
          rw [hv.peek_eq]
          intro hk
          rw [hk] at hx
          cases hx
        obtain ⟨-, l, hlshape, hcont⟩ := ihl (by omega) (Nat.le_trans hle hp) hu hxk
          (by rw [hopu, if_neg (by omega)])
        have hpos := hr.pos
        -- the right operand has the room that the operators before it leave
        obtain ⟨next, hnext⟩ : ∃ next, room - k = next + 1 := ⟨room - k - 1, by omega⟩
        obtain ⟨r, hrshape, hrclean⟩ := (ih next (by omega)).readBinding hr (by omega) hus ht
          (operator_eq_none hop (by omega))
        refine ⟨by omega, .binary (l.range.cover r.range) op l r, ?_, ?_⟩
        · rw [shape_binary, hlshape, hrshape]
        · intro w z hw
          apply hcont
          rw [hnext]
          refine clean_chain.2 (.inr ⟨next, op, x, v, r, t, rfl, ?_, (Rule.clean_advance hv).2 ⟨rfl, rfl⟩,
            hrclean, ?_⟩)
          · rw [hopu, if_pos (Nat.le_trans hle hp)]
          · rw [show next = room - (k + 1) by omega]
            exact hw

/-- A derived expression is read, before a token that does not continue it. -/
theorem read_complete (room : Nat) : (read room).Complete shape Expression Token.EndsExpr room := by
  cases room with
  | zero => exact read_zero_complete
  | succ room => exact read_complete_of_binding (bindingComplete room)

end Expr

/-! ## Names and types -/

/-- What may follow a declared name: it goes on neither with sizes nor with another name. -/
def Token.EndsDeclared (x : Token) : Prop :=
  x.kind ≠ .symbol .leftParen ∧ x.kind ≠ .symbol .comma

theorem Token.EndsDeclared.of_separator {x : Token} (h : x.kind.isSeparator = true) :
    x.EndsDeclared := by
  constructor <;> intro hk <;> rw [hk] at h <;> cases h

namespace Rule

theorem expectNumber_complete {s t : Cursor} {n : Nat} {ts : List Token} {size : String}
    (h : Size n ts size) (hts : s.Takes ts t) :
    ∃ a : Token, a.text = size ∧ (expect .numberLiteral .missingTypeSize).Clean s (some a) t := by
  cases h with
  | mk hk => exact ⟨_, rfl, clean_expect.2 ⟨_, hts, hk, rfl⟩⟩

theorem dataType_complete {ts : List Token} {type : String} (h : TypeName ts type) {s t : Cursor}
    (hts : s.Takes ts t) (ht : t.peek.kind ≠ .symbol .leftParen) : dataType.Clean s type t := by
  cases h with
  | plain hk =>
      refine (clean_dataType hts).2 ⟨hk, .inl ⟨?_, rfl, rfl⟩⟩
      rw [atSizes, Cursor.check_eq_false ht, Bool.false_and]
  | sized hk ho hs hc =>
      obtain ⟨u, hx, hrest⟩ := Cursor.takes_cons.1 hts
      obtain ⟨v, hv, hrest⟩ := Cursor.takes_cons.1 hrest
      obtain ⟨w, hw, hcl⟩ := Cursor.takes_append.1 hrest
      obtain ⟨found, rfl, hfound⟩ := @commaList_complete _ _ Option.isSome
        (expect .numberLiteral .missingTypeSize) Token.text Size (fun _ => True) (fun _ => rfl)
        (fun _ _ => trivial) (fun _ _ _ _ _ h hts _ => expectNumber_complete h hts) _ _ _ hs v w hw
        trivial (by rw [hcl.peek_eq, hc]; decide)
      refine (clean_dataType hx).2 ⟨hk, .inr ⟨?_, _,
        (clean_typeSizes hv).2 ⟨found, w, _, hfound, hcl, hc, rfl⟩, rfl⟩⟩
      -- sizes start with a parenthesis and a number
      obtain ⟨_, _, us, vs, ⟨hnumber⟩, rfl⟩ := hs.head
      rw [atSizes, hv.check_eq, ho, hv.peekNth_one, hw.peek_eq, hnumber]
      rfl

theorem declared_complete (role : NameRole) {n : Nat} {ts : List Token} {v : Variable Unit}
    (h : Declared n ts v) {s t : Cursor} (hts : s.Takes ts t)
    (ht : t.peek.kind ≠ .symbol .leftParen) :
    ∃ a : Variable Range, a.shape = v ∧ (declared? role).Clean s (some a) t := by
  cases h with
  | mk hk hty =>
      obtain ⟨u, hx, hrest⟩ := Cursor.takes_cons.1 hts
      exact ⟨_, rfl, clean_declared.2 ⟨_, u, _, hx, hk, dataType_complete hty hrest ht, rfl⟩⟩

theorem declaredList_complete (role : NameRole) {n : Nat} {ts : List Token}
    {vars : List (Variable Unit)} (h : CommaList Declared n ts vars) {s t : Cursor}
    (hts : s.Takes ts t) (ht : t.peek.EndsDeclared) :
    ∃ vs : List (Variable Range), vs.map Variable.shape = vars ∧ (declaredList role).Clean s vs t := by
  obtain ⟨os, rfl, hos⟩ := @commaList_complete _ _ (fun _ => true) (declared? role) Variable.shape
    Declared (fun x => x.kind ≠ .symbol .leftParen) (fun _ => rfl) (fun x hx => by rw [hx]; decide)
    (fun _ _ _ _ _ h hts ht => declared_complete role h hts ht) _ _ _ h s t hts ht.1 ht.2
  exact ⟨_, rfl, clean_declaredList.2 ⟨os, hos, rfl⟩⟩

theorem parameters_complete (r : Routine) {n : Nat} {ts : List Token} {params : List (Variable Unit)}
    (h : ParenList Declared n ts params) {s t : Cursor} (hts : s.Takes ts t) :
    ∃ vs : List (Variable Range), vs.map Variable.shape = params ∧ (parameters r).Clean s vs t := by
  cases h with
  | none ho hc =>
      obtain ⟨u, hu, hcl⟩ := Cursor.takes_cons.1 hts
      refine ⟨[], rfl, clean_parameters.2 ⟨_, u, u, _, hu, ho, hcl, hc, .inl ⟨?_, rfl, rfl⟩⟩⟩
      rw [hcl.check_eq, hc]
      rfl
  | some ho h hc =>
      obtain ⟨u, hu, hrest⟩ := Cursor.takes_cons.1 hts
      obtain ⟨v, hv, hcl⟩ := Cursor.takes_append.1 hrest
      have hend : v.peek.EndsDeclared := by
        rw [hcl.peek_eq, Token.EndsDeclared, hc]
        decide
      obtain ⟨vs, hvs, hclean⟩ := declaredList_complete .parameter h hv hend
      refine ⟨vs, hvs, clean_parameters.2 ⟨_, u, v, _, hu, ho, hcl, hc, .inr ⟨?_, hclean⟩⟩⟩
      -- the list starts with a name
      obtain ⟨_, _, us, ws, ⟨hname, -⟩, rfl⟩ := h.head
      rw [hv.check_eq, hname]
      rfl

/-- What starts an identifier is no separator, so that a word is not mistaken for one. -/
theorem isWord_eq_false {x : Token} (h : x.kind ≠ .identifier) (word : String) :
    x.isWord word = false := by
  simp [Token.isWord, h]

theorem returning_complete {ts : List Token} {o : Option String} (h : Returning ts o) {s t : Cursor}
    (hts : s.Takes ts t) (ht : t.peek.kind.isSeparator = true) : returning?.Clean s o t := by
  cases h with
  | none =>
      obtain rfl := Cursor.takes_nil.1 hts
      refine clean_returning.2 (.inl ⟨isWord_eq_false ?_ _, rfl, rfl⟩)
      intro hk
      rw [hk] at ht
      cases ht
  | some hw hty =>
      obtain ⟨u, hx, hrest⟩ := Cursor.takes_cons.1 hts
      refine clean_returning.2 (.inr ⟨by rw [hx.atWord_eq, hw], _, ?_, rfl⟩)
      rw [hx.advance_eq]
      exact dataType_complete hty hrest (Token.EndsDeclared.of_separator ht).1

/-! ## Closing words -/

theorem compoundEnd_complete {c : Compound} {ts : List Token} (h : CompoundEnd c ts) {s t : Cursor}
    (hts : s.Takes ts t) : (compoundEnd c).Clean s () t := by
  cases h with
  | short hk => exact clean_compoundEnd.2 (.inl ⟨_, hts, hk⟩)
  | long hw hk =>
      obtain ⟨u, hx, hy⟩ := Cursor.takes_cons.1 hts
      have hid : s.peek.kind = .identifier := by rw [hx.peek_eq, Token.isWord_kind hw]
      refine clean_compoundEnd.2 (.inr ⟨Cursor.check_eq_false ?_, by rw [hx.atWord_eq, hw], ?_, ?_⟩)
      · rw [hid]
        exact fun h => by cases h
      · rw [hx.peekNth_one, hy.peek_eq, hk]
      · rw [hx.advance_eq, hy.advance_eq]

/-- `END` alone is not the closing word of a declaration. -/
theorem closingWord_of_end {x : Token} (h : x.isWord "END" = true) (r : Routine) :
    x.isWord r.closingWord = false := by
  simp only [Token.isWord, Text.sameWord, Bool.and_eq_true, beq_iff_eq] at h
  simp only [Token.isWord, Text.sameWord, h.2]
  cases r <;> simp [Routine.closingWord]

theorem routineEnd_complete {r : Routine} {ts : List Token} (h : RoutineEnd r ts) {s t : Cursor}
    (hts : s.Takes ts t) (ht : t.peek.kind ≠ .keyword r.opener) : (routineEnd r).Clean s () t := by
  cases h with
  | own hw => exact clean_routineEnd.2 (.inl ⟨by rw [hts.atWord_eq, hw], hts.advance_eq.symm⟩)
  | short hw =>
      refine clean_routineEnd.2 (.inr ⟨?_, by rw [hts.atWord_eq, hw], false, ?_⟩)
      · rw [hts.atWord_eq, closingWord_of_end hw]
      · rw [hts.advance_eq]
        exact clean_accept.2 (.inr ⟨rfl, rfl, by simp [Cursor.check_eq_false ht]⟩)
  | long hw hk =>
      obtain ⟨u, hx, hy⟩ := Cursor.takes_cons.1 hts
      refine clean_routineEnd.2 (.inr ⟨?_, by rw [hx.atWord_eq, hw], true, ?_⟩)
      · rw [hx.atWord_eq, closingWord_of_end hw]
      · rw [hx.advance_eq]
        exact clean_accept.2 (.inl ⟨rfl, _, hy, by simp [hk]⟩)

end Rule

/-! ## Where pieces start -/

theorem Token.endsBlock_of_isWord {x : Token} {word : String} (h : x.isWord word = true)
    (hw : word ∈ Cursor.closingWords) : x.endsBlock = true := by
  rw [Token.endsBlock, Token.isWord_kind h]
  exact List.any_eq_true.2 ⟨word, hw, h⟩

/-- A block stops before what closes the statement that it belongs to, which is not `ELSE`. -/
theorem Grammar.CompoundEnd.head {c : Compound} {ts : List Token} (h : CompoundEnd c ts) :
    ∃ x us, ts = x :: us ∧ x.endsBlock = true ∧ x.kind ≠ .keyword .ELSE := by
  cases h with
  | short hk =>
      refine ⟨_, [], rfl, ?_⟩
      rw [Token.endsBlock, hk]
      cases c <;> exact ⟨rfl, by decide⟩
  | long hw _ =>
      refine ⟨_, _, rfl, Token.endsBlock_of_isWord hw (by decide), ?_⟩
      rw [Token.isWord_kind hw]
      exact fun h => by cases h

/-- A block stops before what closes the declaration that it belongs to. -/
theorem Grammar.RoutineEnd.head {r : Routine} {ts : List Token} (h : RoutineEnd r ts) :
    ∃ x us, ts = x :: us ∧ x.endsBlock = true := by
  cases h with
  | own hw => exact ⟨_, _, rfl, Token.endsBlock_of_isWord hw (by cases r <;> decide)⟩
  | short hw => exact ⟨_, _, rfl, Token.endsBlock_of_isWord hw (by decide)⟩
  | long hw _ => exact ⟨_, _, rfl, Token.endsBlock_of_isWord hw (by decide)⟩

/-- A token that ends a block is no separator. -/
theorem Token.not_separator_of_endsBlock {x : Token} (h : x.endsBlock = true) :
    x.kind.isSeparator = false := by
  cases hs : x.kind.isSeparator with
  | false => rfl
  | true =>
      unfold Token.endsBlock at h
      split at h <;> simp_all [TokenKind.isSeparator]

/-- A gap that has to be there starts with a separator. -/
theorem Grammar.Gap.head {g us : List Token} {s t : Cursor} (hg : Gap 1 g)
    (h : s.Takes (g ++ us) t) : s.peek.kind.isSeparator = true := by
  obtain ⟨hlen, hall⟩ := hg
  cases g with
  | nil => cases hlen
  | cons x g =>
      rw [h.peek_eq]
      exact hall x List.mem_cons_self

theorem Grammar.Block.head {G : Nat → List Token → Stmt Unit → Prop} {n : Nat} {ts : List Token}
    {body : List (Stmt Unit)} (hb : Block 1 G n ts body) {us : List Token} {s t : Cursor}
    (h : s.Takes (ts ++ us) t) : s.peek.kind.isSeparator = true := by
  obtain ⟨hg, -⟩ := hb
  rw [List.append_assoc] at h
  exact hg.head h

/-- Whether a statement can start with a token: it is no separator, opens no declaration and ends no
    block. -/
def Token.opensStatement (x : Token) : Bool :=
  !x.kind.isSeparator && !x.endsBlock && x.kind != .keyword .FUNCTION && x.kind != .keyword .PROCEDURE

theorem Token.opensStatement_of_kind {x : Token} {k : Keyword} (h : x.kind = .keyword k)
    (hk : k ∈ [Keyword.DEFINE, .LET, .IF, .WHILE, .FOR, .CALL, .RETURN, .SELECT, .INSERT, .UPDATE,
      .DELETE]) : x.opensStatement = true := by
  rw [Token.opensStatement, Token.endsBlock, h]
  simp only [List.mem_cons, List.not_mem_nil, or_false] at hk
  rcases hk with rfl | rfl | rfl | rfl | rfl | rfl | rfl | rfl | rfl | rfl | rfl <;> rfl

theorem Token.opensStatement_of_operand {x : Token} (h : x.kind.opensOperand = true)
    (hx : x.endsBlock = false) : x.opensStatement = true := by
  rw [Token.opensStatement, hx]
  unfold TokenKind.opensOperand at h
  split at h <;> simp_all [TokenKind.isSeparator]

theorem Grammar.Statement.head {gap n : Nat} {ts : List Token} {stmt : Stmt Unit}
    (h : Statement gap n ts stmt) : ∃ x us, ts = x :: us ∧ x.opensStatement = true := by
  cases h with
  | define h _ => exact ⟨_, _, rfl, Token.opensStatement_of_kind h (by decide)⟩
  | assign h _ _ _ => exact ⟨_, _, rfl, Token.opensStatement_of_kind h (by decide)⟩
  | ifThen h _ _ _ _ => exact ⟨_, _, rfl, Token.opensStatement_of_kind h (by decide)⟩
  | ifThenElse h _ _ _ _ _ _ => exact ⟨_, _, rfl, Token.opensStatement_of_kind h (by decide)⟩
  | whileLoop h _ _ _ => exact ⟨_, _, rfl, Token.opensStatement_of_kind h (by decide)⟩
  | forLoop h _ _ _ => exact ⟨_, _, rfl, Token.opensStatement_of_kind h (by decide)⟩
  | callName h _ => exact ⟨_, _, rfl, Token.opensStatement_of_kind h (by decide)⟩
  | call h _ _ => exact ⟨_, _, rfl, Token.opensStatement_of_kind h (by decide)⟩
  | giveBackNothing h => exact ⟨_, _, rfl, Token.opensStatement_of_kind h (by decide)⟩
  | giveBack h _ _ => exact ⟨_, _, rfl, Token.opensStatement_of_kind h (by decide)⟩
  | @sql _ _ kind h _ => exact ⟨_, _, rfl, Token.opensStatement_of_kind h (by cases kind <;> decide)⟩
  | expression hx he =>
      obtain ⟨_, _, heq, hop⟩ := he.head
      cases heq
      exact ⟨_, _, rfl, Token.opensStatement_of_operand hop hx⟩

/-! ## Rounds -/

/-- What follows a header or a statement. -/
def Token.Separates (x : Token) : Prop := x.kind.isSeparator = true

theorem Grammar.InLine.skipLine_eq {ts : List Token} (hline : InLine ts) {s t : Cursor}
    (hts : s.Takes ts t) (ht : t.peek.Separates) : s.skipLine = t :=
  hts.skipUntil_eq hline (.inr ht)

/-- Rounds of a rule read pieces that each have a separator behind them, up to the end of the text or
    to a token where they stop, if none of the pieces starts with such a token. -/
theorem Attempt.rounds_complete {α β : Type} {stop : Cursor → Bool} {p : Attempt α} {view : α → β}
    {G : Nat → List Token → β → Prop} {room : Nat} (hadv : (recovering p).Advances)
    (hstart : ∀ ⦃n ts b⦄, G n ts b → ∃ x us, ts = x :: us ∧ x.kind.isSeparator = false ∧
      ∀ s : Cursor, s.peek = x → stop s = false)
    (hp : p.Complete view G Token.Separates room) {n : Nat} {ts : List Token} {bs : List β}
    (hn : n ≤ room) (h : Lines 1 G n ts bs) {least : Nat} {g : List Token} (hg : Gap least g)
    {s t : Cursor} (hts : s.Takes (g ++ ts) t)
    (ht : t.atEnd = true ∨ (t.peek.kind.isSeparator = false ∧ stop t = true)) :
    ∃ as, as.map view = bs ∧ (Rule.rounds stop (recovering p)).Clean s as t := by
  induction h generalizing s g least with
  | nil =>
      rw [List.append_nil] at hts
      have hskip := hts.skipSeparators_eq hg.2 (ht.imp_right And.left)
      refine ⟨[], rfl, (clean_rounds hadv).2 (.inl ⟨?_, rfl, hskip.symm⟩)⟩
      rw [hskip]
      rcases ht with ht | ⟨-, ht⟩ <;> simp [ht]
  | cons h hg' _ ih =>
      obtain ⟨u, hu, hrest⟩ := Cursor.takes_append.1 hts
      obtain ⟨v, hv, hrest⟩ := Cursor.takes_append.1 hrest
      obtain ⟨a, rfl, ha⟩ := hp (by omega) h hv (hg'.head hrest)
      obtain ⟨as, rfl, has⟩ := ih (by omega) hg' hrest
      obtain ⟨x, us, rfl, hx, hgo⟩ := hstart h
      have hskip := hu.skipSeparators_eq hg.2 (.inr (by rw [hv.peek_eq, hx]))
      refine ⟨a :: as, rfl, (clean_rounds hadv).2 (.inr ⟨?_, a, v, as, ?_, has, rfl⟩)⟩
      · rw [hskip, hv.atEnd_eq, hgo u hv.peek_eq, Bool.or_self]
      · rw [hskip]
        exact ha

/-! ## Statements -/

namespace Stmt

variable {room : Nat} {block : Rule (List (Stmt Range))} {s u t : Cursor} {x : Token}

theorem readConditional_complete
    (hblock : block.Complete (List.map shape) (Block 1 (Statement 1)) (·.endsBlock = true) room)
    {n m : Nat} {then_ : Token} {ts us ends : List Token} {e : Expr Unit} {body : List (Stmt Unit)}
    (hn : max n m ≤ room) (he : Expression n ts e) (htk : then_.kind = .keyword .THEN)
    (hb : Block 1 (Statement 1) m us body) (hc : CompoundEnd .conditional ends)
    (hx : s.Takes [x] u) (hrest : u.Takes (ts ++ then_ :: (us ++ ends)) t) :
    ∃ v : Stmt Range, v.shape = .conditional () e body [] ∧ (readConditional room block).Clean s v t := by
  obtain ⟨v, hv, hrest⟩ := Cursor.takes_append.1 hrest
  obtain ⟨w, hw, hrest⟩ := Cursor.takes_cons.1 hrest
  obtain ⟨y, hy, hends⟩ := Cursor.takes_append.1 hrest
  obtain ⟨end_, _, rfl, hend, helse⟩ := hc.head
  obtain ⟨condition, rfl, hcond⟩ := Expr.read_complete room (by omega) he hv
    (by rw [hw.peek_eq]; exact .of_kind htk rfl (by decide))
  obtain ⟨stmts, rfl, hstmts⟩ := hblock (by omega) hb hy (by rw [hends.peek_eq]; exact hend)
  refine ⟨_, ?_, (clean_readConditional hx).2 ⟨condition, v, then_, w, stmts, y, [], y, (), hcond, hw,
    htk, hstmts, .inl ⟨Cursor.check_eq_false ?_, rfl, rfl⟩, Rule.compoundEnd_complete hc hends, rfl⟩⟩
  · rw [shape_conditional, List.map_nil]
  · rw [hends.peek_eq]
    exact helse

theorem readConditional_else_complete
    (hblock : block.Complete (List.map shape) (Block 1 (Statement 1)) (·.endsBlock = true) room)
    {n m k : Nat} {then_ else_ : Token} {ts us vs ends : List Token} {e : Expr Unit}
    {body alternative : List (Stmt Unit)} (hn : max n (max m k) ≤ room) (he : Expression n ts e)
    (htk : then_.kind = .keyword .THEN) (hb : Block 1 (Statement 1) m us body)
    (hek : else_.kind = .keyword .ELSE) (hd : Block 1 (Statement 1) k vs alternative)
    (hc : CompoundEnd .conditional ends) (hx : s.Takes [x] u)
    (hrest : u.Takes (ts ++ then_ :: (us ++ else_ :: (vs ++ ends))) t) :
    ∃ v : Stmt Range, v.shape = .conditional () e body alternative ∧
      (readConditional room block).Clean s v t := by
  obtain ⟨v, hv, hrest⟩ := Cursor.takes_append.1 hrest
  obtain ⟨w, hw, hrest⟩ := Cursor.takes_cons.1 hrest
  obtain ⟨y, hy, hrest⟩ := Cursor.takes_append.1 hrest
  obtain ⟨y', hy', hrest⟩ := Cursor.takes_cons.1 hrest
  obtain ⟨z, hz, hends⟩ := Cursor.takes_append.1 hrest
  obtain ⟨end_, _, rfl, hend, -⟩ := hc.head
  obtain ⟨condition, rfl, hcond⟩ := Expr.read_complete room (by omega) he hv
    (by rw [hw.peek_eq]; exact .of_kind htk rfl (by decide))
  have helse : y.peek.endsBlock = true := by
    rw [hy'.peek_eq, Token.endsBlock, hek]
  obtain ⟨stmts, rfl, hstmts⟩ := hblock (by omega) hb hy helse
  obtain ⟨others, rfl, hothers⟩ := hblock (by omega) hd hz (by rw [hends.peek_eq]; exact hend)
  exact ⟨_, shape_conditional .., (clean_readConditional hx).2 ⟨condition, v, then_, w, stmts, y, others,
    z, (), hcond, hw, htk, hstmts, .inr ⟨else_, y', hy', hek, hothers⟩,
    Rule.compoundEnd_complete hc hends, rfl⟩⟩

theorem readWhile_complete
    (hblock : block.Complete (List.map shape) (Block 1 (Statement 1)) (·.endsBlock = true) room)
    {n m : Nat} {ts us ends : List Token} {e : Expr Unit} {body : List (Stmt Unit)}
    (hn : max n m ≤ room) (he : Expression n ts e) (hb : Block 1 (Statement 1) m us body)
    (hc : CompoundEnd .whileLoop ends) (hx : s.Takes [x] u) (hrest : u.Takes (ts ++ (us ++ ends)) t) :
    ∃ v : Stmt Range, v.shape = .whileLoop () e body ∧ (readWhile room block).Clean s v t := by
  obtain ⟨v, hv, hrest⟩ := Cursor.takes_append.1 hrest
  obtain ⟨condition, rfl, hcond⟩ :=
    Expr.read_complete room (by omega) he hv (.of_separator (hb.head hrest))
  obtain ⟨w, hw, hends⟩ := Cursor.takes_append.1 hrest
  obtain ⟨end_, _, rfl, hend, -⟩ := hc.head
  obtain ⟨stmts, rfl, hstmts⟩ := hblock (by omega) hb hw (by rw [hends.peek_eq]; exact hend)
  exact ⟨_, shape_whileLoop .., (clean_readWhile hx).2
    ⟨condition, v, stmts, w, (), hcond, hstmts, Rule.compoundEnd_complete hc hends, rfl⟩⟩

theorem readFor_complete
    (hblock : block.Complete (List.map shape) (Block 1 (Statement 1)) (·.endsBlock = true) room)
    {n : Nat} {header us ends : List Token} {body : List (Stmt Unit)} (hn : n ≤ room)
    (hline : InLine header) (hb : Block 1 (Statement 1) n us body) (hc : CompoundEnd .forLoop ends)
    (hx : s.Takes [x] u) (hrest : u.Takes (header ++ (us ++ ends)) t) :
    ∃ v : Stmt Range, v.shape = .forLoop () body ∧ (readFor block).Clean s v t := by
  obtain ⟨v, hv, hrest⟩ := Cursor.takes_append.1 hrest
  have hskip := hline.skipLine_eq hv (hb.head hrest)
  obtain ⟨w, hw, hends⟩ := Cursor.takes_append.1 hrest
  obtain ⟨end_, _, rfl, hend, -⟩ := hc.head
  obtain ⟨stmts, rfl, hstmts⟩ := hblock hn hb hw (by rw [hends.peek_eq]; exact hend)
  exact ⟨_, shape_forLoop .., (clean_readFor hx).2
    ⟨stmts, w, (), by rw [hskip]; exact hstmts, Rule.compoundEnd_complete hc hends, rfl⟩⟩

theorem readCall_complete {n : Nat} {name : Token} {ts : List Token} {args : List (Expr Unit)}
    (hn : n ≤ room) (hnk : name.kind = .identifier) (hs : ParenList Expression n ts args)
    (hx : s.Takes [x] u) (hrest : u.Takes (name :: ts) t) :
    ∃ v : Stmt Range, v.shape = .call () name.text args ∧ Attempt.Clean (readCall room) s v t := by
  obtain ⟨v, hv, hrest⟩ := Cursor.takes_cons.1 hrest
  obtain ⟨opening, w, as, ho, hok, rfl, hargs⟩ :=
    Expr.argumentsBy_complete (Expr.read_complete room) hn hs hrest
  exact ⟨_, rfl, (clean_readCall hx).2 ⟨name, v, as, hv, hnk, .inr ⟨opening, w, ho, hok, hargs⟩, rfl⟩⟩

theorem readReturn_complete {n : Nat} {y : Token} {ts : List Token} {e : Expr Unit} (hn : n ≤ room)
    (hy : y.endsBlock = false) (he : Expression n (y :: ts) e) (hx : s.Takes [x] u)
    (hrest : u.Takes (y :: ts) t) (ht : t.peek.Separates) :
    ∃ v : Stmt Range, v.shape = .giveBack () (some e) ∧ (readReturn room).Clean s v t := by
  obtain ⟨value, rfl, hvalue⟩ := Expr.read_complete room hn he hrest (.of_separator ht)
  refine ⟨_, rfl, (clean_readReturn hx).2 (.inr ⟨?_, value, hvalue, rfl⟩)⟩
  -- the value starts like an operand, and so not with a separator
  obtain ⟨_, _, heq, hop⟩ := he.head
  cases heq
  have hopens := Token.opensStatement_of_operand hop hy
  simp only [Token.opensStatement, Bool.and_eq_true, Bool.not_eq_true'] at hopens
  rw [hrest.atEnd_eq, hrest.kind_eq, hopens.1.1.1, Cursor.atBlockEnd_eq, hrest.peek_eq, hy]
  rfl

/-- A derived statement is read before a separator, if that holds for the blocks in it. -/
theorem read_complete
    (hblock : block.Complete (List.map shape) (Block 1 (Statement 1)) (·.endsBlock = true) room) :
    (read room block).Complete shape (Statement 1) Token.Separates room := by
  intro s t n ts stmt hn h hts ht
  obtain ⟨x, us, rfl, -⟩ := h.head
  obtain ⟨u, hx, hrest⟩ := Cursor.takes_cons.1 hts
  unfold read
  simp only [Attempt.clean_peek_bind, hx.peek_eq]
  cases h with
  | define hk hs =>
      obtain ⟨vars, rfl, hvars⟩ := Rule.declaredList_complete .target hs hrest (.of_separator ht)
      simp only [hk]
      exact ⟨_, rfl, Attempt.clean_lift.2 ((clean_readDefine hx).2 ⟨vars, hvars, rfl⟩)⟩
  | assign hk htk hak he =>
      obtain ⟨v, hv, hrest⟩ := Cursor.takes_cons.1 hrest
      obtain ⟨w, hw, hrest⟩ := Cursor.takes_cons.1 hrest
      obtain ⟨value, rfl, hvalue⟩ := Expr.read_complete room hn he hrest (.of_separator ht)
      simp only [hk]
      exact ⟨_, rfl, Attempt.clean_lift.2
        ((clean_readAssign hx).2 ⟨_, v, _, w, value, hv, htk, hw, hak, hvalue, rfl⟩)⟩
  | ifThen hk he htk hb hc =>
      simp only [hk]
      obtain ⟨v, hv, hclean⟩ := readConditional_complete hblock hn he htk hb hc hx hrest
      exact ⟨v, hv, Attempt.clean_lift.2 hclean⟩
  | ifThenElse hk he htk hb hl hd hc =>
      simp only [hk]
      obtain ⟨v, hv, hclean⟩ := readConditional_else_complete hblock hn he htk hb hl hd hc hx hrest
      exact ⟨v, hv, Attempt.clean_lift.2 hclean⟩
  | whileLoop hk he hb hc =>
      simp only [hk]
      obtain ⟨v, hv, hclean⟩ := readWhile_complete hblock hn he hb hc hx hrest
      exact ⟨v, hv, Attempt.clean_lift.2 hclean⟩
  | forLoop hk hh hb hc =>
      simp only [hk]
      obtain ⟨v, hv, hclean⟩ := readFor_complete hblock hn hh hb hc hx hrest
      exact ⟨v, hv, Attempt.clean_lift.2 hclean⟩
  | callName hk hnk =>
      simp only [hk]
      have hparen : t.check (.symbol .leftParen) = false :=
        Cursor.check_eq_false (Token.EndsExpr.of_separator ht).2
      exact ⟨_, rfl, (clean_readCall hx).2 ⟨_, t, [], hrest, hnk, .inl ⟨hparen, rfl, rfl⟩, rfl⟩⟩
  | call hk hnk hs =>
      simp only [hk]
      exact readCall_complete hn hnk hs hx hrest
  | giveBackNothing hk =>
      simp only [hk]
      obtain rfl := Cursor.takes_nil.1 hrest
      have hsep : t.kind.isSeparator = true := ht
      exact ⟨_, rfl, Attempt.clean_lift.2 ((clean_readReturn hx).2 (.inl ⟨by simp [hsep], rfl, rfl⟩))⟩
  | giveBack hk hy he =>
      simp only [hk]
      obtain ⟨v, hv, hclean⟩ := readReturn_complete hn hy he hx hrest ht
      exact ⟨v, hv, Attempt.clean_lift.2 hclean⟩
  | @sql _ _ kind hk hs =>
      have hclean := (@clean_readSql s u t x _ hx kind).2 ⟨(hs.skipLine_eq hrest ht).symm, rfl⟩
      simp only [hk]
      cases kind <;> exact ⟨_, rfl, Attempt.clean_lift.2 hclean⟩
  | expression hy he =>
      obtain ⟨e, rfl, hclean⟩ := Expr.read_complete room hn he hts (.of_separator ht)
      obtain ⟨_, _, heq, hop⟩ := he.head
      cases heq
      refine ⟨.expression e.range e, rfl, ?_⟩
      -- no statement that opens with a reserved word starts like an operand
      unfold TokenKind.opensOperand at hop
      split at hop
      · next hk => simp only [hk]; exact clean_readExpression.2 ⟨e, hclean, rfl⟩
      · next hk => simp only [hk]; exact clean_readExpression.2 ⟨e, hclean, rfl⟩
      · next hk => simp only [hk]; exact clean_readExpression.2 ⟨e, hclean, rfl⟩
      · next hk => simp only [hk]; exact clean_readExpression.2 ⟨e, hclean, rfl⟩
      · cases hop

/-- No statement starts with a token at which a block stops. -/
theorem not_stopsBlock {x : Token} (hx : x.opensStatement = true) {s : Cursor} (hs : s.peek = x) :
    s.atBlockEnd = false ∧ s.atRoutine = false := by
  simp only [Token.opensStatement, Bool.and_eq_true, Bool.not_eq_true', bne_iff_ne] at hx
  refine ⟨by rw [Cursor.atBlockEnd_eq, hs, hx.1.1.2], Cursor.atRoutine_eq_false.2 ?_⟩
  rw [Cursor.kind, hs]
  exact ⟨hx.1.2, hx.2⟩

theorem readBlock_complete (room : Nat) :
    (readBlock room).Complete (List.map shape) (Block 1 (Statement 1)) (·.endsBlock = true) room := by
  induction room with
  | zero =>
      intro s t n ts body hn h _ _
      cases h
      omega
  | succ room ih =>
      intro s t n ts body hn h hts ht
      obtain ⟨hg, hl⟩ := h
      unfold readBlock
      rw [Rule.defer_eq]
      refine Attempt.rounds_complete (advances_round room _) ?_ (read_complete ih) (by omega) hl hg hts
        (.inr ⟨Token.not_separator_of_endsBlock ht, ?_⟩)
      · intro n ts stmt h
        obtain ⟨x, us, rfl, hx⟩ := h.head
        refine ⟨x, us, rfl, ?_, fun s hs => ?_⟩
        · simp only [Token.opensStatement, Bool.and_eq_true, Bool.not_eq_true'] at hx
          exact hx.1.1.1
        · rw [stopsBlock, (not_stopsBlock hx hs).1, (not_stopsBlock hx hs).2, Bool.or_self]
      · rw [stopsBlock, Cursor.atBlockEnd_eq, ht, Bool.true_or]

end Stmt

/-! ## Items and programs -/

namespace Item

/-- A function is the only item that reads its name, its parameters and its body and also a type. -/
theorem readFunction_complete {room : Nat} {n m : Nat} {name : Token} {ts rs us ends : List Token}
    {params : List (Variable Unit)} {returns : Option String} {body : List (Stmt Unit)}
    {s u t : Cursor} {x : Token} (hm : m ≤ room) (hnk : name.kind = .identifier)
    (hp : ParenList Declared n ts params) (hr : Returning rs returns)
    (hb : Block 1 (Statement 1) m us body) (hc : RoutineEnd .function ends) (hx : s.Takes [x] u)
    (hrest : u.Takes (name :: (ts ++ (rs ++ (us ++ ends)))) t) (ht : t.peek.Separates) :
    ∃ v : Item Range, v.shape = .function () name.text params returns body ∧
      (readFunction room).Clean s v t := by
  obtain ⟨v, hv, hrest⟩ := Cursor.takes_cons.1 hrest
  obtain ⟨w, hw, hrest⟩ := Cursor.takes_append.1 hrest
  obtain ⟨y, hy, hrest⟩ := Cursor.takes_append.1 hrest
  obtain ⟨vars, rfl, hvars⟩ := Rule.parameters_complete .function hp hw
  have hreturns := Rule.returning_complete hr hy (hb.head hrest)
  obtain ⟨z, hz, hends⟩ := Cursor.takes_append.1 hrest
  obtain ⟨end_, _, rfl, hend⟩ := hc.head
  obtain ⟨stmts, rfl, hstmts⟩ := Stmt.readBlock_complete room hm hb hz (by rw [hends.peek_eq]; exact hend)
  have hclose := Rule.routineEnd_complete hc hends (by intro hk; rw [Token.Separates, hk] at ht; cases ht)
  exact ⟨_, rfl, (clean_readFunction hx).2
    ⟨name, v, vars, w, returns, y, stmts, z, (), hv, hnk, hvars, hreturns, hstmts, hclose, rfl⟩⟩

theorem readProcedure_complete {room : Nat} {n m : Nat} {name : Token} {ts us ends : List Token}
    {params : List (Variable Unit)} {body : List (Stmt Unit)} {s u t : Cursor} {x : Token}
    (hm : m ≤ room) (hnk : name.kind = .identifier) (hp : ParenList Declared n ts params)
    (hb : Block 1 (Statement 1) m us body) (hc : RoutineEnd .procedure ends) (hx : s.Takes [x] u)
    (hrest : u.Takes (name :: (ts ++ (us ++ ends))) t) (ht : t.peek.Separates) :
    ∃ v : Item Range, v.shape = .procedure () name.text params body ∧
      (readProcedure room).Clean s v t := by
  obtain ⟨v, hv, hrest⟩ := Cursor.takes_cons.1 hrest
  obtain ⟨w, hw, hrest⟩ := Cursor.takes_append.1 hrest
  obtain ⟨vars, rfl, hvars⟩ := Rule.parameters_complete .procedure hp hw
  obtain ⟨z, hz, hends⟩ := Cursor.takes_append.1 hrest
  obtain ⟨end_, _, rfl, hend⟩ := hc.head
  obtain ⟨stmts, rfl, hstmts⟩ := Stmt.readBlock_complete room hm hb hz (by rw [hends.peek_eq]; exact hend)
  have hclose := Rule.routineEnd_complete hc hends (by intro hk; rw [Token.Separates, hk] at ht; cases ht)
  exact ⟨_, rfl, (clean_readProcedure hx).2
    ⟨name, v, vars, w, stmts, z, (), hv, hnk, hvars, hstmts, hclose, rfl⟩⟩

theorem read_complete (room : Nat) :
    (read room).Complete shape (TopLevel 1) Token.Separates room := by
  intro s t n ts item hn h hts ht
  cases h with
  | function hk hnk hp hr hb hc =>
      obtain ⟨u, hx, hrest⟩ := Cursor.takes_cons.1 hts
      obtain ⟨v, hv, hclean⟩ := readFunction_complete hn hnk hp hr hb hc hx hrest ht
      exact ⟨v, hv, clean_read.2 (.inl ⟨by rw [hx.kind_eq, hk], hclean⟩)⟩
  | procedure hk hnk hp hb hc =>
      obtain ⟨u, hx, hrest⟩ := Cursor.takes_cons.1 hts
      obtain ⟨v, hv, hclean⟩ := readProcedure_complete hn hnk hp hb hc hx hrest ht
      exact ⟨v, hv, clean_read.2 (.inr (.inl ⟨by rw [hx.kind_eq, hk], hclean⟩))⟩
  | statement h =>
      obtain ⟨stmt, rfl, hstmt⟩ := Stmt.read_complete (Stmt.readBlock_complete room) hn h hts ht
      obtain ⟨x, us, rfl, hx⟩ := h.head
      obtain ⟨hend, hroutine⟩ := Stmt.not_stopsBlock hx hts.peek_eq
      exact ⟨.statement stmt, rfl, clean_read.2 (.inr (.inr ⟨hroutine, hend, stmt, hstmt, rfl⟩))⟩

end Item

theorem Grammar.TopLevel.head {gap n : Nat} {ts : List Token} {item : Item Unit}
    (h : TopLevel gap n ts item) : ∃ x us, ts = x :: us ∧ x.kind.isSeparator = false := by
  cases h with
  | function hk _ _ _ _ _ => exact ⟨_, _, rfl, by rw [hk]; rfl⟩
  | procedure hk _ _ _ _ => exact ⟨_, _, rfl, by rw [hk]; rfl⟩
  | statement h =>
      obtain ⟨x, us, rfl, hx⟩ := h.head
      simp only [Token.opensStatement, Bool.and_eq_true, Bool.not_eq_true'] at hx
      exact ⟨x, us, rfl, hx.1.1.1⟩

/-- A derived program is read up to the end of the text. -/
theorem Item.readProgram_complete {n : Nat} {tokens : List Token} {items : List (Item Unit)}
    (hn : n ≤ maxNesting) (h : Program 1 n tokens items) {s : Cursor} (hs : s.ahead = tokens) :
    ∃ found t, found.map shape = items ∧ readProgram.Clean s found t := by
  have hts : s.Takes tokens ⟨tokens.reverse ++ s.before, [], s.eof⟩ := ⟨by simp [hs], rfl, rfl⟩
  obtain ⟨hg, hl⟩ := h
  obtain ⟨found, hfound, hclean⟩ := Attempt.rounds_complete (advances_round maxNesting)
    (fun _ _ _ h => by
      obtain ⟨x, us, rfl, hx⟩ := h.head
      exact ⟨x, us, rfl, hx, fun _ _ => rfl⟩)
    (read_complete maxNesting) hn hl hg hts (.inl rfl)
  exact ⟨found, _, hfound, hclean⟩

theorem parseTokens_complete {n : Nat} {tokens : List Token} {items : List (Item Unit)} {eof : Token}
    (hts : ∀ t ∈ tokens, t.kind ≠ .eof) (he : eof.kind = .eof) (hn : n ≤ maxNesting)
    (h : Program 1 n tokens items) :
    (parseTokens (tokens ++ [eof])).errors = [] ∧
      (parseTokens (tokens ++ [eof])).items.map Item.shape = items := by
  rw [parseTokens, Cursor.ofTokens_concat hts he, Cursor.parse]
  obtain ⟨found, t, rfl, hclean⟩ := Item.readProgram_complete hn h (s := ⟨[], tokens, eof⟩) rfl
  unfold Rule.Clean at hclean
  rw [hclean]
  exact ⟨rfl, rfl⟩

end FourthGen
