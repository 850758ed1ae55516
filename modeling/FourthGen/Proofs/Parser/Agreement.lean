import FourthGen.Proofs.Parser.CleanRules
import FourthGen.Proofs.Parser.Likeness

set_option autoImplicit false

/-! # Rules that read alike

Two rules agree at two cursors if they record errors that stand for each other, and yield values and
stop at cursors that are related. A sequence agrees if its parts do (`Agrees.bind`), so that agreement
is shown along the rules of the parser. This file has the combinators and the rules for expressions. -/

namespace FourthGen

namespace Likeness

variable (L : Likeness)

/-! ## Trees -/

/-- Expressions of the same shape whose ranges and texts stand for each other. -/
inductive ExprLike : Expr Range → Expr Range → Prop
  | identifier {r r' : Range} {n n' : String} (hr : L.range r r') (hn : L.text n n') :
      ExprLike (.identifier r n) (.identifier r' n')
  | string {r r' : Range} {t t' : String} (hr : L.range r r') (ht : L.quoted t t') :
      ExprLike (.literal r (.string t)) (.literal r' (.string t'))
  | number {r r' : Range} {t t' : String} (hr : L.range r r') (ht : L.text t t') :
      ExprLike (.literal r (.number t)) (.literal r' (.number t'))
  | binary {r r' : Range} {op : BinaryOp} {left left' right right' : Expr Range}
      (hr : L.range r r') (hleft : ExprLike left left') (hright : ExprLike right right') :
      ExprLike (.binary r op left right) (.binary r' op left' right')
  | call {r r' : Range} {n n' : String} {args args' : List (Expr Range)} (hr : L.range r r')
      (hn : L.text n n') (hargs : List.Forall₂ ExprLike args args') :
      ExprLike (.call r n args) (.call r' n' args')

/-- Expressions that stand for each other, or placeholders that do. -/
inductive ValueLike : Expr Range → Expr Range → Prop
  | expr {e e' : Expr Range} (h : L.ExprLike e e') : ValueLike e e'
  | hole {r r' : Range} (h : L.hole r r') : ValueLike (.error r) (.error r')

variable {L}

theorem ExprLike.range {e e' : Expr Range} (h : L.ExprLike e e') : L.range e.range e'.range := by
  cases h with
  | identifier hr _ => exact hr
  | string hr _ => exact hr
  | number hr _ => exact hr
  | binary hr _ _ => exact hr
  | call hr _ _ => exact hr

theorem ExprLike.withRange {e e' : Expr Range} (h : L.ExprLike e e') {r r' : Range}
    (hr : L.range r r') : L.ExprLike (e.withRange r) (e'.withRange r') := by
  cases h with
  | identifier _ hn => exact .identifier hr hn
  | string _ ht => exact .string hr ht
  | number _ ht => exact .number hr ht
  | binary _ hleft hright => exact .binary hr hleft hright
  | call _ hn hargs => exact .call hr hn hargs

variable (L)

/-! ## Agreement -/

/-- The rules, started at the two cursors, record errors that stand for each other, and their values
    and the cursors where they stop are related by `Q`. -/
def Agrees {α β : Type} (s s' : Cursor) (p : Rule α) (q : Rule β)
    (Q : α → β → Cursor → Cursor → Prop) : Prop :=
  List.Forall₂ L.error (p.run s).recorded (q.run s').recorded ∧
    Q (p.run s).value (q.run s').value (p.run s).rest (q.run s').rest

/-- What two attempts from `s` and `s'` may end with: values that are related by `Q`, or errors that
    stand for each other, where something is consumed or the cursors have not moved. -/
inductive TryPost {α β : Type} (s s' : Cursor) (Q : α → β → Cursor → Cursor → Prop) :
    Except SyntaxError α → Except SyntaxError β → Cursor → Cursor → Prop
  | ok {a : α} {b : β} {t t' : Cursor} (h : Q a b t t') : TryPost s s' Q (.ok a) (.ok b) t t'
  | error {e e' : SyntaxError} {t t' : Cursor} (he : L.error e e') (hr : L.hole e.range e'.range)
      (ht : L.Aligned t t') (hb : L.Begun t t' ∨ (t = s ∧ t' = s')) :
      TryPost s s' Q (.error e) (.error e') t t'

/-- The same for rules that can fail: both succeed or both fail. -/
def TryAgrees {α β : Type} (s s' : Cursor) (p : Attempt α) (q : Attempt β)
    (Q : α → β → Cursor → Cursor → Prop) : Prop :=
  L.Agrees s s' p.run q.run (L.TryPost s s' Q)

variable {L}

section

variable {α β γ δ : Type} {s s' : Cursor}

theorem Agrees.bind {p : Rule α} {q : Rule β} {f : α → Rule γ} {g : β → Rule δ}
    {M : α → β → Cursor → Cursor → Prop} {Q : γ → δ → Cursor → Cursor → Prop}
    (hp : L.Agrees s s' p q M)
    (hf : ∀ a b t t', M a b t t' → L.Agrees t t' (f a) (g b) Q) :
    L.Agrees s s' (p >>= f) (q >>= g) Q := by
  obtain ⟨hrec, hM⟩ := hp
  obtain ⟨hrec', hQ⟩ := hf _ _ _ _ hM
  exact ⟨List.rel_append hrec hrec', hQ⟩

theorem Agrees.mono {p : Rule α} {q : Rule β} {M Q : α → β → Cursor → Cursor → Prop}
    (hp : L.Agrees s s' p q M) (h : ∀ a b t t', M a b t t' → Q a b t t') : L.Agrees s s' p q Q :=
  ⟨hp.1, h _ _ _ _ hp.2⟩

theorem agrees_pure {a : α} {b : β} {Q : α → β → Cursor → Cursor → Prop} (h : Q a b s s') :
    L.Agrees s s' (pure a) (pure b) Q := ⟨.nil, h⟩

/-- A question to the cursor before the rest. -/
theorem agrees_ask {question : Cursor → α} {question' : Cursor → β} {f : α → Rule γ}
    {g : β → Rule δ} {Q : γ → δ → Cursor → Cursor → Prop}
    (h : L.Agrees s s' (f (question s)) (g (question' s')) Q) :
    L.Agrees s s' (Rule.ask question >>= f) (Rule.ask question' >>= g) Q := h

/-- Attempts follow each other. The first leaves the cursors within a line, so that a failure of the
    second does not fall back to where the first was started. -/
theorem TryAgrees.bind {p : Attempt α} {q : Attempt β} {f : α → Attempt γ} {g : β → Attempt δ}
    {V : α → β → Prop} {Q : γ → δ → Cursor → Cursor → Prop}
    (hp : L.TryAgrees s s' p q fun a b t t' => V a b ∧ L.Inside t t')
    (hf : ∀ a b t t', V a b → L.Inside t t' → L.TryAgrees t t' (f a) (g b) Q) :
    L.TryAgrees s s' (p >>= f) (q >>= g) Q := by
  unfold TryAgrees
  rw [ExceptT.run_bind, ExceptT.run_bind]
  refine Agrees.bind hp ?_
  intro a b t t' hpost
  cases hpost with
  | @ok a b t t' hM =>
      refine Agrees.mono (hf a b t t' hM.1 hM.2) ?_
      intro c d u u' hpost
      cases hpost with
      | ok hQ => exact .ok hQ
      | error he hr hu hb =>
          -- where the second did not move, the first had consumed something
          obtain hb | ⟨rfl, rfl⟩ := hb
          · exact .error he hr hu (.inl hb)
          · exact .error he hr hu (.inl hM.2.2)
  | error he hr ht hb => exact agrees_pure (.error he hr ht hb)

/-- A value is made of the result of an attempt. -/
theorem TryAgrees.map {p : Attempt α} {q : Attempt β} {f : α → γ} {g : β → δ}
    {M : α → β → Cursor → Cursor → Prop} {Q : γ → δ → Cursor → Cursor → Prop}
    (hp : L.TryAgrees s s' p q M) (h : ∀ a b t t', M a b t t' → Q (f a) (g b) t t') :
    L.TryAgrees s s' (do return f (← p)) (do return g (← q)) Q := by
  unfold TryAgrees
  rw [ExceptT.run_bind, ExceptT.run_bind]
  refine Agrees.bind hp ?_
  intro a b t t' hpost
  cases hpost with
  | ok hM => exact agrees_pure (.ok (h _ _ _ _ hM))
  | error he hr ht hb => exact agrees_pure (.error he hr ht hb)

theorem Agrees.lift {p : Rule α} {q : Rule β} {Q : α → β → Cursor → Cursor → Prop}
    (h : L.Agrees s s' p q Q) : L.TryAgrees s s' (liftM p) (liftM q) Q := by
  show L.Agrees s s' (Except.ok <$> p) (Except.ok <$> q) _
  unfold Agrees
  rw [Rule.run_map, Rule.run_map]
  exact ⟨h.1, .ok h.2⟩

theorem tryAgrees_pure {a : α} {b : β} {Q : α → β → Cursor → Cursor → Prop} (h : Q a b s s') :
    L.TryAgrees s s' (pure a) (pure b) Q := ⟨.nil, .ok h⟩

theorem tryAgrees_ask {question : Cursor → α} {question' : Cursor → β} {f : α → Attempt γ}
    {g : β → Attempt δ} {Q : γ → δ → Cursor → Cursor → Prop}
    (h : L.TryAgrees s s' (f (question s)) (g (question' s')) Q) :
    L.TryAgrees s s' ((liftM (Rule.ask question) : Attempt α) >>= f)
      ((liftM (Rule.ask question') : Attempt β) >>= g) Q := h

/-! ## Primitive rules -/

theorem agrees_advance (h : L.Aligned s s') (hs : s.kind.isSeparator = false)
    (hk : s.kind ≠ .eof) :
    L.Agrees s s' Rule.advance Rule.advance
      fun x x' t t' => (x = s.peek ∧ L.token x x') ∧ L.Inside t t' := by
  have hend := h.not_atEnd hk
  obtain ⟨htoken, hinside⟩ := h.advance hs hend
  obtain ⟨x, hpeek, hx⟩ := Cursor.exists_takes_of_atEnd hend
  exact ⟨.nil, ⟨by rw [Rule.run_advance, hx.previous_eq, hpeek], htoken⟩, hinside⟩

theorem agrees_complain {t t' : Token} (c : Complaint) (hpeek : s.peek = t) (hpeek' : s'.peek = t')
    (h : L.error (.about t c) (.about t' c)) :
    L.Agrees s s' (Rule.complain c) (Rule.complain c) fun _ _ u u' => u = s ∧ u' = s' := by
  subst hpeek hpeek'
  exact ⟨.cons h .nil, rfl, rfl⟩

theorem Inside.complain (h : L.Inside s s') (c : Complaint) :
    L.Agrees s s' (Rule.complain c) (Rule.complain c) fun _ _ t t' => L.Inside t t' := by
  refine (agrees_complain c rfl rfl (L.token_error h.1.peek c)).mono ?_
  rintro _ _ t t' ⟨rfl, rfl⟩
  exact h

/-- A token of a kind that is no separator is expected in both texts. -/
theorem Inside.expect (h : L.Inside s s') {k : TokenKind} (hk : k.isSeparator = false)
    (hke : k ≠ .eof) (c : Complaint) :
    L.Agrees s s' (Rule.expect k c) (Rule.expect k c)
      fun o o' t t' => (Option.Rel L.token o o' ∧ ∀ x, o = some x → x.kind = k) ∧ L.Inside t t' := by
  unfold Rule.expect
  refine agrees_ask ?_
  rw [h.1.check]
  cases hc : s.check k with
  | false =>
      refine (h.complain c).bind fun _ _ t t' h => agrees_pure ⟨⟨.none, ?_⟩, h⟩
      simp
  | true =>
      obtain ⟨x, hx, hxk⟩ := Cursor.check_iff.1 hc
      have hsk : s.kind = k := hx.kind_eq.trans hxk
      refine (agrees_advance h.1 (hsk ▸ hk) (hsk ▸ hke)).bind ?_
      rintro x x' t t' ⟨⟨rfl, hxx'⟩, hin⟩
      refine agrees_pure ⟨⟨.some hxx', ?_⟩, hin⟩
      rintro y ⟨⟩
      exact hsk

theorem Inside.accept (h : L.Inside s s') {k : TokenKind} (hk : k.isSeparator = false)
    (hke : k ≠ .eof) :
    L.Agrees s s' (Rule.accept [k]) (Rule.accept [k]) fun b b' t t' => b' = b ∧ L.Inside t t' := by
  unfold Rule.accept
  refine agrees_ask ?_
  simp only [List.any_cons, List.any_nil, Bool.or_false, h.1.check]
  cases hc : s.check k with
  | false => exact agrees_pure ⟨rfl, h⟩
  | true =>
      obtain ⟨x, hx, hxk⟩ := Cursor.check_iff.1 hc
      have hsk : s.kind = k := hx.kind_eq.trans hxk
      refine (agrees_advance h.1 (hsk ▸ hk) (hsk ▸ hke)).bind ?_
      rintro x x' t t' ⟨-, hin⟩
      exact agrees_pure ⟨rfl, hin⟩

/-- The range of a node from its first token, which is no separator, up to here. -/
theorem Begun.upToHere {x x' : Token} (h : L.Begun s s') (hx : L.token x x')
    (hs : x.kind.isSeparator = false) :
    L.Agrees s s' (Rule.upToHere x) (Rule.upToHere x')
      fun r r' t t' => L.range r r' ∧ t = s ∧ t' = s' :=
  ⟨.nil, L.cover (L.token_range hx hs) h.previousRange, rfl, rfl⟩

theorem Inside.upToHere {x x' : Token} (h : L.Inside s s') (hx : L.token x x')
    (hs : x.kind.isSeparator = false) :
    L.Agrees s s' (Rule.upToHere x) (Rule.upToHere x')
      fun r r' t t' => L.range r r' ∧ L.Inside t t' := by
  refine (h.2.upToHere hx hs).mono ?_
  rintro r r' t t' ⟨hr, rfl, rfl⟩
  exact ⟨hr, h⟩

theorem Aligned.fail (h : L.Aligned s s') (c : Complaint) {Q : α → β → Cursor → Cursor → Prop} :
    L.TryAgrees s s' (Attempt.fail c) (Attempt.fail c) Q :=
  ⟨.nil, .error (L.token_error h.peek c) (L.token_hole h.peek) h (.inr ⟨rfl, rfl⟩)⟩

theorem Ready.tooDeep (h : L.Ready s s') {Q : α → β → Cursor → Cursor → Prop} :
    L.TryAgrees s s' Attempt.tooDeep Attempt.tooDeep Q :=
  ⟨.nil, .error (L.token_error h.1.peek _) (L.token_hole h.1.peek) h.skipLine.1 (.inl h.skipLine.2)⟩

/-! ## Lists -/

/-- A comma is passed in both texts. -/
theorem Inside.passComma (h : L.Inside s s') (hc : s.check (.symbol .comma) = true) :
    L.Inside s.advance s'.advance ∧ s.advance.ahead.length < s.ahead.length := by
  obtain ⟨x, hx, hxk⟩ := Cursor.check_iff.1 hc
  have hk : s.kind = .symbol .comma := hx.kind_eq.trans hxk
  exact ⟨(h.1.advance (by rw [hk]; rfl) hx.atEnd_eq).2, Cursor.length_advance_lt hx.atEnd_eq⟩

theorem Inside.commaList {more : α → Bool} {p : Rule α} {V : α → α → Prop}
    (hmore : ∀ a b, V a b → more b = more a)
    (hp : ∀ ⦃t t'⦄, L.Inside t t' → L.Agrees t t' p p fun a b u u' => V a b ∧ L.Inside u u')
    (h : L.Inside s s') :
    L.Agrees s s' (Rule.commaList more p) (Rule.commaList more p)
      fun as bs t t' => List.Forall₂ V as bs ∧ L.Inside t t' := by
  obtain ⟨n, hn⟩ : ∃ n, s.ahead.length = n := ⟨_, rfl⟩
  induction n using Nat.strongRecOn generalizing s s' with
  | ind n ih =>
    obtain ⟨hrec, hV, hin⟩ := hp h
    have hle := (p.reaches s).length_le
    unfold Agrees
    rw [Rule.run_commaList more p s, Rule.run_commaList more p s']
    simp only [hmore _ _ hV, hin.1.check]
    split
    · next hc =>
      rw [Bool.and_eq_true] at hc
      obtain ⟨hpass, hlt⟩ := hin.passComma hc.2
      obtain ⟨hrec', hV', hin'⟩ := ih _ (by omega) hpass rfl
      exact ⟨List.rel_append hrec hrec', .cons hV hV', hin'⟩
    · exact ⟨hrec, .cons hV .nil, hin⟩

end

end Likeness

/-- A list that can fail is an item that can and, behind a comma, such a list. -/
theorem Attempt.run_commaList {α : Type} (p : Attempt α) (s : Cursor) :
    Rule.run (commaList p).run s =
      match (Rule.run p.run s).value with
      | .error e => ⟨.error e, (Rule.run p.run s).recorded, (Rule.run p.run s).rest⟩
      | .ok a =>
        if (Rule.run p.run s).rest.check (.symbol .comma) then
          let t := Rule.run (commaList p).run (Rule.run p.run s).rest.advance
          ⟨t.value.map (a :: ·), (Rule.run p.run s).recorded ++ t.recorded, t.rest⟩
        else ⟨.ok [a], (Rule.run p.run s).recorded, (Rule.run p.run s).rest⟩ := by
  have hrun (t : Cursor) : Rule.run (commaList p).run t =
      ⟨((Rule.commaList Except.isOk p.run).run t).value.mapM id,
        ((Rule.commaList Except.isOk p.run).run t).recorded,
        ((Rule.commaList Except.isOk p.run).run t).rest⟩ := by
    show ((Rule.commaList Except.isOk p.run) >>= fun rs => pure (rs.mapM id)).run t = _
    rw [Rule.run_bind]
    simp
  simp only [hrun]
  rw [Rule.run_commaList]
  cases hv : (Rule.run p.run s).value with
  | error e => simp only [hv, Except.isOk, Except.toBool, Bool.false_and]; rfl
  | ok a =>
      simp only [hv, Except.isOk, Except.toBool, Bool.true_and]
      split
      · simp only [List.mapM_cons, id]
        cases ((Rule.commaList Except.isOk p.run).run (Rule.run p.run s).rest.advance).value.mapM id <;>
          rfl
      · rfl

namespace Likeness

variable {L : Likeness} {s s' : Cursor}

theorem Ready.commaList {α : Type} {p : Attempt α} {V : α → α → Prop}
    (hp : ∀ ⦃t t'⦄, L.Ready t t' → L.TryAgrees t t' p p fun a b u u' => V a b ∧ L.Inside u u')
    (h : L.Ready s s') :
    L.TryAgrees s s' (Attempt.commaList p) (Attempt.commaList p)
      fun as bs t t' => List.Forall₂ V as bs ∧ L.Inside t t' := by
  obtain ⟨n, hn⟩ : ∃ n, s.ahead.length = n := ⟨_, rfl⟩
  induction n using Nat.strongRecOn generalizing s s' with
  | ind n ih =>
    obtain ⟨hrec, hpost⟩ := hp h
    have hle := (Rule.reaches p.run s).length_le
    unfold TryAgrees Agrees
    rw [Attempt.run_commaList p s, Attempt.run_commaList p s']
    generalize (Rule.run p.run s).value = r at hpost ⊢
    generalize (Rule.run p.run s').value = r' at hpost ⊢
    cases hpost with
    | error he hr ht hb => exact ⟨hrec, .error he hr ht hb⟩
    | ok hpost =>
        obtain ⟨hV, hin⟩ := hpost
        simp only [hin.1.check]
        split
        · next hc =>
          obtain ⟨hpass, hlt⟩ := hin.passComma hc
          obtain ⟨hrec', hpost'⟩ := ih _ (by omega) hpass.ready rfl
          refine ⟨List.rel_append hrec hrec', ?_⟩
          simp only
          generalize (Rule.run (Attempt.commaList p).run _).value = q at hpost' ⊢
          generalize (Rule.run (Attempt.commaList p).run (Rule.run p.run s').rest.advance).value = q'
            at hpost' ⊢
          cases hpost' with
          | ok hlist => exact .ok ⟨.cons hV hlist.1, hlist.2⟩
          | error he hr ht hb =>
              -- a failure behind the comma is one behind the first item
              refine .error he hr ht (.inl ?_)
              obtain hb | ⟨hstay, hstay'⟩ := hb
              · exact hb
              · rw [hstay, hstay']
                exact hpass.2
        · exact ⟨hrec, .ok ⟨.cons hV .nil, hin⟩⟩

/-! ## Expressions -/

theorem Inside.argumentsBy {inner : Attempt (Expr Range)}
    (hinner : ∀ ⦃t t'⦄, L.Ready t t' →
      L.TryAgrees t t' inner inner fun e e' u u' => L.ExprLike e e' ∧ L.Inside u u')
    (h : L.Inside s s') :
    L.TryAgrees s s' (Expr.argumentsBy inner) (Expr.argumentsBy inner)
      fun as bs t t' => List.Forall₂ L.ExprLike as bs ∧ L.Inside t t' := by
  have hclose (as bs : List (Expr Range)) (t t' : Cursor) (has : List.Forall₂ L.ExprLike as bs)
      (ht : L.Inside t t') :
      L.TryAgrees t t'
        (do let _ ← Rule.expect (.symbol .rightParen) (.missingCloser .arguments); return as)
        (do let _ ← Rule.expect (.symbol .rightParen) (.missingCloser .arguments); return bs)
        fun as bs t t' => List.Forall₂ L.ExprLike as bs ∧ L.Inside t t' :=
    (ht.expect rfl (by decide) _).lift.bind fun _ _ _ _ _ hu => tryAgrees_pure ⟨has, hu⟩
  have hk : s'.peek.kind = s.peek.kind := h.1.kind
  unfold Expr.argumentsBy
  refine tryAgrees_ask ?_
  rw [hk]
  split
  · have hnone : L.TryAgrees s s' (pure []) (pure [])
        fun as bs t t' => List.Forall₂ L.ExprLike as bs ∧ L.Inside t t' := tryAgrees_pure ⟨.nil, h⟩
    exact hnone.bind hclose
  · exact (h.ready.commaList hinner).bind hclose

theorem Ready.primaryBy {inner : Attempt (Expr Range)}
    (hinner : ∀ ⦃t t'⦄, L.Ready t t' →
      L.TryAgrees t t' inner inner fun e e' u u' => L.ExprLike e e' ∧ L.Inside u u')
    (h : L.Ready s s') :
    L.TryAgrees s s' (Expr.primaryBy inner) (Expr.primaryBy inner)
      fun e e' t t' => L.ExprLike e e' ∧ L.Inside t t' := by
  have hpeek := h.1.peek
  have hk : s'.peek.kind = s.peek.kind := h.1.kind
  unfold Expr.primaryBy
  refine tryAgrees_ask ?_
  simp only [hk]
  split
  · next hx =>
    have hs : s.peek.kind.isSeparator = false := by rw [hx]; rfl
    refine (agrees_advance h.1 hs (by rw [Cursor.kind, hx]; decide)).lift.bind fun _ _ t t' _ ht => ?_
    exact tryAgrees_pure ⟨.string (L.token_range hpeek hs) (L.token_quoted hpeek hx), ht⟩
  · next hx =>
    have hs : s.peek.kind.isSeparator = false := by rw [hx]; rfl
    refine (agrees_advance h.1 hs (by rw [Cursor.kind, hx]; decide)).lift.bind fun _ _ t t' _ ht => ?_
    exact tryAgrees_pure ⟨.number (L.token_range hpeek hs) (L.token_text hpeek (by simp [hx])), ht⟩
  · next hx =>
    have hs : s.peek.kind.isSeparator = false := by rw [hx]; rfl
    refine (agrees_advance h.1 hs (by rw [Cursor.kind, hx]; decide)).lift.bind fun _ _ t t' _ ht => ?_
    have htext : L.text s.peek.text s'.peek.text := L.token_text hpeek (by simp [hx])
    refine (ht.accept rfl (by decide)).lift.bind fun called called' u u' heq hu => ?_
    subst heq
    cases called' with
    | false =>
        exact tryAgrees_pure ⟨.identifier (L.token_range hpeek hs) htext, hu⟩
    | true =>
        refine (hu.argumentsBy hinner).bind fun as bs v v' has hv => ?_
        refine (hv.upToHere hpeek hs).lift.bind fun r r' w w' hr hw => ?_
        exact tryAgrees_pure ⟨.call hr htext has, hw⟩
  · next hx =>
    have hs : s.peek.kind.isSeparator = false := by rw [hx]; rfl
    refine (agrees_advance h.1 hs (by rw [Cursor.kind, hx]; decide)).lift.bind fun _ _ t t' _ ht => ?_
    refine (hinner ht.ready).bind fun e e' u u' hee' hu => ?_
    refine (hu.expect rfl (by decide) _).lift.bind fun _ _ v v' _ hv => ?_
    refine (hv.upToHere hpeek hs).lift.bind fun r r' w w' hr hw => ?_
    exact tryAgrees_pure ⟨hee'.withRange hr, hw⟩
  · exact h.1.fail _

/-- What is shown of the rules for chains of operators, along the room that is left. -/
def ExpressionsAgree (L : Likeness) (room : Nat) : Prop :=
  (∀ ⦃least : Nat⦄ ⦃s s' : Cursor⦄, L.Ready s s' →
    L.TryAgrees s s' (Expr.readBinding room least) (Expr.readBinding room least)
      fun e e' t t' => L.ExprLike e e' ∧ L.Inside t t') ∧
  ∀ ⦃least : Nat⦄ ⦃left left' : Expr Range⦄ ⦃s s' : Cursor⦄, L.ExprLike left left' → L.Inside s s' →
    L.TryAgrees s s' (Expr.chain room least left) (Expr.chain room least left')
      fun e e' t t' => L.ExprLike e e' ∧ L.Inside t t'

theorem isSeparator_of_operator {s : Cursor} {least : Nat} {op : BinaryOp}
    (h : s.operator? least = some op) : s.kind.isSeparator = false ∧ s.kind ≠ .eof := by
  rw [Cursor.operator?, Option.filter_eq_some_iff] at h
  have hop := h.1
  unfold TokenKind.binaryOp? at hop
  split at hop <;> simp_all [TokenKind.isSeparator]

theorem expressionsAgree (room : Nat) : L.ExpressionsAgree room := by
  -- every operand, and every operator before one, takes a level
  induction room with
  | zero =>
      refine ⟨fun _ _ _ h => h.tooDeep, ?_⟩
      intro least left left' s s' hleft h
      rw [Expr.chain, Expr.chain]
      refine tryAgrees_ask ?_
      rw [h.1.operator?]
      cases s.operator? least with
      | none => exact tryAgrees_pure ⟨hleft, h⟩
      | some op => exact h.ready.tooDeep
  | succ room ih =>
      have hprimary {s s' : Cursor} (h : L.Ready s s') :
          L.TryAgrees s s' (Expr.primary room) (Expr.primary room)
            fun e e' t t' => L.ExprLike e e' ∧ L.Inside t t' := by
        rw [Expr.primary_eq]
        exact h.primaryBy fun _ _ ht => ih.1 ht
      refine ⟨?_, ?_⟩
      · intro least s s' h
        exact (hprimary h).bind fun _ _ _ _ hee' ht => ih.2 hee' ht
      · intro least left left' s s' hleft h
        rw [Expr.chain, Expr.chain]
        refine tryAgrees_ask ?_
        rw [h.1.operator?]
        cases hop : s.operator? least with
        | none => exact tryAgrees_pure ⟨hleft, h⟩
        | some op =>
            obtain ⟨hs, he⟩ := isSeparator_of_operator hop
            refine (agrees_advance h.1 hs he).lift.bind fun _ _ t t' _ ht => ?_
            refine (hprimary ht.ready).bind fun _ _ u u' hoperand hu => ?_
            refine (ih.2 hoperand hu).bind fun right right' v v' hright hv => ?_
            exact ih.2 (.binary (L.cover hleft.range hright.range) hleft hright) hv

theorem Ready.read (h : L.Ready s s') (room : Nat) :
    L.TryAgrees s s' (Expr.read room) (Expr.read room)
      fun e e' t t' => L.ExprLike e e' ∧ L.Inside t t' :=
  (expressionsAgree room).1 h

/-- Where an expression is missing in the one text, it is missing in the other. -/
theorem Inside.readOrError (h : L.Inside s s') (room : Nat) :
    L.Agrees s s' (Expr.readOrError room) (Expr.readOrError room)
      fun e e' t t' => L.ValueLike e e' ∧ L.Inside t t' := by
  unfold Expr.readOrError
  refine Agrees.bind (h.ready.read room) ?_
  intro a b t t' hpost
  cases hpost with
  | ok hpost => exact agrees_pure ⟨.expr hpost.1, hpost.2⟩
  | error he hr ht hb =>
      have hin : L.Inside t t' := by
        obtain hb | ⟨rfl, rfl⟩ := hb
        · exact ⟨ht, hb⟩
        · exact h
      exact ⟨.cons he .nil, .hole hr, hin⟩

end Likeness

end FourthGen
