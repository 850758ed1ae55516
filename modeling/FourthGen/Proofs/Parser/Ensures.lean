import FourthGen.Proofs.Parser.CleanRules

set_option autoImplicit false

/-! # What rules ensure

Some facts about what a rule yields hold whether or not it records errors. `Rule.Ensures p s Q` says
that `Q` holds of the value that `p` yields and of the cursor where it stops, when it starts at `s`;
`Attempt.Ensures` says so of a rule that can fail, for when it does not. A sequence ensures what its
last part ensures under what its first parts do (`Ensures.bind`).

Repetitions are told by what they read between two cursors. A relation between a cursor, the things
read from there on and the cursor behind them is a `Path` if it can be put together of pieces. The
recursion of the rules for expressions is told once, too: `Expr.ensures_readBinding` is about what is
ensured with some room, `Expr.Hereditary` about what holds of the rules with any room. -/

namespace FourthGen

namespace Rule

section

variable {α β : Type} {p : Rule α} {s : Cursor}

/-- Started at `s`, the rule yields a value and stops at a cursor that are as `Q` says. -/
def Ensures (p : Rule α) (s : Cursor) (Q : α → Cursor → Prop) : Prop :=
  Q (p.run s).value (p.run s).rest

theorem Ensures.mono {P Q : α → Cursor → Prop} (hp : p.Ensures s P) (h : ∀ a t, P a t → Q a t) :
    p.Ensures s Q := h _ _ hp

theorem Ensures.bind {f : α → Rule β} {P : α → Cursor → Prop} {Q : β → Cursor → Prop}
    (hp : p.Ensures s P) (hf : ∀ a t, P a t → (f a).Ensures t Q) : (p >>= f).Ensures s Q :=
  hf _ _ hp

/-- What a sequence ensures whatever its first part yields. -/
theorem ensures_behind {f : α → Rule β} {Q : β → Cursor → Prop} (hf : ∀ a t, (f a).Ensures t Q) :
    (p >>= f).Ensures s Q := hf _ _

theorem ensures_pure {a : α} {Q : α → Cursor → Prop} (h : Q a s) : (pure a : Rule α).Ensures s Q := h

/-- A question to the cursor before the rest. -/
theorem ensures_ask {question : Cursor → α} {f : α → Rule β} {Q : β → Cursor → Prop}
    (h : (f (question s)).Ensures s Q) : (ask question >>= f).Ensures s Q := h

/-- What every rule ensures. -/
theorem ensures_reaches (p : Rule α) (s : Cursor) : p.Ensures s fun _ t => s.Reaches t := p.reaches s

/-- The range of a node that is complete here, before the rest. -/
theorem ensures_upToHere {start : Token} {f : Range → Rule β} {Q : β → Cursor → Prop}
    (h : (f (start.range.cover s.previousRange)).Ensures s Q) : (upToHere start >>= f).Ensures s Q := h

end

end Rule

namespace Attempt

section

variable {α β : Type} {p : Attempt α} {s : Cursor}

/-- Started at `s`, the rule fails, or it yields a value and stops at a cursor that are as `Q` says. -/
def Ensures (p : Attempt α) (s : Cursor) (Q : α → Cursor → Prop) : Prop :=
  p.run.Ensures s fun r t => ∀ a, r = .ok a → Q a t

theorem Ensures.mono {P Q : α → Cursor → Prop} (hp : Ensures p s P) (h : ∀ a t, P a t → Q a t) :
    Ensures p s Q := fun a ha => h a _ (hp a ha)

theorem Ensures.bind {f : α → Attempt β} {P : α → Cursor → Prop} {Q : β → Cursor → Prop}
    (hp : Ensures p s P) (hf : ∀ a t, P a t → Ensures (f a) t Q) : Ensures (p >>= f) s Q := by
  unfold Ensures
  rw [ExceptT.run_bind]
  refine Rule.Ensures.bind hp ?_
  intro r t hr
  cases r with
  | ok a => exact hf a t (hr a rfl)
  | error e =>
      refine Rule.ensures_pure ?_
      intro b hb
      cases hb

theorem ensures_behind {f : α → Attempt β} {Q : β → Cursor → Prop} (hf : ∀ a t, Ensures (f a) t Q) :
    Ensures (p >>= f) s Q :=
  @Ensures.bind _ _ p s f (fun _ _ => True) Q (fun _ _ => trivial) fun a t _ => hf a t

theorem ensures_pure {a : α} {Q : α → Cursor → Prop} (h : Q a s) :
    Ensures (pure a : Attempt α) s Q := by
  refine Rule.ensures_pure ?_
  intro b hb
  cases hb
  exact h

theorem ensures_ask {question : Cursor → α} {f : α → Attempt β} {Q : β → Cursor → Prop}
    (h : Ensures (f (question s)) s Q) :
    Ensures ((liftM (Rule.ask question) : Attempt α) >>= f) s Q := h

/-- A token is consumed before the rest. -/
theorem ensures_advance {f : Token → Attempt β} {Q : β → Cursor → Prop}
    (h : Ensures (f s.advance.previous) s.advance Q) :
    Ensures ((liftM Rule.advance : Attempt Token) >>= f) s Q := h

theorem ensures_upToHere {start : Token} {f : Range → Attempt β} {Q : β → Cursor → Prop}
    (h : Ensures (f (start.range.cover s.previousRange)) s Q) :
    Ensures ((liftM (Rule.upToHere start) : Attempt Range) >>= f) s Q := h

theorem ensures_lift {p : Rule α} {Q : α → Cursor → Prop} (h : p.Ensures s Q) :
    Ensures (liftM p : Attempt α) s Q := by
  show Rule.Ensures (Except.ok <$> p) s _
  unfold Rule.Ensures
  rw [Rule.run_map]
  intro a ha
  cases ha
  exact h

theorem ensures_fail {c : Complaint} {Q : α → Cursor → Prop} :
    Ensures (fail c : Attempt α) s Q := by
  intro a ha
  rw [run_run_fail] at ha
  cases ha

theorem ensures_tooDeep {Q : α → Cursor → Prop} : Ensures (tooDeep : Attempt α) s Q := by
  intro a ha
  rw [run_run_tooDeep] at ha
  cases ha

end

end Attempt

/-! ## Repetition -/

/-- A relation between a cursor, what is read from there on, and the cursor behind it, that holds
    where nothing is read and is kept when more is read. -/
structure Path {α : Type} (Q : Cursor → List α → Cursor → Prop) : Prop where
  skip : ∀ {s t : Cursor}, s.Reaches t → Q s [] t
  append : ∀ {s t u : Cursor} {as bs : List α}, Q s as t → Q t bs u → Q s (as ++ bs) u

namespace Path

variable {α β : Type} {Q : Cursor → List β → Cursor → Prop}

/-- Of all that is read, something is known. -/
theorem forAll (P : β → Prop) : Path fun _ bs _ => ∀ b ∈ bs, P b := by
  constructor
  · intro s t _ b hb
    cases hb
  · intro s t u as bs has hbs b hb
    exact (List.mem_append.1 hb).elim (has b) (hbs b)

/-- What is known of the parts `f` of all that is read, besides what is known of each. -/
theorem parts (hQ : Path Q) (P : α → Prop) (f : α → List β) :
    Path fun s as t => (∀ a ∈ as, P a) ∧ Q s (as.flatMap f) t := by
  constructor
  · intro s t h
    exact ⟨by simp, hQ.skip h⟩
  · intro s t u as bs has hbs
    rw [List.flatMap_append]
    exact ⟨@Path.append _ _ (forAll P) s t u as bs has.1 hbs.1, hQ.append has.2 hbs.2⟩

/-- What is skipped first does not count. -/
theorem behind (hQ : Path Q) {s t u : Cursor} {bs : List β} (hst : s.Reaches t) (h : Q t bs u) :
    Q s bs u := by
  have hall := hQ.append (hQ.skip hst) h
  rwa [List.nil_append] at hall

/-- What is read behind a comma is added to what is read before it. -/
theorem commaList (hQ : Path Q) {f : α → List β} {p : Rule α}
    (hp : ∀ s, p.Ensures s fun a t => Q s (f a) t) (more : α → Bool) (s : Cursor) :
    (Rule.commaList more p).Ensures s fun as t => Q s (as.flatMap f) t := by
  show Q s ((Rule.runCommaList more p s).value.flatMap f) (Rule.runCommaList more p s).rest
  fun_induction Rule.runCommaList more p s with
  | case1 s r _ t ih =>
      rw [List.flatMap_cons]
      exact hQ.append (hp s) (hQ.behind r.rest.reaches_advance ih)
  | case2 s r _ =>
      rw [List.flatMap_singleton]
      exact hp s

/-- A round adds what it reads, if anything. -/
theorem rounds (hQ : Path Q) {round : Rule (Option β)}
    (hround : ∀ s, round.Ensures s fun o t => Q s o.toList t) (stop : Cursor → Bool) (s : Cursor) :
    (Rule.rounds stop round).Ensures s fun as t => Q s as t := by
  show Q s (Rule.runRounds stop round s).value (Rule.runRounds stop round s).rest
  fun_induction Rule.runRounds stop round s with
  | case1 s start _ => exact hQ.skip s.reaches_skipSeparators
  | case2 s start _ r t ih =>
      have hnext := hQ.behind (Cursor.reaches_ensureProgress start r.rest) ih
      exact hQ.behind s.reaches_skipSeparators (hQ.append (hround start) hnext)

/-- A failure adds nothing. -/
theorem recovering (hQ : Path Q) {p : Attempt β} {s : Cursor}
    (hp : Attempt.Ensures p s fun b t => Q s [b] t) :
    (Attempt.recovering p).Ensures s fun o t => Q s o.toList t := by
  unfold Rule.Ensures
  rw [Attempt.run_recovering]
  split
  · next b hb => exact hp b hb
  · exact hQ.skip ((Rule.reaches p.run s).trans (Rule.run p.run s).rest.reaches_synchronize)

/-- Attempts all of which succeed yield one value each. -/
theorem flatMap_of_mapM {results : List (Except SyntaxError β)} {bs : List β}
    (h : results.mapM id = .ok bs) : results.flatMap (fun r => r.toOption.toList) = bs := by
  induction results generalizing bs with
  | nil =>
      cases h
      rfl
  | cons r results ih =>
      rw [List.mapM_cons] at h
      cases r with
      | error e => cases h
      | ok b =>
          cases hrest : results.mapM id with
          | error e =>
              rw [hrest] at h
              cases h
          | ok rest =>
              rw [hrest] at h
              cases h
              rw [List.flatMap_cons, ih hrest]
              rfl

/-- The same as `commaList`, for attempts. -/
theorem attempts (hQ : Path Q) {p : Attempt β} (hp : ∀ s, Attempt.Ensures p s fun b t => Q s [b] t)
    (s : Cursor) : Attempt.Ensures (Attempt.commaList p) s fun bs t => Q s bs t := by
  have hone (s : Cursor) : p.run.Ensures s fun r t => Q s r.toOption.toList t := by
    unfold Rule.Ensures
    cases hr : (Rule.run p.run s).value with
    | ok b => exact hp s b hr
    | error e => exact hQ.skip (Rule.reaches p.run s)
  refine Rule.Ensures.bind (hQ.commaList hone Except.isOk s) ?_
  intro results t h
  refine Rule.ensures_pure ?_
  intro bs hbs
  rw [flatMap_of_mapM hbs] at h
  exact h

end Path

/-! ## Expressions -/

namespace Expr

section

/- `R` is what is to be known of expressions that are read with some room, and `L` what is known of the
   left end of such an expression while it is read, with some part of the `total` room left. -/
variable {R : (room : Nat) → Cursor → Expr Range → Cursor → Prop}
  {L : (total room : Nat) → Cursor → Expr Range → Cursor → Prop}
  (hdone : ∀ ⦃total room s e t⦄, L total room s e t → R (total + 1) s e t)
  (hlink : ∀ ⦃total room s left t u op right v⦄, L total (room + 1) s left t → t.Reaches u →
    R (room + 1) u right v → room + 1 ≤ total →
      L total room s (.binary (left.range.cover right.range) op left right) v)

include hdone hlink in
/-- The operators of a chain are added one by one. -/
theorem ensures_chain {total room : Nat} (hle : room ≤ total)
    (hread : ∀ r ≤ room, ∀ (least : Nat) (s : Cursor), Attempt.Ensures (readBinding r least) s (R r s))
    {start : Cursor} {left : Expr Range} {s : Cursor} (hleft : L total room start left s) (least : Nat) :
    Attempt.Ensures (chain room least left) s (R (total + 1) start) := by
  induction room generalizing left s least with
  | zero =>
      rw [chain]
      refine Attempt.ensures_ask ?_
      split
      · exact Attempt.ensures_pure (hdone hleft)
      · exact Attempt.ensures_tooDeep
  | succ room ih =>
      rw [chain]
      refine Attempt.ensures_ask ?_
      split
      · exact Attempt.ensures_pure (hdone hleft)
      · next op _ =>
        refine (Attempt.ensures_lift (Rule.ensures_reaches _ s)).bind fun _ t ht => ?_
        rw [← bind_assoc]
        refine (hread (room + 1) (Nat.le_refl _) (op.power + 1) t).bind fun right u hright => ?_
        refine ih (Nat.le_of_succ_le hle) (fun r hr => hread r (Nat.le_succ_of_le hr)) ?_ least
        exact hlink hleft ht hright hle

include hdone hlink in
/-- What is known of all expressions, from what is known of an operand, of an operator with its operands
    and of a chain that ends. -/
theorem ensures_readBinding
    (hprimary : ∀ ⦃room inner⦄, (∀ s, Attempt.Ensures inner s (R room s)) →
      ∀ s, Attempt.Ensures (primaryBy inner) s (L room room s))
    (room least : Nat) (s : Cursor) : Attempt.Ensures (readBinding room least) s (R room s) := by
  induction room using Nat.strongRecOn generalizing least s with
  | ind room ih =>
      cases room with
      | zero => exact Attempt.ensures_tooDeep
      | succ room =>
          have hread (r : Nat) (hr : r ≤ room) := ih r (Nat.lt_succ_of_le hr)
          rw [readBinding, primary_eq]
          refine (hprimary (hread room (Nat.le_refl room) 0) s).bind fun operand t hoperand => ?_
          exact ensures_chain (L := L) hdone hlink (Nat.le_refl room) hread hoperand least

end

/-- A property of rules, started at a cursor, that the rules for expressions inherit from their parts. -/
structure Hereditary (P : Attempt (Expr Range) → Cursor → Prop) : Prop where
  pure (e : Expr Range) (s : Cursor) : P (pure e) s
  tooDeep (s : Cursor) : P Attempt.tooDeep s
  bind ⦃p : Attempt (Expr Range)⦄ ⦃f : Expr Range → Attempt (Expr Range)⦄ ⦃s : Cursor⦄ :
    P p s → (∀ e t, P (f e) t) → P (p >>= f) s
  ask ⦃least : Nat⦄ ⦃f : Option BinaryOp → Attempt (Expr Range)⦄ ⦃s : Cursor⦄ :
    P (f (s.operator? least)) s → P (liftM (Rule.operator? least) >>= f) s
  pass ⦃least : Nat⦄ ⦃op : BinaryOp⦄ ⦃rest : Attempt (Expr Range)⦄ ⦃s : Cursor⦄ :
    s.operator? least = some op → (∀ t, P rest t) →
      P ((liftM Rule.advance : Attempt Token) >>= fun _ => rest) s
  primaryBy ⦃inner : Attempt (Expr Range)⦄ : (∀ s, P inner s) → ∀ s, P (primaryBy inner) s

namespace Hereditary

variable {P : Attempt (Expr Range) → Cursor → Prop}

/-- The operators of a chain are passed one by one. -/
theorem chain_of_forall (h : Hereditary P) {room : Nat}
    (hread : ∀ r ≤ room, ∀ least s, P (readBinding r least) s) (least : Nat) (left : Expr Range)
    (s : Cursor) : P (chain room least left) s := by
  induction room generalizing left s with
  | zero =>
      rw [Expr.chain]
      refine h.ask ?_
      split
      · exact h.pure _ s
      · exact h.tooDeep s
  | succ room ih =>
      rw [Expr.chain]
      refine h.ask ?_
      split
      · exact h.pure _ s
      · next op hop =>
        refine h.pass hop fun t => ?_
        rw [← bind_assoc]
        refine h.bind (hread (room + 1) (Nat.le_refl _) (op.power + 1) t) fun right u => ?_
        exact ih (fun r hr => hread r (Nat.le_succ_of_le hr)) _ u

theorem readBinding (h : Hereditary P) (room least : Nat) (s : Cursor) :
    P (readBinding room least) s := by
  induction room using Nat.strongRecOn generalizing least s with
  | ind room ih =>
      cases room with
      | zero => exact h.tooDeep s
      | succ room =>
          have hread (r : Nat) (hr : r ≤ room) := ih r (Nat.lt_succ_of_le hr)
          rw [Expr.readBinding, primary_eq]
          refine h.bind (h.primaryBy (hread room (Nat.le_refl room) 0) s) fun operand t => ?_
          exact h.chain_of_forall hread least operand t

theorem chain (h : Hereditary P) (room least : Nat) (left : Expr Range) (s : Cursor) :
    P (chain room least left) s := h.chain_of_forall (fun r _ => h.readBinding r) least left s

end Hereditary

end Expr

/-- Instead of an expression that cannot be read there is a placeholder. -/
theorem Expr.ensures_readOrError {room : Nat} {s : Cursor} {Q : Expr Range → Cursor → Prop}
    (h : Attempt.Ensures (read room) s Q) (herror : ∀ r t, s.Reaches t → Q (.error r) t) :
    (readOrError room).Ensures s Q := by
  have hboth := And.intro h (Rule.reaches (read room).run s)
  refine @Rule.Ensures.bind _ _ (read room).run s _
    (fun r t => (∀ e, r = .ok e → Q e t) ∧ s.Reaches t) Q hboth ?_
  intro r t hr
  cases r with
  | ok e => exact Rule.ensures_pure (hr.1 e rfl)
  | error e => exact herror e.range t hr.2

end FourthGen
