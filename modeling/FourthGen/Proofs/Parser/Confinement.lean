import FourthGen.Proofs.Parser.Agreement
import FourthGen.Proofs.Parser.Ensures
import FourthGen.Proofs.Parser.Soundness

set_option autoImplicit false

/-! # Damage stays within a line

A rule stays within the line at whose tokens it starts if the line ends, seen from where it stops, at the
same place as before (`Rule.Within`). A sequence stays within the line if its parts do, so that only the
tokens that a rule consumes by itself are to be looked at. None of the rules for expressions, types and
names consumes a separator, however the tokens of the line are mixed up, and the same holds for every
statement without a block. Recovery from a failure goes at most behind the separator that ends the line
(`Cursor.synchronize_reaches`). -/

namespace FourthGen

open Grammar

namespace Cursor

variable {s : Cursor}

theorem kind_of_check {kind : TokenKind} (h : s.check kind = true) : s.kind = kind := by
  obtain ⟨x, hx, hk⟩ := check_iff.1 h
  rw [hx.kind_eq, hk]

/-- Where the rest of the line ends does not change within the line. -/
theorem skipLine_advance (h : s.kind.isSeparator = false) : s.advance.skipLine = s.skipLine := by
  cases hs : s.atEnd with
  | true =>
      have hnil : s.ahead = [] := by simpa [atEnd] using hs
      rw [advance, hnil]
  | false =>
      obtain ⟨x, -, hx⟩ := exists_takes_of_atEnd hs
      exact (skipUntil_of_takes hx h).symm

theorem skipLine_of_stop (h : s.atEnd = true ∨ s.kind.isSeparator = true) : s.skipLine = s :=
  skipUntil_of_stop h

/-- Skipping that stops behind every separator does not go further than behind the next one. -/
theorem skipUntil_reaches {stop : Cursor → Bool}
    (hstop : ∀ t : Cursor, t.previous.kind.isSeparator = true → stop t = true) (s : Cursor) :
    (s.skipUntil stop).Reaches s.skipLine.advance := by
  fun_induction skipUntil stop s with
  | case1 s h => exact s.reaches_skipLine.trans s.skipLine.reaches_advance
  | case2 s h ih =>
      simp only [Bool.or_eq_true, not_or, Bool.not_eq_true] at h
      obtain ⟨x, hx, hxt⟩ := exists_takes_of_atEnd h.1
      cases hk : s.kind.isSeparator with
      | false => rwa [skipLine_advance hk] at ih
      | true =>
          have hbehind : stop s.advance = true := by
            apply hstop
            rw [hxt.previous_eq, ← hx]
            exact hk
          rw [skipUntil_of_stop (.inr hbehind), skipLine_of_stop (.inr hk)]
          exact .refl _

/-- Recovery goes at most behind the separator that ends the line. -/
theorem synchronize_reaches (s : Cursor) : s.synchronize.Reaches s.skipLine.advance := by
  have hstop (t : Cursor) (ht : t.previous.kind.isSeparator = true) :
      (t.previous.kind.isSeparator || restartsAt t.kind || t.atBlockEnd) = true := by
    rw [ht, Bool.true_or, Bool.true_or]
  cases hk : s.kind.isSeparator with
  | false =>
      have hrest := skipUntil_reaches hstop s.advance
      rwa [skipLine_advance hk] at hrest
  | true =>
      rw [skipLine_of_stop (.inr hk), synchronize]
      cases hs : s.atEnd with
      | true =>
          have hnil : s.ahead = [] := by simpa [atEnd] using hs
          rw [advance, hnil]
          simp only
          rw [skipUntil_of_stop (.inl hs)]
          exact .refl s
      | false =>
          obtain ⟨x, hx, hxt⟩ := exists_takes_of_atEnd hs
          rw [skipUntil_of_stop (.inr (hstop _ (by rw [hxt.previous_eq, ← hx]; exact hk)))]
          exact .refl _

end Cursor

/-! ## Rules that stay within a line -/

namespace Rule

section

variable {α β : Type} {p : Rule α} {s : Cursor}

/-- Started at `s`, the rule stops in the same line, or before the separator that ends it. -/
def Within (p : Rule α) (s : Cursor) : Prop := (p.run s).rest.skipLine = s.skipLine

theorem within_pure (a : α) : (pure a : Rule α).Within s := rfl

theorem within_ask (question : Cursor → α) : (ask question).Within s := rfl

theorem within_complain (c : Complaint) : (complain c).Within s := rfl

theorem Within.bind {f : α → Rule β} (hp : p.Within s) (hf : ∀ a t, (f a).Within t) :
    (p >>= f).Within s :=
  (hf _ _).trans hp

/-- A question to the cursor before the rest. -/
theorem within_ask_bind {question : Cursor → α} {f : α → Rule β} (h : (f (question s)).Within s) :
    (ask question >>= f).Within s := h

theorem within_advance (h : s.kind.isSeparator = false) : advance.Within s :=
  Cursor.skipLine_advance h

theorem within_skipLine : skipLine.Within s := by
  obtain ⟨_, -, -, hend⟩ := s.takes_skipUntil (·.kind.isSeparator)
  exact Cursor.skipLine_of_stop hend

theorem within_expect {kind : TokenKind} (hk : kind.isSeparator = false) (c : Complaint) :
    (expect kind c).Within s := by
  unfold Within
  rw [run_expect]
  split
  · next h => exact Cursor.skipLine_advance (by rw [Cursor.kind_of_check h, hk])
  · rfl

theorem within_accept {kind : TokenKind} (hk : kind.isSeparator = false) :
    (accept [kind]).Within s := by
  unfold Within
  rw [run_accept]
  split
  · next h =>
    have hc : s.check kind = true := by simpa using h
    exact Cursor.skipLine_advance (by rw [Cursor.kind_of_check hc, hk])
  · rfl

theorem within_commaList (hp : ∀ s, p.Within s) (more : α → Bool) (s : Cursor) :
    (commaList more p).Within s := by
  show (runCommaList more p s).rest.skipLine = s.skipLine
  fun_induction runCommaList more p s with
  | case1 s r h t ih =>
      rw [Bool.and_eq_true] at h
      have hcomma : r.rest.kind = .symbol .comma := Cursor.kind_of_check h.2
      rw [Cursor.skipLine_advance (by rw [hcomma]; rfl)] at ih
      exact ih.trans (hp s)
  | case2 s r _ => exact hp s

end

end Rule

namespace Attempt

section

variable {α β : Type} {p : Attempt α} {s : Cursor}

/-- Started at `s`, the rule stops in the same line, or before the separator that ends it, whether it
    fails or not. -/
def Within (p : Attempt α) (s : Cursor) : Prop := p.run.Within s

theorem within_pure (a : α) : Within (pure a : Attempt α) s := rfl

theorem within_fail (c : Complaint) : Within (fail c : Attempt α) s := rfl

theorem within_tooDeep : Within (tooDeep : Attempt α) s := @Rule.within_skipLine s

theorem within_lift {p : Rule α} (h : p.Within s) : Within (liftM p : Attempt α) s := by
  show (Rule.run (Except.ok <$> p) s).rest.skipLine = _
  rw [Rule.run_map]
  exact h

theorem Within.bind {f : α → Attempt β} (hp : Within p s) (hf : ∀ a t, Within (f a) t) :
    Within (p >>= f) s := by
  unfold Within
  rw [ExceptT.run_bind]
  refine Rule.Within.bind hp fun r t => ?_
  cases r with
  | ok a => exact hf a t
  | error e => exact Rule.within_pure _

/-- A question to the cursor before the rest. -/
theorem within_ask_bind {question : Cursor → α} {f : α → Attempt β} (h : Within (f (question s)) s) :
    Within ((liftM (Rule.ask question) : Attempt α) >>= f) s := h

theorem within_commaList (hp : ∀ s, Within p s) (s : Cursor) : Within (commaList p) s :=
  (Rule.within_commaList hp _ s).bind fun _ _ => Rule.within_pure _

end

end Attempt

/-! ## Names and types -/

namespace Rule

variable {s : Cursor}

theorem name_within (role : NameRole) : (name role).Within s :=
  (within_expect rfl _).bind fun _ _ => within_pure _

theorem typeSizes_within (h : s.check (.symbol .leftParen) = true) : typeSizes.Within s := by
  refine (within_advance (by rw [Cursor.kind_of_check h]; rfl)).bind fun _ t => ?_
  refine (within_commaList (fun _ => within_expect rfl _) _ t).bind fun _ u => ?_
  exact (within_expect rfl _).bind fun _ _ => within_pure _

theorem dataType_within : dataType.Within s := by
  refine within_ask_bind ?_
  split
  · next h =>
    have hk : s.kind.isSeparator = false := by
      rw [Bool.or_eq_true, beq_iff_eq] at h
      show s.peek.kind.isSeparator = false
      generalize s.peek.kind = kind at h
      cases kind <;> simp_all [TokenKind.isDataType, TokenKind.isSeparator]
    refine (within_advance hk).bind fun _ t => ?_
    refine within_ask_bind ?_
    split
    · next hsizes =>
      rw [Bool.and_eq_true] at hsizes
      exact (typeSizes_within hsizes.1).bind fun _ _ => within_pure _
    · exact within_pure _
  · exact (within_complain _).bind fun _ _ => within_pure _

theorem declared_within (role : NameRole) : (declared? role).Within s := by
  refine (within_expect rfl _).bind fun o t => ?_
  cases o with
  | none => exact within_pure _
  | some x =>
      refine dataType_within.bind fun _ u => ?_
      exact (within_ask _).bind fun _ _ => within_pure _

theorem declaredList_within (role : NameRole) : (declaredList role).Within s :=
  (within_commaList (fun _ => declared_within role) _ s).bind fun _ _ => within_pure _

end Rule

/-! ## Expressions -/

namespace Expr

variable {inner : Attempt (Expr Range)} {room : Nat}

theorem argumentsBy_within (hinner : ∀ s, Attempt.Within inner s) (s : Cursor) :
    Attempt.Within (argumentsBy inner) s := by
  refine Attempt.within_ask_bind ?_
  have hclose (args : List (Expr Range)) (t : Cursor) : Attempt.Within (do
      let _ ← Rule.expect (.symbol .rightParen) (.missingCloser .arguments)
      return args) t :=
    (Attempt.within_lift (Rule.within_expect rfl _)).bind fun _ _ => Attempt.within_pure _
  split
  · exact (Attempt.within_pure []).bind hclose
  · exact (Attempt.within_commaList hinner s).bind hclose

theorem primaryBy_within (hinner : ∀ s, Attempt.Within inner s) (s : Cursor) :
    Attempt.Within (primaryBy inner) s := by
  refine Attempt.within_ask_bind ?_
  have hadvance {kind : TokenKind} (hk : s.peek.kind = kind) (h : kind.isSeparator = false) :
      Attempt.Within (liftM Rule.advance : Attempt Token) s :=
    Attempt.within_lift (Rule.within_advance (by rw [Cursor.kind, hk, h]))
  split
  · next hk => exact (hadvance hk rfl).bind fun _ _ => Attempt.within_pure _
  · next hk => exact (hadvance hk rfl).bind fun _ _ => Attempt.within_pure _
  · next hk =>
    refine (hadvance hk rfl).bind fun _ t => ?_
    refine (Attempt.within_lift (Rule.within_accept rfl)).bind fun isCall u => ?_
    cases isCall with
    | false => exact Attempt.within_pure _
    | true =>
        refine (argumentsBy_within hinner u).bind fun _ v => ?_
        exact (Attempt.within_lift (Rule.within_ask _)).bind fun _ _ => Attempt.within_pure _
  · next hk =>
    refine (hadvance hk rfl).bind fun _ t => ?_
    refine (hinner t).bind fun _ u => ?_
    refine (Attempt.within_lift (Rule.within_expect rfl _)).bind fun _ v => ?_
    exact (Attempt.within_lift (Rule.within_ask _)).bind fun _ _ => Attempt.within_pure _
  · exact Attempt.within_fail _

/-- An operator is no separator. -/
theorem within_hereditary : Hereditary Attempt.Within where
  pure e _ := Attempt.within_pure e
  tooDeep _ := Attempt.within_tooDeep
  bind _ _ _ hp hf := hp.bind hf
  ask _ _ _ h := Attempt.within_ask_bind h
  pass _ _ _ _ hop hrest :=
    have hk := (Likeness.isSeparator_of_operator hop).1
    (Attempt.within_lift (Rule.within_advance hk)).bind fun _ t => hrest t
  primaryBy _ := primaryBy_within

theorem read_within (room : Nat) (s : Cursor) : Attempt.Within (read room) s :=
  within_hereditary.readBinding room 0 s

theorem readOrError_within (room : Nat) (s : Cursor) : (readOrError room).Within s := by
  refine Rule.Within.bind (read_within room s) fun result t => ?_
  cases result with
  | ok e => exact Rule.within_pure e
  | error e => rfl

end Expr

/-! ## Statements and items -/

namespace Stmt

section

variable {room : Nat} {s : Cursor} {k : Keyword} (hk : s.kind = .keyword k)

include hk

theorem keyword_within : Rule.advance.Within s := Rule.within_advance (by rw [hk]; rfl)

theorem readDefine_within : readDefine.Within s := by
  refine (keyword_within hk).bind fun _ t => ?_
  refine (Rule.declaredList_within _).bind fun _ u => ?_
  exact (Rule.within_ask _).bind fun _ _ => Rule.within_pure _

theorem readAssign_within : (readAssign room).Within s := by
  refine (keyword_within hk).bind fun _ t => ?_
  refine (Rule.name_within _).bind fun _ u => ?_
  refine (Rule.within_expect rfl _).bind fun _ v => ?_
  refine (Expr.readOrError_within room v).bind fun _ w => ?_
  exact (Rule.within_ask _).bind fun _ _ => Rule.within_pure _

theorem readCall_within : Attempt.Within (readCall room) s := by
  refine (Attempt.within_lift (keyword_within hk)).bind fun start t => ?_
  refine (Attempt.within_lift (Rule.name_within _)).bind fun name u => ?_
  refine (Attempt.within_lift (Rule.within_accept rfl)).bind fun hasArgs v => ?_
  have hend (args : List (Expr Range)) (w : Cursor) : Attempt.Within (do
      return Stmt.call (← Rule.upToHere start) name args) w :=
    (Attempt.within_lift (Rule.within_ask _)).bind fun _ _ => Attempt.within_pure _
  cases hasArgs with
  | false => exact (Attempt.within_pure []).bind hend
  | true => exact (Expr.argumentsBy_within (Expr.read_within room) v).bind hend

theorem readReturn_within : (readReturn room).Within s := by
  refine (keyword_within hk).bind fun _ t => ?_
  refine Rule.within_ask_bind ?_
  split
  · exact (Rule.within_ask _).bind fun _ _ => Rule.within_pure _
  · refine (Expr.readOrError_within room t).bind fun _ u => ?_
    exact (Rule.within_ask _).bind fun _ _ => Rule.within_pure _

theorem readSql_within (kind : SqlKind) : (readSql kind).Within s := by
  refine (keyword_within hk).bind fun _ t => ?_
  refine Rule.within_skipLine.bind fun _ u => ?_
  exact (Rule.within_ask _).bind fun _ _ => Rule.within_pure _

end

theorem readExpression_within (room : Nat) (s : Cursor) : Attempt.Within (readExpression room) s :=
  (Expr.read_within room s).bind fun _ _ => Attempt.within_pure _

/-- A statement without a block stays within its line, whatever the rule for blocks is. -/
theorem read_within (room : Nat) (block : Rule (List (Stmt Range))) {s : Cursor}
    (hs : Cursor.opensCompound s.kind = false) : Attempt.Within (read room block) s := by
  refine Attempt.within_ask_bind ?_
  split
  · next hk => exact Attempt.within_lift (readDefine_within hk)
  · next hk => exact Attempt.within_lift (readAssign_within hk)
  · next hk => rw [Cursor.kind, hk] at hs; cases hs
  · next hk => rw [Cursor.kind, hk] at hs; cases hs
  · next hk => rw [Cursor.kind, hk] at hs; cases hs
  · next hk => exact readCall_within hk
  · next hk => exact Attempt.within_lift (readReturn_within hk)
  · next hk => exact Attempt.within_lift (readSql_within hk _)
  · next hk => exact Attempt.within_lift (readSql_within hk _)
  · next hk => exact Attempt.within_lift (readSql_within hk _)
  · next hk => exact Attempt.within_lift (readSql_within hk _)
  · exact readExpression_within room s

end Stmt

theorem Item.read_within (room : Nat) {s : Cursor} (hs : Cursor.opensCompound s.kind = false)
    (hr : s.atRoutine = false) : Attempt.Within (Item.read room) s := by
  rw [Cursor.atRoutine_eq_false] at hr
  refine Attempt.within_ask_bind ?_
  split
  · next hk => exact absurd hk hr.1
  · next hk => exact absurd hk hr.2
  · refine Attempt.within_ask_bind ?_
    split
    · exact Attempt.within_fail _
    · exact (Stmt.read_within room _ hs).bind fun _ _ => Attempt.within_pure _

/-! ## Rounds -/

/-- A round that starts at `s` does no damage behind `e`, where the line of `s` ends: it stops at `e` or
    before if it reads something, and else at most behind the separator at `e`. The next round starts
    where it stops. -/
structure Rule.Confined {α : Type} (round : Rule (Option α)) (s e : Cursor) : Prop where
  read : (round.run s).value.isSome → (round.run s).rest.Reaches e
  failed : (round.run s).value = none → (round.run s).rest.Reaches e.advance
  next : s.atEnd = false → Cursor.ensureProgress s (round.run s).rest = (round.run s).rest

theorem Attempt.Within.confined {α : Type} {p : Attempt α} {s : Cursor} (h : Within p s)
    (hadv : (recovering p).Advances) : (recovering p).Confined s s.skipLine := by
  refine ⟨?_, ?_, fun hs => Cursor.ensureProgress_of_lt (hadv s hs)⟩
  · rw [run_recovering, ← show (Rule.run p.run s).rest.skipLine = s.skipLine from h]
    split
    · intro _
      exact Cursor.reaches_skipLine _
    · intro hnone
      cases hnone
  · rw [run_recovering, ← show (Rule.run p.run s).rest.skipLine = s.skipLine from h]
    split
    · intro hsome
      cases hsome
    · intro _
      exact Cursor.synchronize_reaches _

/-- A round over the statements of a block, or over the items of a program, that starts at a token that
    opens neither a statement with a block nor a declaration, consumes nothing behind the separator that
    ends the line, whatever the tokens of the line are; and not even that separator unless it fails. -/
theorem rounds_confined {s e : Cursor} {line : List Token} (hline : s.Takes line e)
    (hin : InLine line) (he : e.atEnd = true ∨ e.kind.isSeparator = true)
    (hs : Cursor.opensCompound s.kind = false) (hr : s.atRoutine = false) (room : Nat)
    (block : Rule (List (Stmt Range))) :
    (Attempt.recovering (Stmt.read room block)).Confined s e ∧
      (Attempt.recovering (Item.read room)).Confined s e := by
  have hend : s.skipLine = e := hline.skipUntil_eq hin he
  rw [← hend]
  exact ⟨(Stmt.read_within room block hs).confined (Stmt.advances_round room block),
    (Item.read_within room hs hr).confined (Item.advances_round room)⟩

/-- The argument is missing at the very end of the line. The round fails there, and the next statement is
    where it stops. -/
theorem rounds_confined_call :
    let s := Cursor.ofText "CALL f(1,\nRETURN 2"
    let round := Attempt.recovering (Stmt.read maxNesting (Stmt.readBlock maxNesting))
    (round.run s).value = none ∧ (round.run s).rest = s.skipLine.advance ∧
      s.skipLine.advance.kind = .keyword .RETURN ∧ round.Confined s s.skipLine ∧
      (Attempt.recovering (Item.read maxNesting)).Confined s s.skipLine := by
  intro s round
  have hline : s.Takes (s.ahead.take 5) s.skipLine :=
    ⟨by decide +kernel, by decide +kernel, by decide +kernel⟩
  have hin : InLine (s.ahead.take 5) := by
    unfold InLine
    decide +kernel
  have hconfined := rounds_confined hline hin (by decide +kernel) (by decide +kernel)
    (by decide +kernel) maxNesting (Stmt.readBlock maxNesting)
  exact ⟨by decide +kernel, by decide +kernel, by decide +kernel, hconfined.1, hconfined.2⟩

end FourthGen
