import FourthGen.Parser.Program

set_option autoImplicit false

/-! # Progress

Every round of the loops over statements and items consumes a token: a statement or an item that is
read starts with one, and recovery from a failure drops one. So the loops never have to force a token
(`Rule.run_rounds_of_advances`), and the cursor that they go on from is the one where the round
stopped. -/

namespace FourthGen

theorem Cursor.ensureProgress_of_lt {start s : Cursor} (h : s.ahead.length < start.ahead.length) :
    Cursor.ensureProgress start s = s := by
  unfold Cursor.ensureProgress
  rw [if_neg (by omega)]

namespace Rule

/-- Before the end of the text, the rule consumes a token. -/
def Advances {α : Type} (p : Rule α) : Prop :=
  ∀ s : Cursor, s.atEnd = false → (p.run s).rest.ahead.length < s.ahead.length

theorem advances_advance : advance.Advances := fun _ h => Cursor.length_advance_lt h

theorem Advances.bind {α β : Type} {p : Rule α} (h : p.Advances) (f : α → Rule β) :
    (p >>= f).Advances := by
  intro s hs
  exact Nat.lt_of_le_of_lt ((f _).reaches _).length_le (h s hs)

/-- Where every round consumes a token, the rounds follow each other without a forced one. -/
theorem run_rounds_of_advances {α : Type} {stop : Cursor → Bool} {round : Rule (Option α)}
    (h : round.Advances) (s : Cursor) :
    (rounds stop round).run s =
      if s.skipSeparators.atEnd || stop s.skipSeparators then ⟨[], [], s.skipSeparators⟩
      else
        let r := round.run s.skipSeparators
        let t := (rounds stop round).run r.rest
        ⟨r.value.toList ++ t.value, r.recorded ++ t.recorded, t.rest⟩ := by
  rw [run_rounds]
  simp only
  split
  · rfl
  · next hs =>
    have hend : s.skipSeparators.atEnd = false := by
      simp only [Bool.or_eq_true, not_or, Bool.not_eq_true] at hs
      exact hs.1
    rw [Cursor.ensureProgress_of_lt (h _ hend)]

end Rule

namespace Attempt

/-- Before the end of the text, the rule consumes a token if it succeeds. -/
def Advances {α : Type} (p : Attempt α) : Prop :=
  ∀ (s : Cursor) (a : α), s.atEnd = false → (Rule.run p.run s).value = .ok a →
    (Rule.run p.run s).rest.ahead.length < s.ahead.length

theorem Advances.lift {α : Type} {p : Rule α} (h : p.Advances) :
    Advances (liftM p : Attempt α) := by
  intro s a hs _
  have hrest : (Rule.run (liftM p : Attempt α).run s).rest = (p.run s).rest := by
    show (Rule.run (Except.ok <$> p) s).rest = _
    rw [Rule.run_map]
  rw [hrest]
  exact h s hs

theorem Advances.bind {α β : Type} {p : Attempt α} (h : Advances p) (f : α → Attempt β) :
    Advances (p >>= f) := by
  intro s b hs hb
  rw [ExceptT.run_bind, Rule.run_bind] at hb ⊢
  simp only at hb ⊢
  cases hp : (Rule.run p.run s).value with
  | error e =>
    rw [hp] at hb
    cases hb
  | ok a => exact Nat.lt_of_le_of_lt (Rule.reaches _ _).length_le (h s a hs hp)

/-- A question before it changes nothing. -/
theorem Advances.ask {α β : Type} {question : Cursor → α} {f : α → Attempt β}
    (h : ∀ a, Advances (f a)) : Advances ((liftM (Rule.ask question) : Attempt α) >>= f) := by
  intro s b hs hb
  exact h (question s) s b hs hb

theorem advances_fail {α : Type} (c : Complaint) : Advances (fail c : Attempt α) := by
  intro s a _ h
  simp at h

theorem advances_tooDeep {α : Type} : Advances (tooDeep : Attempt α) := by
  intro s a _ h
  simp at h

/-- A round with recovery consumes a token in any case. -/
theorem advances_recovering {α : Type} {p : Attempt α} (h : Advances p) :
    (recovering p).Advances := by
  intro s hs
  rw [run_recovering]
  split
  · next a ha => exact h s a hs ha
  · next e he =>
    have hle := (Rule.reaches p.run s).length_le
    cases hend : (Rule.run p.run s).rest.atEnd with
    | true =>
      -- nothing is left that recovery could stop at
      have hnil : (Rule.run p.run s).rest.ahead = [] := by simpa [Cursor.atEnd] using hend
      have hsync := (Rule.run p.run s).rest.reaches_synchronize.length_le
      have hpos : 0 < s.ahead.length := by
        cases hsa : s.ahead with
        | nil => simp [Cursor.atEnd, hsa] at hs
        | cons x rest => simp
      rw [hnil] at hsync
      exact Nat.lt_of_le_of_lt hsync hpos
    | false =>
      have hadv := Cursor.length_advance_lt hend
      have hsync := ((Rule.run p.run s).rest.advance.reaches_skipUntil fun t =>
        t.previous.kind.isSeparator || Cursor.restartsAt t.kind || t.atBlockEnd).length_le
      exact Nat.lt_of_le_of_lt hsync (Nat.lt_of_lt_of_le hadv hle)

end Attempt

/-! ## Expressions, statements and items -/

/-- A rule that consumes a token first. -/
theorem Rule.advances_advance_bind {α : Type} (f : Token → Rule α) : (advance >>= f).Advances :=
  advances_advance.bind f

theorem Attempt.advances_advance_bind {α : Type} (f : Token → Attempt α) :
    Advances ((liftM Rule.advance : Attempt Token) >>= f) :=
  (Advances.lift Rule.advances_advance).bind f

theorem Expr.advances_primaryBy (inner : Attempt (Expr Range)) :
    Attempt.Advances (Expr.primaryBy inner) := by
  unfold Expr.primaryBy
  apply Attempt.Advances.ask
  intro token
  split
  · exact Attempt.advances_advance_bind _
  · exact Attempt.advances_advance_bind _
  · exact Attempt.advances_advance_bind _
  · exact Attempt.advances_advance_bind _
  · exact Attempt.advances_fail _

theorem Expr.advances_read (room : Nat) : Attempt.Advances (Expr.read room) := by
  cases room with
  | zero => exact Attempt.advances_tooDeep
  | succ room =>
    have hprimary : Attempt.Advances (Expr.primary room) := by
      cases room with
      | zero =>
        rw [Expr.primary]
        exact Expr.advances_primaryBy _
      | succ room =>
        rw [Expr.primary]
        exact Expr.advances_primaryBy _
    exact hprimary.bind _

theorem Stmt.advances_read (room : Nat) (block : Rule (List (Stmt Range))) :
    Attempt.Advances (Stmt.read room block) := by
  unfold Stmt.read
  apply Attempt.Advances.ask
  intro token
  -- every statement but an expression starts with its own first word
  split
  · exact .lift (Rule.advances_advance_bind _)
  · exact .lift (Rule.advances_advance_bind _)
  · exact .lift (Rule.advances_advance_bind _)
  · exact .lift (Rule.advances_advance_bind _)
  · exact .lift (Rule.advances_advance_bind _)
  · exact Attempt.advances_advance_bind _
  · exact .lift (Rule.advances_advance_bind _)
  · exact .lift (Rule.advances_advance_bind _)
  · exact .lift (Rule.advances_advance_bind _)
  · exact .lift (Rule.advances_advance_bind _)
  · exact .lift (Rule.advances_advance_bind _)
  · exact (Expr.advances_read room).bind _

theorem Item.advances_read (room : Nat) : Attempt.Advances (Item.read room) := by
  unfold Item.read
  apply Attempt.Advances.ask
  intro token
  split
  · exact .lift (Rule.advances_advance_bind _)
  · exact .lift (Rule.advances_advance_bind _)
  · apply Attempt.Advances.ask
    intro b
    cases b with
    | false => exact (Stmt.advances_read room _).bind _
    | true => exact Attempt.advances_fail _

/-- Every round over the statements of a block consumes a token. -/
theorem Stmt.advances_round (room : Nat) (block : Rule (List (Stmt Range))) :
    (Attempt.recovering (Stmt.read room block)).Advances :=
  Attempt.advances_recovering (Stmt.advances_read room block)

/-- Every round over the items of a program consumes a token. -/
theorem Item.advances_round (room : Nat) : (Attempt.recovering (Item.read room)).Advances :=
  Attempt.advances_recovering (Item.advances_read room)

end FourthGen
