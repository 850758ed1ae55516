import FourthGen.Proofs.Parser.Descent
import FourthGen.Proofs.Parser.Operations
import FourthGen.Proofs.Parser.Ranges

set_option autoImplicit false

/-! # Errors in the order of the text

Errors are recorded on the spot, or made deep inside of an expression and recorded later, by a rule that
has called for the expression, when the cursor may have moved on. Still they come in the order of the
tokens that they complain about: between its making and its recording, no other error is recorded.

`Cursor.Reports` relates two cursors and the errors found between them. A rule is orderly if it records
the errors found between where it starts and where it stops (`Rule.Orderly`); one that fails has its
error as the last of them (`Attempt.Orderly`). Along with the order goes a condition on what a rule yields
and what it records (`Rule.Logs`): for every placeholder in a tree there is an error. -/

namespace FourthGen

/-! ## Errors between two cursors -/

namespace Cursor

/-- On the way from `s` to `t` the errors are found in this order. Each complains about the token where
    the cursor stands then. -/
inductive Reports : Cursor → List SyntaxError → Cursor → Prop
  | none {s t : Cursor} (h : s.Reaches t) : Reports s [] t
  | error {s u t : Cursor} {c : Complaint} {es : List SyntaxError} (h : s.Reaches u)
      (hs : Reports u es t) : Reports s (u.errorHere c :: es) t

namespace Reports

variable {s t u : Cursor} {es fs : List SyntaxError}

theorem behind (h : s.Reaches u) (hs : u.Reports es t) : s.Reports es t := by
  cases hs with
  | none hut => exact .none (h.trans hut)
  | error huv hs => exact .error (h.trans huv) hs

theorem append (h : s.Reports es t) (k : t.Reports fs u) : s.Reports (es ++ fs) u := by
  induction h with
  | none hst => exact k.behind hst
  | error hsv _ ih => exact .error hsv (ih k)

theorem skip (h : s.Reports es t) (htu : t.Reaches u) : s.Reports es u := by
  have hall := h.append (.none htu)
  rwa [List.append_nil] at hall

/-- The error that complains about the token at the cursor. -/
theorem here (s : Cursor) (c : Complaint) : s.Reports [s.errorHere c] s :=
  .error (.refl s) (.none (.refl s))

/-- Every error complains about a token ahead. -/
theorem exists_of_mem (h : s.Reports es t) {e : SyntaxError} (he : e ∈ es) :
    ∃ u c, s.Reaches u ∧ e = u.errorHere c := by
  induction h with
  | none => cases he
  | @error s u t c es hu _ ih =>
      rcases List.mem_cons.1 he with rfl | he
      · exact ⟨u, c, hu, rfl⟩
      · obtain ⟨v, c', hv, heq⟩ := ih he
        exact ⟨v, c', hu.trans hv, heq⟩

/-- What holds of a token and every one ahead of it holds of the errors in their order. -/
theorem pairwise {R : SyntaxError → SyntaxError → Prop} (h : s.Reports es t)
    (hR : ∀ ⦃u v⦄, s.Reaches u → u.Reaches v → ∀ c d, R (u.errorHere c) (v.errorHere d)) :
    es.Pairwise R := by
  induction h with
  | none => exact .nil
  | @error s u t c es hu hs ih =>
      refine .cons (fun e he => ?_) (ih fun v w hv => hR (hu.trans hv))
      obtain ⟨v, d, hv, rfl⟩ := hs.exists_of_mem he
      exact hR hu hv c d

/-- The errors complain about the tokens at certain indices, none of which is less than one before. -/
theorem exists_indices (h : s.Reports es t) :
    ∃ indices : List Nat, List.Forall₂ (fun i e => ∃ x, s.tokens[i]? = some x ∧ e.found = x.kind ∧
        e.range = x.errorRange) indices es ∧
      indices.Pairwise (· ≤ ·) ∧ ∀ i ∈ indices, s.current ≤ i := by
  induction h with
  | none => exact ⟨[], .nil, .nil, by simp⟩
  | @error s u t c es hu _ ih =>
      obtain ⟨indices, hes, horder, hle⟩ := ih
      rw [hu.tokens_eq] at hes
      refine ⟨u.current :: indices, .cons ⟨u.peek, ?_, rfl, rfl⟩ hes, .cons hle horder, ?_⟩
      · rw [← hu.tokens_eq, getElem_current]
      · rw [List.forall_mem_cons]
        exact ⟨hu.current_le, fun i hi => Nat.le_trans hu.current_le (hle i hi)⟩

end Reports

end Cursor

/-! ## Rules and what they record -/

namespace Rule

section

variable {α β : Type} {p : Rule α} {s : Cursor} {Q : β → List SyntaxError → Prop}

/-- Started at `s`, the rule records the errors found on its way, in order, and these and its value are as
    `Q` says. -/
structure Logs (p : Rule α) (s : Cursor) (Q : α → List SyntaxError → Prop) : Prop where
  reports : s.Reports (p.run s).recorded (p.run s).rest
  post : Q (p.run s).value (p.run s).recorded

theorem logs_pure {b : β} (h : Q b []) : (pure b : Rule β).Logs s Q := ⟨.none (.refl s), h⟩

theorem Logs.bind {f : α → Rule β} {P : α → List SyntaxError → Prop} (hp : p.Logs s P)
    (hf : ∀ a es t, P a es → (f a).Logs t fun b fs => Q b (es ++ fs)) : (p >>= f).Logs s Q :=
  have hrest := hf _ _ (p.run s).rest hp.post
  ⟨hp.reports.append hrest.reports, hrest.post⟩

/-- Wherever it starts, the rule records the errors found on the way to where it stops, in order. -/
def Orderly (p : Rule α) : Prop := ∀ s, p.Logs s fun _ _ => True

/-- A first part of which only the order of its errors is needed. -/
theorem Orderly.logs_bind {f : α → Rule β} (hp : p.Orderly)
    (hf : ∀ a es t, (f a).Logs t fun b fs => Q b (es ++ fs)) : (p >>= f).Logs s Q :=
  (hp s).bind fun a es t _ => hf a es t

theorem Orderly.bind {f : α → Rule β} (hp : p.Orderly) (hf : ∀ a, (f a).Orderly) :
    (p >>= f).Orderly := fun _ => hp.logs_bind fun a _ t => hf a t

theorem Orderly.ite {c : Prop} [Decidable c] {q : Rule α} (hp : p.Orderly) (hq : q.Orderly) :
    (if c then p else q).Orderly := by
  split
  · exact hp
  · exact hq

theorem orderly_pure (a : α) : (pure a : Rule α).Orderly := fun _ => logs_pure trivial

theorem orderly_ask (question : Cursor → α) : (ask question).Orderly := fun s =>
  ⟨.none (.refl s), trivial⟩

theorem orderly_move (step : Cursor → Cursor) (h : ∀ s : Cursor, s.Reaches (step s)) :
    (move step h).Orderly := fun s => ⟨.none (h s), trivial⟩

theorem orderly_complain (c : Complaint) : (complain c).Orderly := fun s => ⟨.here s c, trivial⟩

theorem orderly_advance : advance.Orderly := (orderly_move _ _).bind fun _ => orderly_ask _

theorem orderly_accept (kinds : List TokenKind) : (accept kinds).Orderly := by
  refine (orderly_ask _).bind fun found => ?_
  exact .ite (orderly_advance.bind fun _ => orderly_pure _) (orderly_pure _)

theorem orderly_expect (kind : TokenKind) (c : Complaint) : (expect kind c).Orderly := by
  refine (orderly_ask _).bind fun found => .ite ?_ ?_
  · exact orderly_advance.bind fun _ => orderly_pure _
  · exact (orderly_complain c).bind fun _ => orderly_pure _

theorem Orderly.commaList (hp : p.Orderly) (more : α → Bool) : (commaList more p).Orderly := by
  intro s
  suffices h : s.Reports (runCommaList more p s).recorded (runCommaList more p s).rest from ⟨h, trivial⟩
  fun_induction runCommaList more p s with
  | case1 s r _ t ih => exact (hp s).reports.append (ih.behind r.rest.reaches_advance)
  | case2 s r _ => exact (hp s).reports

end

end Rule

namespace Attempt

section

variable {α β : Type} {p : Attempt α} {s : Cursor} {Q : β → List SyntaxError → Prop}

/-- The error that an attempt failed with, if it did. -/
def failure : Except SyntaxError α → List SyntaxError
  | .ok _ => []
  | .error e => [e]

/-- Started at `s`, the rule records errors found on its way, in order. If it fails, its error comes behind
    them; else these and its value are as `Q` says. -/
structure Logs (p : Attempt α) (s : Cursor) (Q : α → List SyntaxError → Prop) : Prop where
  reports : s.Reports ((Rule.run p.run s).recorded ++ failure (Rule.run p.run s).value)
    (Rule.run p.run s).rest
  post : ∀ a, (Rule.run p.run s).value = .ok a → Q a (Rule.run p.run s).recorded

theorem Logs.reports_ok {P : α → List SyntaxError → Prop} (hp : Logs p s P) {a : α}
    (ha : (Rule.run p.run s).value = .ok a) :
    s.Reports (Rule.run p.run s).recorded (Rule.run p.run s).rest := by
  have h := hp.reports
  rwa [ha, failure, List.append_nil] at h

theorem Logs.reports_error {P : α → List SyntaxError → Prop} (hp : Logs p s P) {e : SyntaxError}
    (he : (Rule.run p.run s).value = .error e) :
    s.Reports ((Rule.run p.run s).recorded ++ [e]) (Rule.run p.run s).rest := by
  have h := hp.reports
  rwa [he] at h

theorem logs_lift {p : Rule β} (hp : p.Logs s Q) : Logs (liftM p : Attempt β) s Q := by
  have hrun : Rule.run (liftM p : Attempt β).run s = ⟨.ok (p.run s).value, (p.run s).recorded,
      (p.run s).rest⟩ := Rule.run_map Except.ok p s
  constructor
  · rw [hrun, failure, List.append_nil]
    exact hp.reports
  · rw [hrun]
    rintro b ⟨⟩
    exact hp.post

theorem logs_pure {b : β} (h : Q b []) : Logs (pure b : Attempt β) s Q := logs_lift (Rule.logs_pure h)

theorem logs_fail (c : Complaint) : Logs (fail c : Attempt β) s Q := by
  refine ⟨.here s c, ?_⟩
  rintro b ⟨⟩

theorem Logs.bind {f : α → Attempt β} {P : α → List SyntaxError → Prop} (hp : Logs p s P)
    (hf : ∀ a es t, P a es → Logs (f a) t fun b fs => Q b (es ++ fs)) : Logs (p >>= f) s Q := by
  cases hv : (Rule.run p.run s).value with
  | error e =>
      have hrun := run_bind p f s
      rw [hv] at hrun
      refine ⟨?_, ?_⟩
      · rw [hrun]
        exact hp.reports_error hv
      · rw [hrun]
        rintro b ⟨⟩
  | ok a =>
      have hrun := run_bind p f s
      have hrest := hf a _ (Rule.run p.run s).rest (hp.post a hv)
      rw [hv] at hrun
      refine ⟨?_, ?_⟩
      · rw [hrun]
        simp only [List.append_assoc]
        exact (hp.reports_ok hv).append hrest.reports
      · rw [hrun]
        exact hrest.post

theorem Logs.mono {p : Attempt β} {P : β → List SyntaxError → Prop} (hp : Logs p s P)
    (h : ∀ b es, P b es → Q b es) : Logs p s Q :=
  ⟨hp.reports, fun b hb => h b _ (hp.post b hb)⟩

/-- A question to the cursor before the rest. -/
theorem logs_ask_bind {question : Cursor → α} {f : α → Attempt β} (h : Logs (f (question s)) s Q) :
    Logs ((liftM (Rule.ask question) : Attempt α) >>= f) s Q := ⟨h.reports, h.post⟩

/-- Wherever it starts, the rule records errors found on the way to where it stops, in order; and if it
    fails, its error comes behind them. -/
def Orderly (p : Attempt α) : Prop := ∀ s, Logs p s fun _ _ => True

theorem Orderly.logs_bind {f : α → Attempt β} (hp : Orderly p)
    (hf : ∀ a es t, Logs (f a) t fun b fs => Q b (es ++ fs)) : Logs (p >>= f) s Q :=
  (hp s).bind fun a es t _ => hf a es t

/-- What is known of the value of an orderly rule anyway. -/
theorem Orderly.logs {p : Attempt β} {R : β → Cursor → Prop} (hp : Orderly p) (hR : Ensures p s R)
    (hQ : ∀ b t es, R b t → Q b es) : Logs p s Q :=
  ⟨(hp s).reports, fun b hb => hQ b _ _ (hR b hb)⟩

theorem Orderly.bind {f : α → Attempt β} (hp : Orderly p) (hf : ∀ a, Orderly (f a)) :
    Orderly (p >>= f) := fun _ => hp.logs_bind fun a _ t => hf a t

theorem Orderly.ite {c : Prop} [Decidable c] {q : Attempt α} (hp : Orderly p) (hq : Orderly q) :
    Orderly (if c then p else q) := by
  split
  · exact hp
  · exact hq

theorem orderly_lift {p : Rule α} (hp : p.Orderly) : Orderly (liftM p : Attempt α) :=
  fun s => logs_lift (hp s)

theorem orderly_pure (a : α) : Orderly (pure a : Attempt α) := fun _ => logs_pure trivial

theorem orderly_fail (c : Complaint) : Orderly (fail c : Attempt α) := fun _ => logs_fail c

/-- What is skipped behind the place of the error does not matter. -/
theorem orderly_tooDeep : Orderly (tooDeep : Attempt α) := fun s =>
  ⟨(Cursor.Reports.here s .nestingTooDeep).skip s.reaches_skipLine, fun _ _ => trivial⟩

theorem failure_map {f : α → β} (r : Except SyntaxError α) : failure (r.map f) = failure r := by
  cases r <;> rfl

theorem Orderly.commaList (hp : Orderly p) : Orderly (commaList p) := by
  intro s
  refine ⟨?_, fun _ _ => trivial⟩
  obtain ⟨n, hn⟩ : ∃ n, s.ahead.length = n := ⟨_, rfl⟩
  induction n using Nat.strongRecOn generalizing s with
  | ind n ih =>
      have hle := (Rule.reaches p.run s).length_le
      rw [run_commaList]
      cases hv : (Rule.run p.run s).value with
      | error e => exact (hp s).reports_error hv
      | ok a =>
          have hfirst := (hp s).reports_ok hv
          simp only
          split
          · next hc =>
            have hlt := Cursor.length_advance_lt (Cursor.atEnd_eq_false_of_check hc)
            have hrest := ih _ (by omega) (Rule.run p.run s).rest.advance rfl
            rw [failure_map, List.append_assoc]
            exact hfirst.append (hrest.behind (Cursor.reaches_advance _))
          · rwa [failure, List.append_nil]

end

end Attempt

/-! ## Names, types and closing words -/

namespace Rule

theorem orderly_name (role : NameRole) : (name role).Orderly :=
  (orderly_expect _ _).bind fun _ => orderly_pure _

theorem orderly_typeSizes : typeSizes.Orderly := by
  refine orderly_advance.bind fun _ => ?_
  refine ((orderly_expect _ _).commaList _).bind fun _ => ?_
  exact (orderly_expect _ _).bind fun _ => orderly_pure _

theorem orderly_dataType : dataType.Orderly := by
  refine (orderly_ask _).bind fun token => .ite ?_ ?_
  · refine orderly_advance.bind fun _ => ?_
    refine (orderly_ask _).bind fun _ => .ite ?_ (orderly_pure _)
    exact orderly_typeSizes.bind fun _ => orderly_pure _
  · exact (orderly_complain _).bind fun _ => orderly_pure _

theorem orderly_declared (role : NameRole) : (declared? role).Orderly := by
  refine (orderly_expect _ _).bind fun found => ?_
  cases found with
  | none => exact orderly_pure _
  | some token =>
      refine orderly_dataType.bind fun _ => ?_
      exact (orderly_ask _).bind fun _ => orderly_pure _

theorem orderly_declaredList (role : NameRole) : (declaredList role).Orderly :=
  ((orderly_declared role).commaList _).bind fun _ => orderly_pure _

theorem orderly_compoundEnd (compound : Compound) : (compoundEnd compound).Orderly := by
  refine (orderly_accept _).bind fun _ => .ite (orderly_pure _) ?_
  refine (orderly_ask _).bind fun _ => .ite ?_ (orderly_complain _)
  refine orderly_advance.bind fun _ => ?_
  exact orderly_advance.bind fun _ => orderly_pure _

theorem orderly_parameters (routine : Routine) : (parameters routine).Orderly := by
  refine (orderly_expect _ _).bind fun found => ?_
  cases found with
  | none => exact orderly_pure _
  | some token =>
      refine (orderly_ask _).bind fun closes => ?_
      have hclose (params : List (Variable Range)) : Orderly (do
          let _ ← expect (.symbol .rightParen) (.missingCloser .parameters)
          return params) := (orderly_expect _ _).bind fun _ => orderly_pure _
      exact .ite ((orderly_pure _).bind hclose) ((orderly_declaredList _).bind hclose)

theorem orderly_returning : returning?.Orderly := by
  refine (orderly_ask _).bind fun _ => .ite ?_ (orderly_pure _)
  refine orderly_advance.bind fun _ => ?_
  exact orderly_dataType.bind fun _ => orderly_pure _

theorem orderly_routineEnd (routine : Routine) : (routineEnd routine).Orderly := by
  refine (orderly_ask _).bind fun _ => .ite ?_ ?_
  · exact orderly_advance.bind fun _ => orderly_pure _
  · refine (orderly_ask _).bind fun _ => .ite ?_ (orderly_complain _)
    refine orderly_advance.bind fun _ => ?_
    exact (orderly_accept _).bind fun _ => orderly_pure _

end Rule

/-! ## Expressions -/

namespace Expr

open Attempt

variable {inner : Attempt (Expr Range)}

theorem orderly_argumentsBy (hinner : Orderly inner) : Orderly (argumentsBy inner) := by
  refine (orderly_lift (Rule.orderly_ask _)).bind fun token => ?_
  have hclose (args : List (Expr Range)) : Orderly (do
      let _ ← Rule.expect (.symbol .rightParen) (.missingCloser .arguments)
      return args) := (orderly_lift (Rule.orderly_expect _ _)).bind fun _ => orderly_pure _
  exact .ite ((orderly_pure _).bind hclose) (hinner.commaList.bind hclose)

theorem orderly_primaryBy (hinner : Orderly inner) : Orderly (primaryBy inner) := by
  have hadvance : Orderly (liftM Rule.advance : Attempt Token) := orderly_lift Rule.orderly_advance
  have hrange (start : Token) : Orderly (liftM (Rule.upToHere start) : Attempt Range) :=
    orderly_lift (Rule.orderly_ask _)
  refine (orderly_lift (Rule.orderly_ask _)).bind fun token => ?_
  split
  · exact hadvance.bind fun _ => orderly_pure _
  · exact hadvance.bind fun _ => orderly_pure _
  · refine hadvance.bind fun _ => ?_
    refine (orderly_lift (Rule.orderly_accept _)).bind fun _ => .ite ?_ (orderly_pure _)
    refine (orderly_argumentsBy hinner).bind fun _ => ?_
    exact (hrange _).bind fun _ => orderly_pure _
  · refine hadvance.bind fun _ => ?_
    refine hinner.bind fun _ => ?_
    refine (orderly_lift (Rule.orderly_expect _ _)).bind fun _ => ?_
    exact (hrange _).bind fun _ => orderly_pure _
  · exact orderly_fail _

theorem orderly_hereditary : Hereditary fun p s => Logs p s fun _ _ => True where
  pure e := orderly_pure e
  tooDeep := orderly_tooDeep
  bind _ _ _ hp hf := hp.bind fun e _ t _ => hf e t
  ask _ _ _ h := logs_ask_bind h
  pass _ _ _ _ _ hrest := (orderly_lift Rule.orderly_advance).logs_bind fun _ _ t => hrest t
  primaryBy _ := orderly_primaryBy

theorem orderly_read (room : Nat) : Orderly (read room) := orderly_hereditary.readBinding room 0

end Expr

/-! ## Placeholders -/

mutual

/-- The ranges of the placeholders in an expression. -/
def Expr.holes : Expr Range → List Range
  | .identifier _ _ => []
  | .literal _ _ => []
  | .binary _ _ left right => left.holes ++ right.holes
  | .call _ _ args => Expr.holesAll args
  | .error range => [range]

/-- The ranges of the placeholders in the expressions of a list. -/
def Expr.holesAll : List (Expr Range) → List Range
  | [] => []
  | e :: es => e.holes ++ Expr.holesAll es

end

mutual

/-- The ranges of the placeholders in a statement. -/
def Stmt.holes : Stmt Range → List Range
  | .define _ _ => []
  | .assign _ _ value => value.holes
  | .conditional _ condition thenBlock elseBlock =>
    condition.holes ++ (Stmt.holesAll thenBlock ++ Stmt.holesAll elseBlock)
  | .whileLoop _ condition body => condition.holes ++ Stmt.holesAll body
  | .forLoop _ body => Stmt.holesAll body
  | .call _ _ args => Expr.holesAll args
  | .giveBack _ none => []
  | .giveBack _ (some value) => value.holes
  | .sql _ _ => []
  | .expression _ value => value.holes

/-- The ranges of the placeholders in the statements of a block. -/
def Stmt.holesAll : List (Stmt Range) → List Range
  | [] => []
  | s :: ss => s.holes ++ Stmt.holesAll ss

end

/-- The ranges of the placeholders in an item. -/
def Item.holes : Item Range → List Range
  | .function _ _ _ _ body => Stmt.holesAll body
  | .procedure _ _ _ body => Stmt.holesAll body
  | .statement stmt => stmt.holes

theorem Stmt.holesAll_eq (ss : List (Stmt Range)) : Stmt.holesAll ss = ss.flatMap Stmt.holes := by
  induction ss with
  | nil => rfl
  | cons s ss ih => rw [Stmt.holesAll, List.flatMap_cons, ih]

mutual

theorem Expr.Whole.holes_eq {e : Expr Range} (h : e.Whole) : e.holes = [] := by
  cases e with
  | identifier | literal => rfl
  | binary _ _ left right =>
      rw [Expr.holes, Expr.Whole.holes_eq h.1, Expr.Whole.holes_eq h.2, List.append_nil]
  | call _ _ args => exact Expr.AllWhole.holesAll_eq h
  | error _ => exact absurd h (by simp [Expr.Whole])

theorem Expr.AllWhole.holesAll_eq {es : List (Expr Range)} (h : Expr.AllWhole es) :
    Expr.holesAll es = [] := by
  cases es with
  | nil => rfl
  | cons e es =>
      rw [Expr.holesAll, Expr.Whole.holes_eq h.1, Expr.AllWhole.holesAll_eq h.2, List.append_nil]

end

/-- For every placeholder there is an error with its range. -/
def Covered (holes : List Range) (es : List SyntaxError) : Prop := ∀ r ∈ holes, ∃ e ∈ es, e.range = r

theorem covered_nil (es : List SyntaxError) : Covered [] es := by simp [Covered]

theorem covered_append {holes holes' : List Range} {es : List SyntaxError} :
    Covered (holes ++ holes') es ↔ Covered holes es ∧ Covered holes' es := List.forall_mem_append

theorem Covered.mono {holes : List Range} {es fs : List SyntaxError} (h : Covered holes es)
    (hsub : es ⊆ fs) : Covered holes fs := by
  intro r hr
  obtain ⟨e, he, hre⟩ := h r hr
  exact ⟨e, hsub he, hre⟩

theorem Expr.Whole.covered {e : Expr Range} (h : e.Whole) (es : List SyntaxError) :
    Covered e.holes es := by
  rw [h.holes_eq]
  exact covered_nil es

/-! ## Rounds -/

/-- What a round reads is added with what it records. -/
theorem Rule.logs_rounds {α : Type} {holes : α → List Range} {round : Rule (Option α)}
    (hround : ∀ s, round.Logs s fun o es => Covered (o.toList.flatMap holes) es)
    (stop : Cursor → Bool) (s : Cursor) :
    (rounds stop round).Logs s fun as es => Covered (as.flatMap holes) es := by
  suffices h : s.Reports (runRounds stop round s).recorded (runRounds stop round s).rest ∧
      Covered ((runRounds stop round s).value.flatMap holes) (runRounds stop round s).recorded from
    ⟨h.1, h.2⟩
  fun_induction runRounds stop round s with
  | case1 s start _ => exact ⟨.none s.reaches_skipSeparators, covered_nil _⟩
  | case2 s start _ r t ih =>
      have hstart := hround start
      refine ⟨.behind s.reaches_skipSeparators ?_, ?_⟩
      · exact hstart.reports.append (ih.1.behind (Cursor.reaches_ensureProgress start r.rest))
      · rw [List.flatMap_append, covered_append]
        exact ⟨hstart.post.mono (List.subset_append_left _ _),
          ih.2.mono (List.subset_append_right _ _)⟩

/-- The error of a failure is recorded behind the errors that were recorded before it. -/
theorem Attempt.logs_recovering {α : Type} {holes : α → List Range} {p : Attempt α} {s : Cursor}
    (hp : Logs p s fun a es => Covered (holes a) es) :
    (recovering p).Logs s fun o es => Covered (o.toList.flatMap holes) es := by
  have hrun := run_recovering p s
  cases hv : (Rule.run p.run s).value with
  | ok a =>
      rw [hv] at hrun
      refine ⟨?_, ?_⟩
      · rw [hrun]
        exact hp.reports_ok hv
      · rw [hrun]
        simpa using hp.post a hv
  | error e =>
      rw [hv] at hrun
      refine ⟨?_, ?_⟩
      · rw [hrun]
        exact (hp.reports_error hv).skip (Cursor.reaches_synchronize _)
      · rw [hrun]
        exact covered_nil _

/-! ## Statements -/

/-- A placeholder is put where the error was recorded. -/
theorem Expr.readOrError_logs (room : Nat) (s : Cursor) :
    (readOrError room).Logs s fun e es => Covered e.holes es := by
  have hread := orderly_read room s
  cases hv : (Rule.run (read room).run s).value with
  | ok e =>
      have hrun : (readOrError room).run s = ⟨e, (Rule.run (read room).run s).recorded,
          (Rule.run (read room).run s).rest⟩ := by
        unfold readOrError
        rw [Rule.run_bind, hv]
        simp
      have hwhole : e.Whole := (read_spans room s e hv).1
      refine ⟨?_, ?_⟩
      · rw [hrun]
        exact hread.reports_ok hv
      · rw [hrun]
        exact hwhole.covered _
  | error e =>
      have hrun : (readOrError room).run s = ⟨.error e.range,
          (Rule.run (read room).run s).recorded ++ [e], (Rule.run (read room).run s).rest⟩ := by
        unfold readOrError
        rw [Rule.run_bind, hv]
        simp
      refine ⟨?_, ?_⟩
      · rw [hrun]
        exact hread.reports_error hv
      · rw [hrun]
        intro r hr
        exact ⟨e, by simp, (List.mem_singleton.1 hr).symm⟩

namespace Stmt

variable {room : Nat} {s : Cursor}

/-- For every placeholder of the statement an error is recorded. -/
def Accounted (stmt : Stmt Range) (es : List SyntaxError) : Prop := Covered stmt.holes es

/-- For every placeholder of the block an error is recorded. -/
def AllAccounted (body : List (Stmt Range)) (es : List SyntaxError) : Prop :=
  Covered (body.flatMap holes) es

theorem readDefine_logs : readDefine.Logs s Accounted := by
  refine Rule.orderly_advance.logs_bind fun start _ _ => ?_
  refine (Rule.orderly_declaredList _).logs_bind fun vars _ _ => ?_
  exact (Rule.orderly_ask _).logs_bind fun range _ _ => Rule.logs_pure (covered_nil _)

theorem readAssign_logs : (readAssign room).Logs s Accounted := by
  refine Rule.orderly_advance.logs_bind fun start _ _ => ?_
  refine (Rule.orderly_name _).logs_bind fun target _ _ => ?_
  refine (Rule.orderly_expect _ _).logs_bind fun _ _ _ => ?_
  refine (Expr.readOrError_logs room _).bind fun value es _ hvalue => ?_
  refine (Rule.orderly_ask _).logs_bind fun range _ _ => Rule.logs_pure ?_
  exact hvalue.mono fun e he => by simp [he]

theorem readReturn_logs : (readReturn room).Logs s Accounted := by
  refine Rule.orderly_advance.logs_bind fun start _ _ => ?_
  refine (Rule.orderly_ask _).logs_bind fun stops _ _ => ?_
  split
  · exact (Rule.orderly_ask _).logs_bind fun range _ _ => Rule.logs_pure (covered_nil _)
  · refine (Expr.readOrError_logs room _).bind fun value es _ hvalue => ?_
    refine (Rule.orderly_ask _).logs_bind fun range _ _ => Rule.logs_pure ?_
    exact hvalue.mono fun e he => by simp [he]

theorem readSql_logs (kind : SqlKind) : (readSql kind).Logs s Accounted := by
  refine Rule.orderly_advance.logs_bind fun start _ _ => ?_
  refine (Rule.orderly_move _ _).logs_bind fun _ _ _ => ?_
  exact (Rule.orderly_ask _).logs_bind fun range _ _ => Rule.logs_pure (covered_nil _)

/-- Arguments are read whole, or not at all. -/
theorem readCall_logs : Attempt.Logs (readCall room) s Accounted := by
  suffices h : Attempt.Logs (readCall room) s fun stmt _ => stmt.holes = [] by
    refine h.mono fun stmt es hstmt => ?_
    rw [Accounted, hstmt]
    exact covered_nil es
  refine (Attempt.orderly_lift Rule.orderly_advance).logs_bind fun start _ _ => ?_
  refine (Attempt.orderly_lift (Rule.orderly_name _)).logs_bind fun name _ _ => ?_
  refine (Attempt.orderly_lift (Rule.orderly_accept _)).logs_bind fun called _ t => ?_
  have hclose (args : List (Expr Range)) (_ : List SyntaxError) (u : Cursor)
      (hargs : Expr.AllWhole args) :
      Attempt.Logs (do return .call (← Rule.upToHere start) name args : Attempt (Stmt Range)) u
        fun stmt _ => stmt.holes = [] :=
    (Attempt.orderly_lift (Rule.orderly_ask _)).logs_bind fun _ _ _ => Attempt.logs_pure hargs.holesAll_eq
  cases called with
  | false => exact Attempt.Logs.bind (Attempt.logs_pure trivial) hclose
  | true =>
      have hargs : Attempt.Logs (Expr.arguments room) t fun args _ => Expr.AllWhole args :=
        (Expr.orderly_argumentsBy (Expr.orderly_read room)).logs
          (Expr.argumentsBy_spans (Expr.read_spans room) t) fun _ _ _ h => Expr.allWhole_iff.2 h.1
      exact hargs.bind hclose

theorem readExpression_logs : Attempt.Logs (readExpression room) s Accounted := by
  refine Attempt.Logs.bind ((Expr.orderly_read room).logs (Expr.read_spans room s)
    fun e _ _ he => he.1) fun e _ _ he => ?_
  exact Attempt.logs_pure (he.covered _)

section

variable {block : Rule (List (Stmt Range))} (hblock : ∀ s, block.Logs s AllAccounted)

include hblock

theorem readConditional_logs : (readConditional room block).Logs s Accounted := by
  refine Rule.orderly_advance.logs_bind fun start before _ => ?_
  refine (Expr.readOrError_logs room _).bind fun condition es _ hcondition => ?_
  refine (Rule.orderly_expect _ _).logs_bind fun _ header _ => ?_
  refine (hblock _).bind fun thenBlock fs _ hthen => ?_
  refine (Rule.orderly_accept _).logs_bind fun divided middle t => ?_
  have hclose (elseBlock : List (Stmt Range)) (gs : List SyntaxError) (u : Cursor)
      (helse : AllAccounted elseBlock gs) : Rule.Logs (do
        Rule.compoundEnd .conditional
        return Stmt.conditional (← Rule.upToHere start) condition thenBlock elseBlock) u
        fun stmt hs => Accounted stmt (before ++ (es ++ (header ++ (fs ++ (middle ++ (gs ++ hs)))))) := by
    refine (Rule.orderly_compoundEnd _).logs_bind fun _ _ _ => ?_
    refine (Rule.orderly_ask _).logs_bind fun range _ _ => Rule.logs_pure ?_
    rw [Accounted, holes, holesAll_eq, holesAll_eq, covered_append, covered_append]
    exact ⟨hcondition.mono fun e he => by simp [he], hthen.mono fun e he => by simp [he],
      helse.mono fun e he => by simp [he]⟩
  cases divided with
  | true => exact (hblock t).bind hclose
  | false => exact Rule.Logs.bind (Rule.logs_pure (covered_nil _)) hclose

theorem readWhile_logs : (readWhile room block).Logs s Accounted := by
  refine Rule.orderly_advance.logs_bind fun start _ _ => ?_
  refine (Expr.readOrError_logs room _).bind fun condition es _ hcondition => ?_
  refine (hblock _).bind fun body fs _ hbody => ?_
  refine (Rule.orderly_compoundEnd _).logs_bind fun _ _ _ => ?_
  refine (Rule.orderly_ask _).logs_bind fun range _ _ => Rule.logs_pure ?_
  rw [Accounted, holes, holesAll_eq, covered_append]
  exact ⟨hcondition.mono fun e he => by simp [he], hbody.mono fun e he => by simp [he]⟩

theorem readFor_logs : (readFor block).Logs s Accounted := by
  refine Rule.orderly_advance.logs_bind fun start _ _ => ?_
  refine (Rule.orderly_move _ _).logs_bind fun _ _ _ => ?_
  refine (hblock _).bind fun body es _ hbody => ?_
  refine (Rule.orderly_compoundEnd _).logs_bind fun _ _ _ => ?_
  refine (Rule.orderly_ask _).logs_bind fun range _ _ => Rule.logs_pure ?_
  rw [Accounted, holes, holesAll_eq]
  exact hbody.mono fun e he => by simp [he]

theorem read_logs : Attempt.Logs (read room block) s Accounted := by
  refine Attempt.logs_ask_bind ?_
  split
  · exact Attempt.logs_lift readDefine_logs
  · exact Attempt.logs_lift readAssign_logs
  · exact Attempt.logs_lift (readConditional_logs hblock)
  · exact Attempt.logs_lift (readWhile_logs hblock)
  · exact Attempt.logs_lift (readFor_logs hblock)
  · exact readCall_logs
  · exact Attempt.logs_lift readReturn_logs
  · exact Attempt.logs_lift (readSql_logs _)
  · exact Attempt.logs_lift (readSql_logs _)
  · exact Attempt.logs_lift (readSql_logs _)
  · exact Attempt.logs_lift (readSql_logs _)
  · exact readExpression_logs

end

theorem readBlock_logs (room : Nat) (s : Cursor) : (readBlock room).Logs s AllAccounted := by
  induction room generalizing s with
  | zero =>
      refine (Rule.orderly_complain _).logs_bind fun _ _ _ => ?_
      exact (Rule.orderly_move _ _).logs_bind fun _ _ _ => Rule.logs_pure (covered_nil _)
  | succ room ih =>
      exact Rule.logs_rounds (fun s => Attempt.logs_recovering (read_logs ih)) stopsBlock s

end Stmt

/-! ## Items and programs -/

namespace Item

variable {room : Nat} {s : Cursor}

/-- For every placeholder of the item an error is recorded. -/
def Accounted (item : Item Range) (es : List SyntaxError) : Prop := Covered item.holes es

theorem readFunction_logs : (readFunction room).Logs s Accounted := by
  refine Rule.orderly_advance.logs_bind fun start _ _ => ?_
  refine (Rule.orderly_name _).logs_bind fun name _ _ => ?_
  refine (Rule.orderly_parameters _).logs_bind fun params _ _ => ?_
  refine Rule.orderly_returning.logs_bind fun returns _ _ => ?_
  refine (Stmt.readBlock_logs room _).bind fun body es _ hbody => ?_
  refine (Rule.orderly_routineEnd _).logs_bind fun _ _ _ => ?_
  refine (Rule.orderly_ask _).logs_bind fun range _ _ => Rule.logs_pure ?_
  rw [Accounted, holes, Stmt.holesAll_eq]
  exact hbody.mono fun e he => by simp [he]

theorem readProcedure_logs : (readProcedure room).Logs s Accounted := by
  refine Rule.orderly_advance.logs_bind fun start _ _ => ?_
  refine (Rule.orderly_name _).logs_bind fun name _ _ => ?_
  refine (Rule.orderly_parameters _).logs_bind fun params _ _ => ?_
  refine (Stmt.readBlock_logs room _).bind fun body es _ hbody => ?_
  refine (Rule.orderly_routineEnd _).logs_bind fun _ _ _ => ?_
  refine (Rule.orderly_ask _).logs_bind fun range _ _ => Rule.logs_pure ?_
  rw [Accounted, holes, Stmt.holesAll_eq]
  exact hbody.mono fun e he => by simp [he]

theorem read_logs : Attempt.Logs (read room) s Accounted := by
  refine Attempt.logs_ask_bind ?_
  split
  · exact Attempt.logs_lift readFunction_logs
  · exact Attempt.logs_lift readProcedure_logs
  · refine Attempt.logs_ask_bind ?_
    split
    · exact Attempt.logs_fail _
    · refine (Stmt.read_logs (Stmt.readBlock_logs room)).bind fun stmt es _ hstmt => ?_
      exact Attempt.logs_pure (hstmt.mono fun e he => by simp [he])

theorem readProgram_logs (s : Cursor) :
    readProgram.Logs s fun items es => Covered (items.flatMap holes) es :=
  Rule.logs_rounds (fun _ => Attempt.logs_recovering read_logs) _ s

end Item

/-! ## Texts -/

theorem Location.pairwise_place (l : Location) (xs : List Lexeme) :
    (l.place xs).Pairwise (·.start ≤ ·.start) := by
  refine (inTurn_place l xs).imp_of_mem ?_
  intro t u ht _ hle
  exact Position.le_trans (le_of_mem_place ht).2 hle

theorem Token.start_errorRange {t : Token} (h : t.start ≤ t.stop) : t.errorRange.start = t.start := by
  unfold errorRange
  split
  · have hle : t.start ≤ ⟨t.start.line, t.start.character + 1⟩ := by
      rw [Position.le_def]
      simp
    rw [Range.between_of_le hle]
  · rw [range, Range.between_of_le h]

theorem Cursor.peek_mem_tokens (s : Cursor) : s.peek ∈ s.tokens :=
  List.mem_of_getElem? s.getElem_current

/-- Where tokens come in the order of the text, so do those at two cursors. -/
theorem Cursor.Reaches.start_le {u v : Cursor} (h : u.Reaches v)
    (hu : u.tokens.Pairwise (·.start ≤ ·.start)) : u.peek.start ≤ v.peek.start := by
  obtain ⟨hlt, hpeek⟩ := List.getElem?_eq_some_iff.1 u.getElem_current
  obtain ⟨hlt', hpeek'⟩ := List.getElem?_eq_some_iff.1 (h.tokens_eq ▸ v.getElem_current)
  rcases Nat.lt_or_eq_of_le h.current_le with hless | heq
  · rw [← hpeek, ← hpeek']
    exact List.pairwise_iff_getElem.1 hu _ _ hlt hlt' hless
  · simp only [← heq, hpeek] at hpeek'
    rw [hpeek']
    exact Position.le_refl _

/-- The errors of a text complain about its tokens, one after the other: every error has the kind and the
    range of the token at some index, and the indices never decrease. So the ranges start one behind the
    other, too. Every placeholder in the tree stands for one of the errors and has its range. -/
theorem parse_errors_in_order (text : String) :
    (∃ indices : List Nat,
      List.Forall₂ (fun i e => ∃ x, (tokenize text)[i]? = some x ∧ e.found = x.kind ∧
        e.range = x.errorRange) indices (parse text).errors ∧ indices.Pairwise (· ≤ ·)) ∧
    (parse text).errors.Pairwise (fun e e' => e.range.start ≤ e'.range.start) ∧
    ∀ item ∈ (parse text).items, ∀ r ∈ item.holes, ∃ e ∈ (parse text).errors, e.range = r := by
  obtain ⟨hreports, hcovered⟩ := Item.readProgram_logs (Cursor.ofText text)
  have htokens := Cursor.tokens_ofText text
  refine ⟨?_, ?_, ?_⟩
  · obtain ⟨indices, herrors, horder, -⟩ := hreports.exists_indices
    rw [htokens] at herrors
    exact ⟨indices, herrors, horder⟩
  · refine hreports.pairwise fun u v hu hv c d => ?_
    have hstart {w : Cursor} (hw : (Cursor.ofText text).Reaches w) :
        w.peek.errorRange.start = w.peek.start := by
      have hmem := w.peek_mem_tokens
      rw [hw.tokens_eq, htokens] at hmem
      exact Token.start_errorRange (Location.le_of_mem_place hmem).2
    show u.peek.errorRange.start ≤ v.peek.errorRange.start
    rw [hstart hu, hstart (hu.trans hv)]
    refine hv.start_le ?_
    rw [hu.tokens_eq, htokens]
    exact Location.pairwise_place _ _
  · intro item hitem r hr
    exact hcovered r (List.mem_flatMap.2 ⟨item, hitem, hr⟩)

end FourthGen
