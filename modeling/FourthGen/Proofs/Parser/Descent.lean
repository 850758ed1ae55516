import FourthGen.Proofs.Parser.Agreement

set_option autoImplicit false

/-! # Precedence by descent

Expressions are read by one loop that compares how tightly operators bind. The grammar of the language
says the same by levels, one rule for each:

    disjunction := conjunction {OR conjunction}
    conjunction := equality {AND equality}
    equality    := comparison {(== | = | !=) comparison}
    comparison  := operand {(< | > | <= | >=) operand}

where every rule folds what it reads to the left, and an operand is a literal, a name, a call or an
expression in parentheses. Here is this descent, without a limit on nesting. Wherever the loop does not
hit its limit, the two read alike: the same tree or the same failure, the same errors recorded on the
way, and the same cursor (`Descent.read_eq_expression`). -/

namespace FourthGen

namespace Descent

/-! ## The levels of the grammar -/

/-- The levels of operators, the loosest first. -/
inductive Level where
  | disjunction | conjunction | equality | comparison
  deriving DecidableEq, Repr

/-- The operator of the level that a token stands for. -/
def Level.operator? : Level → TokenKind → Option BinaryOp
  | disjunction, .keyword .OR => some .or
  | conjunction, .keyword .AND => some .and
  | equality, .symbol .equal => some .eq
  | equality, .symbol .assign => some .eq
  | equality, .symbol .notEqual => some .ne
  | comparison, .symbol .lessThan => some .lt
  | comparison, .symbol .greaterThan => some .gt
  | comparison, .symbol .lessEqual => some .le
  | comparison, .symbol .greaterEqual => some .ge
  | _, _ => none

/-- The operator of the level that stands at the cursor. -/
def operatorAt? (level : Level) (s : Cursor) : Option BinaryOp :=
  s.ahead.head?.bind fun x => level.operator? x.kind

theorem atEnd_of_operatorAt? {level : Level} {s : Cursor} {op : BinaryOp}
    (h : operatorAt? level s = some op) : s.atEnd = false := by
  unfold operatorAt? at h
  unfold Cursor.atEnd
  cases hs : s.ahead with
  | nil => simp [hs] at h
  | cons x rest => rfl

/-- The reading of operators of the level, each with its right operand, behind the operand `left`. -/
def runFold (level : Level) (operand : Attempt (Expr Range)) (left : Expr Range) (s : Cursor) :
    Reading (Except SyntaxError (Expr Range)) :=
  match _h : operatorAt? level s with
  | none => ⟨.ok left, [], s⟩
  | some op =>
    let r := Rule.run operand.run s.advance
    match r.value with
    | .error e => ⟨.error e, r.recorded, r.rest⟩
    | .ok right =>
      let t := runFold level operand (.binary (left.range.cover right.range) op left right) r.rest
      ⟨t.value, r.recorded ++ t.recorded, t.rest⟩
termination_by s.ahead.length
decreasing_by
  exact Nat.lt_of_le_of_lt (Rule.reaches operand.run s.advance).length_le
    (Cursor.length_advance_lt (atEnd_of_operatorAt? _h))

theorem reaches_runFold (level : Level) (operand : Attempt (Expr Range)) (left : Expr Range)
    (s : Cursor) : s.Reaches (runFold level operand left s).rest := by
  fun_induction runFold level operand left s with
  | case1 left s h => exact .refl s
  | case2 left s op h r e he => exact s.reaches_advance.trans (Rule.reaches operand.run s.advance)
  | case3 left s op h r right hr t ih =>
    exact s.reaches_advance.trans ((Rule.reaches operand.run s.advance).trans ih)

/-- Operators of the level, each with its right operand, behind the operand `left`. -/
def fold (level : Level) (operand : Attempt (Expr Range)) (left : Expr Range) :
    Attempt (Expr Range) :=
  ExceptT.mk ⟨runFold level operand left, reaches_runFold level operand left⟩

/-- `operand {operator operand}`, folded to the left. -/
def folded (level : Level) (operand : Attempt (Expr Range)) : Attempt (Expr Range) := do
  fold level operand (← operand)

/-- `operand {(< | > | <= | >=) operand}`, where expressions inside parentheses are read by `inner`. -/
def comparison (inner : Attempt (Expr Range)) : Attempt (Expr Range) :=
  folded .comparison (Expr.primaryBy inner)

/-- `comparison {(== | = | !=) comparison}` -/
def equality (inner : Attempt (Expr Range)) : Attempt (Expr Range) :=
  folded .equality (comparison inner)

/-- `equality {AND equality}` -/
def conjunction (inner : Attempt (Expr Range)) : Attempt (Expr Range) :=
  folded .conjunction (equality inner)

/-- `conjunction {OR conjunction}` -/
def disjunction (inner : Attempt (Expr Range)) : Attempt (Expr Range) :=
  folded .disjunction (conjunction inner)

/-- Expressions with less than `depth` parentheses around each other. -/
def nested : (depth : Nat) → Attempt (Expr Range)
  | 0 => Attempt.fail .missingExpression
  | depth + 1 => disjunction (nested depth)

theorem reaches_nested (s : Cursor) :
    s.Reaches (Rule.run (nested (s.ahead.length + 1)).run s).rest := Rule.reaches _ s

/-- An expression: a disjunction inside the parentheses of which expressions are read. A parenthesis is
    a token, so that no more of them can be around each other than there are tokens ahead. -/
def expression : Attempt (Expr Range) :=
  ExceptT.mk ⟨fun s => Rule.run (nested (s.ahead.length + 1)).run s, reaches_nested⟩

end Descent

/-! ## Rules that read alike -/

theorem Cursor.Reaches.eof_eq {s t : Cursor} (h : s.Reaches t) : t.eof = s.eof := by
  obtain ⟨-, -, -, heof⟩ := h
  exact heof

namespace Attempt

variable {α β : Type} {skip : SyntaxError → Prop} {s : Cursor}

/-- A sequence fails where its first part does, and else goes on from where that stopped. -/
theorem run_bind (p : Attempt α) (f : α → Attempt β) (s : Cursor) :
    Rule.run (p >>= f).run s =
      match (Rule.run p.run s).value with
      | .ok a =>
        ⟨(Rule.run (f a).run (Rule.run p.run s).rest).value,
          (Rule.run p.run s).recorded ++ (Rule.run (f a).run (Rule.run p.run s).rest).recorded,
          (Rule.run (f a).run (Rule.run p.run s).rest).rest⟩
      | .error e => ⟨.error e, (Rule.run p.run s).recorded, (Rule.run p.run s).rest⟩ := by
  rw [ExceptT.run_bind, Rule.run_bind]
  cases (Rule.run p.run s).value with
  | ok a => rfl
  | error e => simp

theorem run_bind_of_eq {p p' : Attempt α} {t : Cursor} (h : Rule.run p.run s = Rule.run p'.run t)
    (f : α → Attempt β) : Rule.run (p >>= f).run s = Rule.run (p' >>= f).run t := by
  rw [run_bind, run_bind, h]

theorem run_bind_congr {p : Attempt α} {f g : α → Attempt β}
    (h : ∀ a, (Rule.run p.run s).value = .ok a →
      Rule.run (f a).run (Rule.run p.run s).rest = Rule.run (g a).run (Rule.run p.run s).rest) :
    Rule.run (p >>= f).run s = Rule.run (p >>= g).run s := by
  rw [run_bind, run_bind]
  cases hv : (Rule.run p.run s).value with
  | error e => rfl
  | ok a => simp only [h a hv]

/-- At the cursor, the rules read the same, unless the first fails with an error to be left out. -/
def SameUnless (skip : SyntaxError → Prop) (s : Cursor) (p q : Attempt α) : Prop :=
  (∃ e, (Rule.run p.run s).value = .error e ∧ skip e) ∨ Rule.run p.run s = Rule.run q.run s

theorem SameUnless.refl (p : Attempt α) : SameUnless skip s p p := .inr rfl

theorem SameUnless.of_run_eq {t : Cursor} {p q p' q' : Attempt α} (h : SameUnless skip t p' q')
    (hp : Rule.run p.run s = Rule.run p'.run t) (hq : Rule.run q.run s = Rule.run q'.run t) :
    SameUnless skip s p q := by
  unfold SameUnless
  rw [hp, hq]
  exact h

theorem SameUnless.bind {p q : Attempt α} {f g : α → Attempt β} (hp : SameUnless skip s p q)
    (hf : ∀ a, SameUnless skip (Rule.run p.run s).rest (f a) (g a)) :
    SameUnless skip s (p >>= f) (q >>= g) := by
  unfold SameUnless
  rw [run_bind, run_bind]
  obtain ⟨e, he, hskip⟩ | heq := hp
  · rw [he]
    exact .inl ⟨e, rfl, hskip⟩
  · rw [← heq]
    cases (Rule.run p.run s).value with
    | error e => exact .inr rfl
    | ok a =>
        obtain ⟨e, he, hskip⟩ | hrest := hf a
        · exact .inl ⟨e, he, hskip⟩
        · exact .inr (by simp only [hrest])

theorem SameUnless.ask {question : Cursor → α} {f g : α → Attempt β}
    (h : SameUnless skip s (f (question s)) (g (question s))) :
    SameUnless skip s ((liftM (Rule.ask question) : Attempt α) >>= f)
      ((liftM (Rule.ask question) : Attempt α) >>= g) := h

/-- A rule that both sequences start with. -/
theorem SameUnless.after {p : Rule α} {f g : α → Attempt β}
    (h : ∀ a, SameUnless skip (p.run s).rest (f a) (g a)) :
    SameUnless skip s ((liftM p : Attempt α) >>= f) ((liftM p : Attempt α) >>= g) := by
  refine SameUnless.bind (.refl _) ?_
  have hrest : (Rule.run (liftM p : Attempt α).run s).rest = (p.run s).rest := by
    show (Rule.run (Except.ok <$> p) s).rest = _
    rw [Rule.run_map]
  rw [hrest]
  exact h

/-- From the cursor on, the rules read the same, unless the first fails with an error to be left out. -/
def SameFrom (skip : SyntaxError → Prop) (s : Cursor) (p q : Attempt α) : Prop :=
  ∀ t, s.Reaches t → SameUnless skip t p q

theorem SameFrom.mono {t : Cursor} {p q : Attempt α} (h : SameFrom skip s p q) (ht : s.Reaches t) :
    SameFrom skip t p q := fun u hu => h u (ht.trans hu)

theorem SameFrom.here {p q : Attempt α} (h : SameFrom skip s p q) : SameUnless skip s p q :=
  h s (.refl s)

theorem SameFrom.commaList {p q : Attempt α} (h : SameFrom skip s p q) :
    SameUnless skip s (commaList p) (commaList q) := by
  obtain ⟨n, hn⟩ : ∃ n, s.ahead.length = n := ⟨_, rfl⟩
  induction n using Nat.strongRecOn generalizing s with
  | ind n ih =>
    unfold SameUnless
    rw [run_commaList p s, run_commaList q s]
    obtain ⟨e, he, hskip⟩ | heq := h.here
    · rw [he]
      exact .inl ⟨e, rfl, hskip⟩
    · rw [← heq]
      have hreach := Rule.reaches p.run s
      cases (Rule.run p.run s).value with
      | error e => exact .inr rfl
      | ok a =>
          simp only
          generalize (Rule.run p.run s).rest = t at hreach
          split
          · next hc =>
            have hlt := Cursor.length_advance_lt (Cursor.atEnd_eq_false_of_check hc)
            have hle := hreach.length_le
            obtain ⟨e, he, hskip⟩ | hrest :=
              ih _ (by omega) (h.mono (hreach.trans t.reaches_advance)) rfl
            · exact .inl ⟨e, by rw [he]; rfl, hskip⟩
            · exact .inr (by rw [hrest])
          · exact .inr rfl

end Attempt

namespace Expr

open Attempt (SameUnless SameFrom)

variable {skip : SyntaxError → Prop} {s : Cursor} {inner inner' : Attempt (Expr Range)}

theorem same_argumentsBy (h : SameFrom skip s inner inner') :
    SameUnless skip s (argumentsBy inner) (argumentsBy inner') := by
  unfold argumentsBy
  refine .ask ?_
  split
  · exact .refl _
  · exact h.commaList.bind fun _ => .refl _

/-- Operands are read the same if expressions behind their first token are. -/
theorem same_primaryBy (he : s.eof.kind = .eof)
    (h : ∀ t, s.Reaches t → t.ahead.length < s.ahead.length → SameUnless skip t inner inner') :
    SameUnless skip s (primaryBy inner) (primaryBy inner') := by
  have hnext (hk : s.kind ≠ .eof) : SameFrom skip s.advance inner inner' := by
    intro t ht
    obtain ⟨x, -, hx⟩ := Cursor.exists_takes_of_kind he hk
    exact h t (s.reaches_advance.trans ht)
      (Nat.lt_of_le_of_lt ht.length_le (Cursor.length_advance_lt hx.atEnd_eq))
  unfold primaryBy
  refine .ask ?_
  split
  · exact .refl _
  · exact .refl _
  · next hk =>
    have hfrom := hnext (by rw [Cursor.kind, hk]; decide)
    refine .after fun _ => .after fun called => ?_
    split
    · refine (same_argumentsBy (hfrom.mono (Rule.reaches _ _))).bind fun _ => .refl _
    · exact .refl _
  · next hk =>
    have hfrom := hnext (by rw [Cursor.kind, hk]; decide)
    exact .after fun _ => hfrom.here.bind fun _ => .refl _
  · exact .refl _

end Expr

namespace Descent

open Attempt (SameUnless SameFrom)

variable {skip : SyntaxError → Prop} {s : Cursor} {level : Level}
  {operand operand' inner inner' : Attempt (Expr Range)} {left : Expr Range}

theorem run_fold_none (h : operatorAt? level s = none) :
    Rule.run (fold level operand left).run s = ⟨.ok left, [], s⟩ := by
  show runFold level operand left s = _
  rw [runFold]
  split
  · rfl
  · next op hop => rw [h] at hop; cases hop

theorem run_fold_some {op : BinaryOp} (h : operatorAt? level s = some op) :
    Rule.run (fold level operand left).run s =
      Rule.run (do
        let right ← operand
        fold level operand (.binary (left.range.cover right.range) op left right) :
          Attempt (Expr Range)).run s.advance := by
  show runFold level operand left s = _
  rw [runFold, Attempt.run_bind]
  split
  · next hop => rw [h] at hop; cases hop
  · next op' hop =>
    rw [h] at hop
    cases hop
    simp only
    cases (Rule.run operand.run s.advance).value with
    | error e => rfl
    | ok right => rfl

/-- Operators are read the same if operands are. -/
theorem same_fold (h : SameFrom skip s operand operand') (left : Expr Range) :
    SameUnless skip s (fold level operand left) (fold level operand' left) := by
  obtain ⟨n, hn⟩ : ∃ n, s.ahead.length = n := ⟨_, rfl⟩
  induction n using Nat.strongRecOn generalizing s left with
  | ind n ih =>
    cases hop : operatorAt? level s with
    | none => exact .inr (by rw [run_fold_none hop, run_fold_none hop])
    | some op =>
        have hreach := Rule.reaches operand.run s.advance
        have hlt := Cursor.length_advance_lt (atEnd_of_operatorAt? hop)
        have hle := hreach.length_le
        refine SameUnless.of_run_eq ?_ (run_fold_some hop) (run_fold_some hop)
        refine (h _ s.reaches_advance).bind fun right => ?_
        exact ih _ (by omega) (h.mono (s.reaches_advance.trans hreach)) _ rfl

theorem same_folded (h : SameFrom skip s operand operand') :
    SameFrom skip s (folded level operand) (folded level operand') := by
  intro t ht
  exact (h t ht).bind fun left => same_fold (h.mono (ht.trans (Rule.reaches _ _))) left

/-- Expressions are read the same if those inside their parentheses are. -/
theorem same_disjunction (he : s.eof.kind = .eof)
    (h : ∀ t, s.Reaches t → t.ahead.length < s.ahead.length → SameUnless skip t inner inner') :
    SameUnless skip s (disjunction inner) (disjunction inner') := by
  have hprimary : SameFrom skip s (Expr.primaryBy inner) (Expr.primaryBy inner') := by
    intro t ht
    refine Expr.same_primaryBy (by rw [ht.eof_eq, he]) fun u hu hlt => ?_
    exact h u (ht.trans hu) (Nat.lt_of_lt_of_le hlt ht.length_le)
  exact (same_folded (same_folded (same_folded (same_folded hprimary)))).here

/-! ## The knot -/

/-- With more depth than there are tokens, the depth does not matter. -/
theorem run_nested_eq (he : s.eof.kind = .eof) {d d' : Nat} (hd : s.ahead.length < d)
    (hd' : s.ahead.length < d') : Rule.run (nested d).run s = Rule.run (nested d').run s := by
  induction d generalizing s d' with
  | zero => exact absurd hd (Nat.not_lt_zero _)
  | succ d ih =>
      cases d' with
      | zero => exact absurd hd' (Nat.not_lt_zero _)
      | succ d' =>
          have hsame : SameUnless (fun _ => False) s (nested (d + 1)) (nested (d' + 1)) := by
            refine same_disjunction he fun t ht hlt => .inr ?_
            exact ih (by rw [ht.eof_eq, he]) (by omega) (by omega)
          obtain ⟨_, _, hskip⟩ | heq := hsame
          · exact hskip.elim
          · exact heq

/-- Expressions are disjunctions inside the parentheses of which there are expressions. -/
theorem run_expression (he : s.eof.kind = .eof) :
    Rule.run expression.run s = Rule.run (disjunction expression).run s := by
  have hsame : SameUnless (fun _ => False) s (nested (s.ahead.length + 1))
      (disjunction expression) := by
    refine same_disjunction he fun t ht hlt => .inr ?_
    exact run_nested_eq (by rw [ht.eof_eq, he]) hlt (Nat.lt_succ_self _)
  obtain ⟨_, _, hskip⟩ | heq := hsame
  · exact hskip.elim
  · exact heq

/-! ## Descent from an operand

A rule of the grammar reads an operand and then climbs back through the levels, from the tightest to the
one of the rule. Seen from an operand that is read already, the levels take their operators as the loop
does: the tightest level that has the operator at the cursor takes it, with an operand of the tighter
levels to its right, and then all levels go on (`run_climb_some`). -/

/-- How tightly the operators of a level bind. -/
def Level.power : Level → Nat
  | disjunction => 20
  | conjunction => 30
  | equality => 40
  | comparison => 50

/-- All levels, the loosest first. -/
def Level.all : List Level := [disjunction, conjunction, equality, comparison]

/-- The levels whose operators bind at least as tightly as `least`, the loosest first. -/
def levelsFrom (least : Nat) : List Level := Level.all.filter (least ≤ ·.power)

/-- The rule of the first of some levels, which the others follow. -/
def rule (inner : Attempt (Expr Range)) : (levels : List Level) → Attempt (Expr Range)
  | [] => Expr.primaryBy inner
  | level :: tighter => folded level (rule inner tighter)

/-- What the levels read behind the operand `left`. -/
def climb (inner : Attempt (Expr Range)) :
    (levels : List Level) → (left : Expr Range) → Attempt (Expr Range)
  | [], left => pure left
  | level :: tighter, left => do fold level (rule inner tighter) (← climb inner tighter left)

theorem rule_eq (inner : Attempt (Expr Range)) (levels : List Level) :
    rule inner levels = Expr.primaryBy inner >>= climb inner levels := by
  induction levels with
  | nil => simp [rule, climb]
  | cons level tighter ih =>
      rw [rule, folded]
      simp only [climb]
      rw [← bind_assoc, ← ih]

theorem Level.operator?_eq (level : Level) (k : TokenKind) :
    level.operator? k = k.binaryOp?.filter (·.power = level.power) := by
  cases k with
  | keyword word => cases level <;> cases word <;> rfl
  | symbol mark => cases level <;> cases mark <;> rfl
  | _ => cases level <;> rfl

theorem operatorAt?_eq (he : s.eof.kind = .eof) (level : Level) :
    operatorAt? level s = s.kind.binaryOp?.filter (·.power = level.power) := by
  rw [← Level.operator?_eq, operatorAt?, Cursor.kind, Cursor.peek]
  cases s.ahead with
  | nil =>
      rw [List.head?_nil, List.headD_nil, he, Level.operator?_eq]
      rfl
  | cons x rest => rfl

/-- Where none of the levels has an operator, they read nothing. -/
theorem run_climb_stop {levels : List Level} (h : ∀ level ∈ levels, operatorAt? level s = none) :
    Rule.run (climb inner levels left).run s = ⟨.ok left, [], s⟩ := by
  induction levels with
  | nil => rfl
  | cons level tighter ih =>
      rw [List.forall_mem_cons] at h
      have hrun : Rule.run (climb inner tighter left).run s =
          Rule.run (pure left : Attempt (Expr Range)).run s := ih h.2
      rw [climb, Attempt.run_bind_of_eq hrun, pure_bind, run_fold_none h.1]

/-- Operators are read until none of the level follows; and what holds behind every operand holds at
    the end. -/
theorem operatorAt?_of_fold {Q : Cursor → Prop} {e : Expr Range}
    (hoperand : ∀ t e, (Rule.run operand.run t).value = .ok e → Q (Rule.run operand.run t).rest)
    (hs : Q s) (h : (runFold level operand left s).value = .ok e) :
    operatorAt? level (runFold level operand left s).rest = none ∧
      Q (runFold level operand left s).rest := by
  fun_induction runFold level operand left s with
  | case1 left s hnone => exact ⟨hnone, hs⟩
  | case2 left s op hop r e' hr => cases h
  | case3 left s op hop r right hr t ih => exact ih (hoperand _ right hr) h

/-- Behind what a rule has read, none of its levels has an operator. -/
theorem operatorAt?_of_rule {levels : List Level} {e : Expr Range}
    (h : (Rule.run (rule inner levels).run s).value = .ok e) :
    ∀ level ∈ levels, operatorAt? level (Rule.run (rule inner levels).run s).rest = none := by
  induction levels generalizing s e with
  | nil => simp
  | cons level tighter ih =>
      rw [rule, folded, Attempt.run_bind] at h ⊢
      cases hv : (Rule.run (rule inner tighter).run s).value with
      | error e' =>
          rw [hv] at h
          cases h
      | ok left =>
          rw [hv] at h
          have hfold := operatorAt?_of_fold (Q := fun t => ∀ l ∈ tighter, operatorAt? l t = none)
            (fun _ _ ht => ih ht) (ih hv) h
          exact List.forall_mem_cons.2 hfold

/-- The operator at the cursor is taken by the tightest level that has it. -/
theorem run_climb_take {looser tighter : List Level} {op : BinaryOp}
    (hop : operatorAt? level s = some op) (htighter : ∀ l ∈ tighter, operatorAt? l s = none) :
    Rule.run (climb inner (looser ++ level :: tighter) left).run s =
      Rule.run (do
        let right ← rule inner tighter
        climb inner (looser ++ level :: tighter)
          (.binary (left.range.cover right.range) op left right) : Attempt (Expr Range)).run
        s.advance := by
  induction looser with
  | nil =>
      have hrun : Rule.run (climb inner tighter left).run s =
          Rule.run (pure left : Attempt (Expr Range)).run s := run_climb_stop htighter
      rw [List.nil_append, climb, Attempt.run_bind_of_eq hrun, pure_bind, run_fold_some hop]
      -- behind the right operand the tighter levels have nothing left to read
      refine Attempt.run_bind_congr fun right hright => ?_
      rw [climb]
      generalize Expr.binary (left.range.cover right.range) op left right = next
      have hstop : Rule.run (climb inner tighter next).run
            (Rule.run (rule inner tighter).run s.advance).rest =
          Rule.run (pure next : Attempt (Expr Range)).run
            (Rule.run (rule inner tighter).run s.advance).rest :=
        run_climb_stop (operatorAt?_of_rule hright)
      rw [Attempt.run_bind_of_eq hstop, pure_bind]
  | cons l looser ih =>
      rw [List.cons_append, climb, Attempt.run_bind_of_eq ih, bind_assoc]
      rfl

/-- The looser levels stand before a level, the tighter ones behind it. -/
theorem Level.exists_split (level : Level) :
    ∃ looser tighter, all = looser ++ level :: tighter ∧ (∀ l ∈ looser, l.power < level.power) ∧
      ∀ l ∈ tighter, level.power < l.power := by
  cases level with
  | disjunction => exact ⟨[], [.conjunction, .equality, .comparison], by decide⟩
  | conjunction => exact ⟨[.disjunction], [.equality, .comparison], by decide⟩
  | equality => exact ⟨[.disjunction, .conjunction], [.comparison], by decide⟩
  | comparison => exact ⟨[.disjunction, .conjunction, .equality], [], by decide⟩

theorem levelsFrom_split {least : Nat} (h : least ≤ level.power) :
    ∃ looser, levelsFrom least = looser ++ level :: levelsFrom (level.power + 1) := by
  obtain ⟨looser, tighter, hall, hlooser, htighter⟩ := level.exists_split
  have hself (n : Nat) (hn : n ≤ level.power + 1) :
      tighter.filter (fun l => decide (n ≤ l.power)) = tighter := by
    rw [List.filter_eq_self]
    intro l hl
    have := htighter l hl
    exact decide_eq_true (by omega)
  have hnone : looser.filter (fun l => decide (level.power + 1 ≤ l.power)) = [] := by
    rw [List.filter_eq_nil_iff]
    intro l hl
    have := hlooser l hl
    simpa using by omega
  refine ⟨looser.filter (least ≤ ·.power), ?_⟩
  rw [levelsFrom, levelsFrom, hall, List.filter_append, List.filter_append, hnone,
    List.filter_cons_of_pos (by simpa using h), List.filter_cons_of_neg (by simp),
    hself least (by omega), hself _ (Nat.le_refl _), List.nil_append]

/-- The level of an operator. -/
theorem exists_level (op : BinaryOp) : ∃ level : Level, level.power = op.power := by
  cases op with
  | or => exact ⟨.disjunction, rfl⟩
  | and => exact ⟨.conjunction, rfl⟩
  | eq | ne => exact ⟨.equality, rfl⟩
  | lt | gt | le | ge => exact ⟨.comparison, rfl⟩

/-- Without an operator for the loop, the levels read nothing. -/
theorem run_climb_none (he : s.eof.kind = .eof) {least : Nat} (h : s.operator? least = none) :
    Rule.run (climb inner (levelsFrom least) left).run s = ⟨.ok left, [], s⟩ := by
  refine run_climb_stop fun level hlevel => ?_
  have hle : least ≤ level.power := by simpa [levelsFrom] using (List.mem_filter.1 hlevel).2
  rw [operatorAt?_eq he, Option.filter_eq_none_iff]
  rw [Cursor.operator?, Option.filter_eq_none_iff] at h
  intro op hop heq
  refine h op hop ?_
  rw [decide_eq_true_eq] at heq ⊢
  omega

/-- With an operator for the loop, the levels read what the loop does. -/
theorem run_climb_some (he : s.eof.kind = .eof) {least : Nat} {op : BinaryOp}
    (h : s.operator? least = some op) :
    Rule.run (climb inner (levelsFrom least) left).run s =
      Rule.run (do
        let right ← rule inner (levelsFrom (op.power + 1))
        climb inner (levelsFrom least) (.binary (left.range.cover right.range) op left right) :
          Attempt (Expr Range)).run s.advance := by
  rw [Cursor.operator?, Option.filter_eq_some_iff, decide_eq_true_eq] at h
  obtain ⟨level, hlevel⟩ := exists_level op
  obtain ⟨looser, hsplit⟩ : ∃ looser,
      levelsFrom least = looser ++ level :: levelsFrom (level.power + 1) :=
    levelsFrom_split (by omega)
  have hop : operatorAt? level s = some op := by
    rw [operatorAt?_eq he, Option.filter_eq_some_iff]
    exact ⟨h.1, decide_eq_true hlevel.symm⟩
  rw [hsplit, ← hlevel]
  refine run_climb_take hop fun l hl => ?_
  have hlt : level.power + 1 ≤ l.power := by simpa [levelsFrom] using (List.mem_filter.1 hl).2
  rw [operatorAt?_eq he, Option.filter_eq_none_iff, h.1]
  rintro _ ⟨⟩ heq
  rw [decide_eq_true_eq] at heq
  omega

/-! ## The loop reads as the descent -/

/-- The errors of readings that hit the limit on nesting. -/
def HitsLimit (e : SyntaxError) : Prop := e.complaint = .nestingTooDeep

theorem same_tooDeep (q : Attempt (Expr Range)) : SameUnless HitsLimit s Attempt.tooDeep q :=
  .inl ⟨_, rfl, rfl⟩

theorem run_operator (least : Nat) (s : Cursor) :
    Rule.run (liftM (Rule.operator? least) : Attempt (Option BinaryOp)).run s =
      ⟨.ok (s.operator? least), [], s⟩ := rfl

theorem run_chain_none {room least : Nat} (h : s.operator? least = none) :
    Rule.run (Expr.chain room least left).run s = ⟨.ok left, [], s⟩ := by
  cases room with
  | zero =>
      rw [Expr.chain, Attempt.run_bind, run_operator, h]
      rfl
  | succ room =>
      rw [Expr.chain, Attempt.run_bind, run_operator, h]
      rfl

theorem run_chain_zero {least : Nat} {op : BinaryOp} (h : s.operator? least = some op) :
    Rule.run (Expr.chain 0 least left).run s =
      Rule.run (Attempt.tooDeep : Attempt (Expr Range)).run s := by
  rw [Expr.chain, Attempt.run_bind, run_operator, h]
  rfl

theorem run_chain_succ {room least : Nat} {op : BinaryOp} (h : s.operator? least = some op) :
    Rule.run (Expr.chain (room + 1) least left).run s =
      Rule.run (do
        let right ← Expr.readBinding (room + 1) (op.power + 1)
        Expr.chain room least (.binary (left.range.cover right.range) op left right) :
          Attempt (Expr Range)).run s.advance := by
  rw [Expr.chain, Attempt.run_bind, run_operator, h, Expr.readBinding, bind_assoc]
  rfl

/-- The loop, with any room, reads as the levels do. -/
theorem same_chain (room : Nat) :
    (∀ (s : Cursor) (least : Nat), s.eof.kind = .eof →
      SameUnless HitsLimit s (Expr.readBinding room least) (rule expression (levelsFrom least))) ∧
    ∀ (s : Cursor) (least : Nat) (left : Expr Range), s.eof.kind = .eof →
      SameUnless HitsLimit s (Expr.chain room least left)
        (climb expression (levelsFrom least) left) := by
  -- every operand, and every operator before one, takes a level
  induction room with
  | zero =>
      refine ⟨fun s least _ => same_tooDeep _, ?_⟩
      intro s least left he
      cases hop : s.operator? least with
      | none => exact .inr (by rw [run_chain_none hop, run_climb_none he hop])
      | some op => exact (same_tooDeep _).of_run_eq (run_chain_zero hop) rfl
  | succ room ih =>
      have hbinding (s : Cursor) (least : Nat) (he : s.eof.kind = .eof) :
          SameUnless HitsLimit s (Expr.readBinding (room + 1) least)
            (rule expression (levelsFrom least)) := by
        rw [Expr.readBinding, rule_eq, Expr.primary_eq]
        refine SameUnless.bind (Expr.same_primaryBy he fun t ht _ => ?_) fun left => ?_
        · have he' : t.eof.kind = .eof := by rw [ht.eof_eq, he]
          exact (ih.1 t 0 he').of_run_eq rfl (run_expression he')
        · exact ih.2 _ least left (by rw [(Rule.reaches _ s).eof_eq, he])
      refine ⟨hbinding, ?_⟩
      intro s least left he
      cases hop : s.operator? least with
      | none => exact .inr (by rw [run_chain_none hop, run_climb_none he hop])
      | some op =>
          have he' : s.advance.eof.kind = .eof := by rw [s.reaches_advance.eof_eq, he]
          refine SameUnless.of_run_eq ?_ (run_chain_succ hop) (run_climb_some he hop)
          refine (hbinding s.advance (op.power + 1) he').bind fun right => ?_
          exact ih.2 _ least _ (by rw [(Rule.reaches _ s.advance).eof_eq, he'])

/-- Expressions are read as the levels of the grammar say, by rules that call each other inside
    parentheses. Wherever the reading does not hit the limit on nesting, the value or failure, the
    errors recorded on the way and the cursor are those of the descent. -/
theorem read_eq_expression :
    (∀ s : Cursor, s.eof.kind = .eof →
      Rule.run expression.run s = Rule.run (disjunction expression).run s) ∧
    ∀ (room : Nat) (s : Cursor), s.eof.kind = .eof →
      (∀ e, (Rule.run (Expr.read room).run s).value = .error e → e.complaint ≠ .nestingTooDeep) →
      Rule.run (Expr.read room).run s = Rule.run expression.run s := by
  refine ⟨fun s he => run_expression he, ?_⟩
  intro room s he hlimit
  obtain ⟨e, hvalue, hskip⟩ | heq := (same_chain room).1 s 0 he
  · exact absurd hskip (hlimit e hvalue)
  · rw [run_expression he]
    exact heq

/-- Operators of all levels, in parentheses and arguments, and an operand that is missing. -/
theorem read_eq_expression_mixed :
    Rule.run (Expr.read maxNesting).run (Cursor.ofText "a = b OR f(x < 1, y) AND (c = d) >= 2") =
        Rule.run expression.run (Cursor.ofText "a = b OR f(x < 1, y) AND (c = d) >= 2") ∧
      Rule.run (Expr.read maxNesting).run (Cursor.ofText "a < (b OR) = c") =
        Rule.run expression.run (Cursor.ofText "a < (b OR) = c") := by
  have hok : (Rule.run (Expr.read maxNesting).run
      (Cursor.ofText "a = b OR f(x < 1, y) AND (c = d) >= 2")).value.isOk = true := by
    decide +kernel
  have hfail : ((Rule.run (Expr.read maxNesting).run (Cursor.ofText "a < (b OR) = c")).value.map
      fun _ => ()).mapError SyntaxError.complaint = .error .missingExpression := by decide +kernel
  constructor
  · refine read_eq_expression.2 _ _ (by decide +kernel) fun e he => ?_
    rw [he] at hok
    cases hok
  · refine read_eq_expression.2 _ _ (by decide +kernel) fun e he => ?_
    rw [he] at hfail
    have hcomplaint : e.complaint = .missingExpression := Except.error.inj hfail
    rw [hcomplaint]
    decide

end Descent

end FourthGen
