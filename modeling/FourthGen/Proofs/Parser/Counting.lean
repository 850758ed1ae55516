import FourthGen.Proofs.Parser.Progress

set_option autoImplicit false

/-! # The parser with a counter

The rules take the room that is left for nesting as an argument, so that there is nothing to restore
when a rule is left. Here are the same rules with one counter instead, which is raised before a nested
construct is read and lowered after it, also where reading fails. They keep a log of every value that
the counter takes and of every round of the loops over statements and items.

Both read alike at every cursor (`Follows`), where the room is what the counter leaves of the limit; the
counter is put back by every rule, and what gets into the log is sound: the counter stays within the
limit, and a round has consumed a token before its loop looks whether it has.

Nothing is left out of the log either. What a counted rule writes to it does not depend on what stands in
it already (`Counted.logged`); with the counter raised it is both values of the counter around what is
written in between (`Follows.logged_within`), and a loop writes one round for each that the loop without
a counter makes, behind what is written in the round (`Follows.logged_rounds`). -/

namespace FourthGen

/-- Tokens that are no longer ahead are consumed. -/
theorem Cursor.Reaches.length_eq {s t : Cursor} (h : s.Reaches t) :
    t.before.length + t.ahead.length = s.before.length + s.ahead.length := by
  obtain ⟨consumed, hahead, hbefore, -⟩ := h
  rw [hahead, hbefore, List.length_append, List.length_append, List.length_reverse]
  omega

theorem Cursor.Reaches.before_length_lt {s t : Cursor} (h : s.Reaches t)
    (hlt : t.ahead.length < s.ahead.length) : s.before.length < t.before.length := by
  have heq := h.length_eq
  omega

/-! ## The rounds of a loop -/

namespace Rule

variable {α : Type}

/-- The rounds of `runRounds`, each with the cursor where it starts and the one where it is done. -/
def roundsOf (stop : Cursor → Bool) (round : Rule (Option α)) (s : Cursor) : List (Cursor × Cursor) :=
  let start := s.skipSeparators
  if start.atEnd || stop start then
    []
  else
    let rest := (round.run start).rest
    (start, rest) :: roundsOf stop round (Cursor.ensureProgress start rest)
termination_by s.ahead.length
decreasing_by
  next h =>
    have hs : s.skipSeparators.atEnd = false := by simp_all [start]
    exact Nat.lt_of_lt_of_le (Cursor.length_ensureProgress_lt (round.reaches _) hs)
      s.reaches_skipSeparators.length_le

/-- Each value of a loop is read in one of its rounds. -/
theorem value_rounds (stop : Cursor → Bool) (round : Rule (Option α)) (s : Cursor) :
    ((rounds stop round).run s).value =
      (roundsOf stop round s).flatMap fun r => (round.run r.1).value.toList := by
  show (runRounds stop round s).value = _
  fun_induction runRounds stop round s with
  | case1 s start hstop =>
      rw [roundsOf]
      simp only
      rw [if_pos hstop, List.flatMap_nil]
  | case2 s start hgo r t ih =>
      rw [roundsOf]
      simp only
      rw [if_neg hgo, List.flatMap_cons, ← ih]

end Rule

/-! ## The counter and its log -/

/-- What happens to the counter, and in the loops. -/
inductive Event where
  /-- The counter is set to `depth`. -/
  | nesting (depth : Nat)
  /-- A round of a loop starts at one cursor and is done at the other, where it may be forced on. -/
  | round (start stop : Cursor)

/-- The counter is within its limit. A round has moved the cursor, and so is not forced on. -/
def Event.Sound : Event → Prop
  | nesting depth => depth ≤ maxNesting
  | round start stop =>
    start.before.length < stop.before.length ∧ Cursor.ensureProgress start stop = stop

/-- The counter, and what has happened up to now. -/
structure Tally where
  depth : Nat
  log : List Event

namespace Tally

/-- The counter set to another value. -/
def setDepth (depth : Nat) (t : Tally) : Tally := ⟨depth, t.log ++ [.nesting depth]⟩

/-- One more round of a loop. -/
def addRound (start stop : Cursor) (t : Tally) : Tally := ⟨t.depth, t.log ++ [.round start stop]⟩

/-- The tally after more has happened. -/
def add (events : List Event) (t : Tally) : Tally := ⟨t.depth, t.log ++ events⟩

@[simp]
theorem depth_add (events : List Event) (t : Tally) : (t.add events).depth = t.depth := rfl

@[simp]
theorem add_nil (t : Tally) : t.add [] = t := by
  rw [add, List.append_nil]

@[simp]
theorem add_add (events more : List Event) (t : Tally) :
    (t.add events).add more = t.add (events ++ more) := by
  rw [add, add, add, List.append_assoc]

theorem addRound_eq_add (start stop : Cursor) (t : Tally) :
    t.addRound start stop = t.add [.round start stop] := rfl

/-- The counter set to another value and back again. -/
theorem setDepth_setDepth (depth : Nat) (events : List Event) (t : Tally) :
    ((t.setDepth depth).add events).setDepth t.depth =
      t.add (.nesting depth :: events ++ [.nesting t.depth]) := by
  simp [setDepth, add]

/-- From the one to the other, the counter is where it was, and all that has happened is sound. -/
structure Keeps (t t' : Tally) : Prop where
  depth : t'.depth = t.depth
  log : ∃ new, t'.log = t.log ++ new ∧ ∀ e ∈ new, e.Sound

namespace Keeps

theorem refl (t : Tally) : t.Keeps t := ⟨rfl, [], by simp⟩

theorem trans {t u v : Tally} (h : t.Keeps u) (k : u.Keeps v) : t.Keeps v := by
  obtain ⟨hd, new, hnew, hsound⟩ := h
  obtain ⟨kd, more, kmore, ksound⟩ := k
  refine ⟨kd.trans hd, new ++ more, ?_, List.forall_mem_append.2 ⟨hsound, ksound⟩⟩
  rw [kmore, hnew, List.append_assoc]

theorem add (t : Tally) {events : List Event} (h : ∀ e ∈ events, e.Sound) : t.Keeps (t.add events) :=
  ⟨rfl, events, rfl, h⟩

end Keeps

end Tally

/-! ## Counted rules -/

/-- A rule with a counter. -/
abbrev Counted := StateT Tally Rule

/-- A rule with a counter that can fail. -/
abbrev CountedAttempt := ExceptT SyntaxError Counted

namespace Counted

variable {α β : Type}

/-- The counter. -/
def depth : Counted Nat := Tally.depth <$> get

/-- Reads by `p` with the counter raised by `levels`, and lowers it again. -/
def within (levels : Nat) (p : Counted α) : Counted α := do
  modify fun t => t.setDepth (t.depth + levels)
  let a ← p
  modify fun t => t.setDepth (t.depth - levels)
  return a

/-- The reading of `p` repeated as long as `more` holds of its value and a comma follows. -/
def runCommaList (more : α → Bool) (p : Counted α) (t : Tally) (s : Cursor) :
    Reading (List α × Tally) :=
  let r := (p.run t).run s
  if more r.value.1 && r.rest.check (.symbol .comma) then
    let u := runCommaList more p r.value.2 r.rest.advance
    ⟨(r.value.1 :: u.value.1, u.value.2), r.recorded ++ u.recorded, u.rest⟩
  else
    ⟨([r.value.1], r.value.2), r.recorded, r.rest⟩
termination_by s.ahead.length
decreasing_by
  next h =>
    have hc := Cursor.atEnd_eq_false_of_check (Bool.and_eq_true_iff.1 h).2
    exact Nat.lt_of_lt_of_le (Cursor.length_advance_lt hc) ((p.run t).reaches s).length_le

theorem reaches_runCommaList (more : α → Bool) (p : Counted α) (t : Tally) (s : Cursor) :
    s.Reaches (runCommaList more p t s).rest := by
  fun_induction runCommaList more p t s with
  | case1 t s r _ u ih => exact ((p.run t).reaches s).trans (r.rest.reaches_advance.trans ih)
  | case2 t s r _ => exact (p.run t).reaches s

/-- Reads by `p`, and again behind every comma, as long as `more` holds of the values. -/
def commaList (more : α → Bool) (p : Counted α) : Counted (List α) :=
  fun t => ⟨runCommaList more p t, reaches_runCommaList more p t⟩

/-- The reading of `round` repeated as by `Rule.runRounds`. Every round is logged, with the cursor where
    it is done, before the loop goes on from there or is forced on. -/
def runRounds (stop : Cursor → Bool) (round : Counted (Option α)) (t : Tally) (s : Cursor) :
    Reading (List α × Tally) :=
  let start := s.skipSeparators
  if start.atEnd || stop start then
    ⟨([], t), [], start⟩
  else
    let r := (round.run t).run start
    let u := runRounds stop round (r.value.2.addRound start r.rest) (Cursor.ensureProgress start r.rest)
    ⟨(r.value.1.toList ++ u.value.1, u.value.2), r.recorded ++ u.recorded, u.rest⟩
termination_by s.ahead.length
decreasing_by
  next h =>
    have hs : s.skipSeparators.atEnd = false := by simp_all [start]
    exact Nat.lt_of_lt_of_le (Cursor.length_ensureProgress_lt ((round.run t).reaches _) hs)
      s.reaches_skipSeparators.length_le

theorem reaches_runRounds (stop : Cursor → Bool) (round : Counted (Option α)) (t : Tally) (s : Cursor) :
    s.Reaches (runRounds stop round t s).rest := by
  fun_induction runRounds stop round t s with
  | case1 t s start _ => exact s.reaches_skipSeparators
  | case2 t s start _ r u ih =>
    exact s.reaches_skipSeparators.trans
      (((round.run t).reaches start).trans ((Cursor.reaches_ensureProgress start r.rest).trans ih))

/-- Reads by `round` again and again, as `Rule.rounds` does. -/
def rounds (stop : Cursor → Bool) (round : Counted (Option α)) : Counted (List α) :=
  fun t => ⟨runRounds stop round t, reaches_runRounds stop round t⟩

/-- What `p` writes to the log where the counter is `d`. -/
def logged (d : Nat) (p : Counted α) (s : Cursor) : List Event :=
  ((p.run ⟨d, []⟩).run s).value.2.log

theorem logged_depth (d : Nat) (f : Nat → Counted α) (s : Cursor) :
    (depth >>= f).logged d s = (f d).logged d s := rfl

end Counted

namespace CountedAttempt

variable {α : Type}

/-- An attempt that does not touch the counter. -/
def ofAttempt (p : Attempt α) : CountedAttempt α := ExceptT.mk (liftM p.run)

/-- Reads by `p` with the counter raised by `levels`, and lowers it again, also if `p` fails. -/
def within (levels : Nat) (p : CountedAttempt α) : CountedAttempt α :=
  ExceptT.mk (Counted.within levels p.run)

/-- Reads by `p`, and again behind every comma, up to the first failure. -/
def commaList (p : CountedAttempt α) : CountedAttempt (List α) := ExceptT.mk do
  let results ← Counted.commaList Except.isOk p.run
  return results.mapM id

/-- Reads by `p`. A failure is recorded and recovered from, and leaves no value. -/
def recovering (p : CountedAttempt α) : Counted (Option α) := do
  match ← p.run with
  | .ok a => return some a
  | .error e =>
    Rule.record e
    Rule.synchronize
    return none

theorem logged_depth (d : Nat) (f : Nat → CountedAttempt α) (s : Cursor) :
    ((liftM Counted.depth : CountedAttempt Nat) >>= f).run.logged d s = (f d).run.logged d s := rfl

end CountedAttempt

/-- Both values of the counter are written, around what is written while it is raised. -/
theorem Counted.run_within {α : Type} {levels : Nat} {p : Counted α} {t : Tally} {events : List Event}
    {s rest : Cursor} {a : α} {recorded : List SyntaxError}
    (h : (p.run (t.setDepth (t.depth + levels))).run s =
      ⟨(a, (t.setDepth (t.depth + levels)).add events), recorded, rest⟩) :
    ((within levels p).run t).run s =
      ⟨(a, t.add (.nesting (t.depth + levels) :: events ++ [.nesting t.depth])), recorded, rest⟩ := by
  have hstep : ((within levels p).run t).run s =
      let r := (p.run (t.setDepth (t.depth + levels))).run s
      ⟨(r.value.1, r.value.2.setDepth (r.value.2.depth - levels)), r.recorded, r.rest⟩ := by
    simp [within]
  have hback : ((t.setDepth (t.depth + levels)).add events).depth - levels = t.depth :=
    Nat.add_sub_cancel _ _
  rw [hstep, h]
  simp only
  rw [hback, Tally.setDepth_setDepth]

/-! ## Counted rules that read as rules do -/

/-- Where the counter is `d`, the counted rule reads as the rule does, puts the counter back, and writes
    to the log what does not depend on what stands there, and is sound. -/
def Follows {α : Type} (d : Nat) (p : Counted α) (q : Rule α) : Prop :=
  ∀ s : Cursor, ∃ events, (∀ e ∈ events, e.Sound) ∧ ∀ t : Tally, t.depth = d →
    (p.run t).run s = ⟨((q.run s).value, t.add events), (q.run s).recorded, (q.run s).rest⟩

namespace Follows

variable {α β : Type} {d : Nat}

theorem lift (q : Rule α) : Follows d (liftM q) q := by
  intro s
  refine ⟨[], by simp, fun t _ => ?_⟩
  show Rule.run (do let a ← q; Pure.pure (a, t)) s = _
  simp

theorem pure (a : α) : Follows d (pure a) (pure a) := by
  intro s
  refine ⟨[], by simp, fun t _ => ?_⟩
  rw [Tally.add_nil]
  rfl

theorem bind {p : Counted α} {q : Rule α} {f : α → Counted β} {g : α → Rule β} (hp : Follows d p q)
    (hf : ∀ a, Follows d (f a) (g a)) : Follows d (p >>= f) (q >>= g) := by
  intro s
  obtain ⟨events, hsound, hrun⟩ := hp s
  obtain ⟨more, hsound', hrun'⟩ := hf (q.run s).value (q.run s).rest
  refine ⟨events ++ more, List.forall_mem_append.2 ⟨hsound, hsound'⟩, fun t ht => ?_⟩
  rw [StateT.run_bind, Rule.run_bind, Rule.run_bind, hrun t ht]
  simp only [hrun' (t.add events) ht, Tally.add_add]

/-- The counter is asked for. -/
theorem depth {f : Nat → Counted α} {q : Rule α} (h : Follows d (f d) q) :
    Follows d (Counted.depth >>= f) q := by
  intro s
  obtain ⟨events, hsound, hrun⟩ := h s
  refine ⟨events, hsound, fun t ht => ?_⟩
  rw [← hrun t ht, ← ht]
  rfl

theorem ite {c : Prop} {_ : Decidable c} {p p' : Counted α} {q q' : Rule α} (h : Follows d p q)
    (h' : Follows d p' q') : Follows d (if c then p else p') (if c then q else q') := by
  split
  · exact h
  · exact h'

/-- Within the limit the counter is raised and lowered again. -/
theorem within {levels : Nat} {p : Counted α} {q : Rule α} (h : Follows (d + levels) p q)
    (hle : d + levels ≤ maxNesting) : Follows d (Counted.within levels p) q := by
  intro s
  obtain ⟨events, hsound, hrun⟩ := h s
  refine ⟨.nesting (d + levels) :: events ++ [.nesting d], ?_, fun t ht => ?_⟩
  · intro e he
    simp only [List.cons_append, List.mem_cons, List.mem_append, List.not_mem_nil, or_false] at he
    rcases he with rfl | he | rfl
    · exact hle
    · exact hsound e he
    · exact Nat.le_trans (Nat.le_add_right d levels) hle
  · subst ht
    exact Counted.run_within (hrun (t.setDepth (t.depth + levels)) rfl)

theorem commaList {more : α → Bool} {p : Counted α} {q : Rule α} (h : Follows d p q) :
    Follows d (Counted.commaList more p) (Rule.commaList more q) := by
  intro s
  show ∃ events, (∀ e ∈ events, e.Sound) ∧ ∀ t : Tally, t.depth = d →
    Counted.runCommaList more p t s = ⟨((Rule.runCommaList more q s).value, t.add events),
      (Rule.runCommaList more q s).recorded, (Rule.runCommaList more q s).rest⟩
  fun_induction Rule.runCommaList more q s with
  | case1 s r hmore v ih =>
      obtain ⟨events, hsound, hrun⟩ := h s
      obtain ⟨others, hsound', hrest⟩ := ih
      refine ⟨events ++ others, List.forall_mem_append.2 ⟨hsound, hsound'⟩, fun t ht => ?_⟩
      rw [Counted.runCommaList, hrun t ht]
      simp only
      rw [if_pos hmore, hrest (t.add events) ht, Tally.add_add]
  | case2 s r hmore =>
      obtain ⟨events, hsound, hrun⟩ := h s
      refine ⟨events, hsound, fun t ht => ?_⟩
      rw [Counted.runCommaList, hrun t ht]
      simp only
      rw [if_neg hmore]

/-- The loops read alike, and a round that consumes a token is sound. -/
theorem rounds {stop : Cursor → Bool} {p : Counted (Option α)} {q : Rule (Option α)}
    (h : Follows d p q) (hadv : q.Advances) :
    Follows d (Counted.rounds stop p) (Rule.rounds stop q) := by
  intro s
  show ∃ events, (∀ e ∈ events, e.Sound) ∧ ∀ t : Tally, t.depth = d →
    Counted.runRounds stop p t s = ⟨((Rule.runRounds stop q s).value, t.add events),
      (Rule.runRounds stop q s).recorded, (Rule.runRounds stop q s).rest⟩
  fun_induction Rule.runRounds stop q s with
  | case1 s start hstop =>
      refine ⟨[], by simp, fun t _ => ?_⟩
      rw [Counted.runRounds, Tally.add_nil]
      exact if_pos hstop
  | case2 s start hgo r v ih =>
      obtain ⟨events, hsound, hrun⟩ := h start
      obtain ⟨others, hsound', hrest⟩ := ih
      have hend : start.atEnd = false := by
        simp only [Bool.or_eq_true, not_or, Bool.not_eq_true] at hgo
        exact hgo.1
      have hlt : (q.run start).rest.ahead.length < start.ahead.length := hadv start hend
      have hround : (Event.round start r.rest).Sound :=
        ⟨(q.reaches start).before_length_lt hlt, Cursor.ensureProgress_of_lt hlt⟩
      refine ⟨events ++ [.round start r.rest] ++ others, List.forall_mem_append.2
        ⟨List.forall_mem_append.2 ⟨hsound, List.forall_mem_singleton.2 hround⟩, hsound'⟩, fun t ht => ?_⟩
      have hnext := hrest (t.add (events ++ [.round start r.rest])) ht
      rw [Counted.runRounds]
      simp only
      rw [if_neg hgo, hrun t ht]
      simp only
      rw [Tally.addRound_eq_add, Tally.add_add, hnext, Tally.add_add]

/-! ### What is written to the log -/

theorem run_eq {p : Counted α} {q : Rule α} (h : Follows d p q) {t : Tally} (ht : t.depth = d)
    (s : Cursor) : (p.run t).run s =
      ⟨((q.run s).value, t.add (p.logged d s)), (q.run s).recorded, (q.run s).rest⟩ := by
  obtain ⟨events, -, hrun⟩ := h s
  have hlogged : p.logged d s = events := by
    rw [Counted.logged, hrun ⟨d, []⟩ rfl]
    rfl
  rw [hlogged, hrun t ht]

theorem sound_of_mem_logged {p : Counted α} {q : Rule α} (h : Follows d p q) {s : Cursor} {e : Event}
    (he : e ∈ p.logged d s) : e.Sound := by
  obtain ⟨events, hsound, hrun⟩ := h s
  rw [Counted.logged, hrun ⟨d, []⟩ rfl] at he
  exact hsound e he

/-- With the counter raised, both of its values are written, around all that happens in between. -/
theorem logged_within {levels : Nat} {p : Counted α} {q : Rule α} (h : Follows (d + levels) p q)
    (s : Cursor) : (Counted.within levels p).logged d s =
      .nesting (d + levels) :: p.logged (d + levels) s ++ [.nesting d] := by
  have hrun := h.run_eq (show (Tally.setDepth (d + levels) ⟨d, []⟩).depth = d + levels from rfl) s
  have hwithin := @Counted.run_within _ levels p ⟨d, []⟩ _ _ _ _ _ hrun
  rw [Counted.logged, hwithin]
  rfl

/-- A loop writes its rounds, each behind what happens in it, and nothing else. -/
theorem logged_rounds {stop : Cursor → Bool} {p : Counted (Option α)} {q : Rule (Option α)}
    (h : Follows d p q) (s : Cursor) : (Counted.rounds stop p).logged d s =
      (Rule.roundsOf stop q s).flatMap fun r => p.logged d r.1 ++ [.round r.1 r.2] := by
  -- The log may already have entries where a round starts, so this is shown for any tally.
  suffices hlog : ∀ t : Tally, t.depth = d → (Counted.runRounds stop p t s).value.2 =
      t.add ((Rule.roundsOf stop q s).flatMap fun r => p.logged d r.1 ++ [.round r.1 r.2]) from
    congrArg Tally.log (hlog ⟨d, []⟩ rfl)
  fun_induction Rule.roundsOf stop q s with
  | case1 s start hstop =>
      intro t _
      rw [Counted.runRounds, List.flatMap_nil, Tally.add_nil]
      simp only
      rw [if_pos hstop]
  | case2 s start hgo rest ih =>
      intro t ht
      have hnext := ih (t.add (p.logged d start ++ [.round start rest])) ht
      rw [Counted.runRounds, List.flatMap_cons]
      simp only
      rw [if_neg hgo, h.run_eq ht]
      simp only
      rw [Tally.addRound_eq_add, Tally.add_add, hnext, Tally.add_add]

end Follows

/-- The same of rules that can fail. -/
def FollowsAttempt {α : Type} (d : Nat) (p : CountedAttempt α) (q : Attempt α) : Prop :=
  Follows d p.run q.run

namespace FollowsAttempt

variable {α β : Type} {d : Nat}

theorem ofAttempt (q : Attempt α) : FollowsAttempt d (CountedAttempt.ofAttempt q) q := Follows.lift q.run

theorem pure (a : α) : FollowsAttempt d (pure a) (pure a) := Follows.pure (Except.ok a)

/-- A rule that cannot fail. -/
theorem ofFollows {p : Counted α} {q : Rule α} (h : Follows d p q) :
    FollowsAttempt d (liftM p) (liftM q) := by
  show Follows d (Except.ok <$> p) (Except.ok <$> q)
  rw [← bind_pure_comp, ← bind_pure_comp]
  exact h.bind fun a => Follows.pure (Except.ok a)

theorem lift (q : Rule α) : FollowsAttempt d (liftM q) (liftM q) := ofFollows (Follows.lift q)

theorem bind {p : CountedAttempt α} {q : Attempt α} {f : α → CountedAttempt β} {g : α → Attempt β}
    (hp : FollowsAttempt d p q) (hf : ∀ a, FollowsAttempt d (f a) (g a)) :
    FollowsAttempt d (p >>= f) (q >>= g) := by
  unfold FollowsAttempt
  rw [ExceptT.run_bind, ExceptT.run_bind]
  refine Follows.bind hp ?_
  intro result
  cases result with
  | ok a => exact hf a
  | error e => exact Follows.pure (Except.error e)

theorem depth {f : Nat → CountedAttempt α} {q : Attempt α} (h : FollowsAttempt d (f d) q) :
    FollowsAttempt d ((liftM Counted.depth : CountedAttempt Nat) >>= f) q := by
  unfold FollowsAttempt
  rw [ExceptT.run_bind]
  intro s
  obtain ⟨events, hsound, hrun⟩ := h s
  refine ⟨events, hsound, fun t ht => ?_⟩
  rw [← hrun t ht, ← ht]
  rfl

theorem ite {c : Prop} {_ : Decidable c} {p p' : CountedAttempt α} {q q' : Attempt α}
    (h : FollowsAttempt d p q) (h' : FollowsAttempt d p' q') :
    FollowsAttempt d (if c then p else p') (if c then q else q') := by
  split
  · exact h
  · exact h'

theorem within {levels : Nat} {p : CountedAttempt α} {q : Attempt α}
    (h : FollowsAttempt (d + levels) p q) (hle : d + levels ≤ maxNesting) :
    FollowsAttempt d (CountedAttempt.within levels p) q := Follows.within h hle

theorem commaList {p : CountedAttempt α} {q : Attempt α} (h : FollowsAttempt d p q) :
    FollowsAttempt d (CountedAttempt.commaList p) (Attempt.commaList q) :=
  Follows.bind (Follows.commaList h) fun results => Follows.pure (results.mapM id)

theorem recovering {p : CountedAttempt α} {q : Attempt α} (h : FollowsAttempt d p q) :
    Follows d (CountedAttempt.recovering p) (Attempt.recovering q) := by
  refine Follows.bind h ?_
  intro result
  cases result with
  | ok a => exact Follows.pure (some a)
  | error e =>
      refine (Follows.lift (Rule.record e)).bind fun _ => ?_
      exact (Follows.lift Rule.synchronize).bind fun _ => Follows.pure none

end FollowsAttempt

end FourthGen
