import FourthGen.Parser.Cursor

set_option autoImplicit false

/-! # Rules

A rule reads something at a cursor. It yields a value, the errors it recorded on the way, and the
cursor where it stopped, which always lies ahead of where it started; this is what lets rules be
repeated until the tokens run out. A rule that can fail is an `Attempt`: it then yields an error,
and still keeps what it recorded and how far it got. -/

namespace FourthGen

/-- What a rule found: a value, the errors recorded on the way, and where it stopped. -/
structure Reading (α : Type) where
  value : α
  recorded : List SyntaxError
  rest : Cursor

/-- A rule of the grammar. -/
structure Rule (α : Type) where
  /-- Reads at a cursor. -/
  run : Cursor → Reading α
  /-- Reading never goes back. -/
  reaches : ∀ s : Cursor, s.Reaches (run s).rest

namespace Rule

/-! ## Sequencing -/

/-- Yields a value and reads nothing. -/
protected def pure {α : Type} (a : α) : Rule α where
  run s := ⟨a, [], s⟩
  reaches s := .refl s

/-- Reads by `p` and then, from where it stopped, by what `f` makes of its value. -/
protected def bind {α β : Type} (p : Rule α) (f : α → Rule β) : Rule β where
  run s :=
    let r := p.run s
    let t := (f r.value).run r.rest
    ⟨t.value, r.recorded ++ t.recorded, t.rest⟩
  reaches s := (p.reaches s).trans ((f (p.run s).value).reaches (p.run s).rest)

instance : Monad Rule where
  pure := Rule.pure
  bind := Rule.bind

@[simp] theorem run_pure {α : Type} (a : α) (s : Cursor) : (pure a : Rule α).run s = ⟨a, [], s⟩ :=
  rfl

@[simp] theorem run_bind {α β : Type} (p : Rule α) (f : α → Rule β) (s : Cursor) :
    (p >>= f).run s =
      ⟨((f (p.run s).value).run (p.run s).rest).value,
        (p.run s).recorded ++ ((f (p.run s).value).run (p.run s).rest).recorded,
        ((f (p.run s).value).run (p.run s).rest).rest⟩ := rfl

/-- Two rules that read alike at every cursor are the same rule. -/
@[ext] theorem ext {α : Type} {p q : Rule α} (h : ∀ s, p.run s = q.run s) : p = q := by
  obtain ⟨run, hr⟩ := p
  obtain ⟨run', hr'⟩ := q
  have : run = run' := funext h
  subst this
  rfl

instance : LawfulMonad Rule :=
  LawfulMonad.mk' Rule
    (fun p => by ext s; simp [Functor.map, Rule.bind, Rule.pure])
    (fun a f => by ext s; simp)
    (fun p f g => by ext s; simp)

@[simp] theorem run_map {α β : Type} (f : α → β) (p : Rule α) (s : Cursor) :
    (f <$> p).run s = ⟨f (p.run s).value, (p.run s).recorded, (p.run s).rest⟩ := by
  rw [← bind_pure_comp, run_bind]
  simp

/-- The rule that `p` builds, built only when it reads. -/
def defer {α : Type} (p : Unit → Rule α) : Rule α where
  run s := (p ()).run s
  reaches := (p ()).reaches

@[simp] theorem defer_eq {α : Type} (p : Unit → Rule α) : defer p = p () := rfl

/-! ## Primitive rules -/

/-- Answers a question about the cursor and reads nothing. -/
def ask {α : Type} (question : Cursor → α) : Rule α where
  run s := ⟨question s, [], s⟩
  reaches s := .refl s

/-- Moves the cursor forward. -/
def move (step : Cursor → Cursor) (h : ∀ s : Cursor, s.Reaches (step s)) : Rule Unit where
  run s := ⟨(), [], step s⟩
  reaches s := h s

/-- Records an error and reads nothing. -/
def record (e : SyntaxError) : Rule Unit where
  run s := ⟨(), [e], s⟩
  reaches s := .refl s

@[simp] theorem run_ask {α : Type} (question : Cursor → α) (s : Cursor) :
    (ask question).run s = ⟨question s, [], s⟩ := rfl

@[simp] theorem run_move (step : Cursor → Cursor) (h : ∀ s : Cursor, s.Reaches (step s))
    (s : Cursor) : (move step h).run s = ⟨(), [], step s⟩ := rfl

@[simp] theorem run_record (e : SyntaxError) (s : Cursor) : (record e).run s = ⟨(), [e], s⟩ := rfl

/-- The token at the cursor, which stays there. -/
def peek : Rule Token := ask Cursor.peek

/-- The error that would complain about the token at the cursor. -/
def errorHere (complaint : Complaint) : Rule SyntaxError := ask (·.errorHere complaint)

/-- Consumes a token and yields it; at the end, yields the last token again. -/
def advance : Rule Token := do
  move Cursor.advance Cursor.reaches_advance
  ask Cursor.previous

/-- Consumes the next token if it is of one of the given kinds, and says whether it was. -/
def accept (kinds : List TokenKind) : Rule Bool := do
  if ← ask fun s => kinds.any s.check then
    let _ ← advance
    return true
  else
    return false

/-- Records a complaint about the token at the cursor. -/
def complain (complaint : Complaint) : Rule Unit := do
  record (← errorHere complaint)

/-- Consumes a token of the given kind; on any other, complains and reads nothing. -/
def expect (kind : TokenKind) (complaint : Complaint) : Rule (Option Token) := do
  if ← ask (·.check kind) then
    return some (← advance)
  else
    complain complaint
    return none

/-- Skips what is left of the line. -/
def skipLine : Rule Unit := move Cursor.skipLine Cursor.reaches_skipLine

/-- Recovers after an error. -/
def synchronize : Rule Unit := move Cursor.synchronize Cursor.reaches_synchronize

/-- Skips the statements of a block up to its end. -/
def skipBlock : Rule Unit := move (Cursor.skipBlock 0) (Cursor.reaches_skipBlock 0)

/-- The range of a node that starts with `start` and is complete at the cursor. -/
def upToHere (start : Token) : Rule Range := ask fun s => start.range.cover s.previousRange

/-! ### What the primitive rules do -/

@[simp] theorem run_peek (s : Cursor) : peek.run s = ⟨s.peek, [], s⟩ := rfl

@[simp] theorem run_errorHere (complaint : Complaint) (s : Cursor) :
    (errorHere complaint).run s = ⟨s.errorHere complaint, [], s⟩ := rfl

@[simp] theorem run_advance (s : Cursor) : advance.run s = ⟨s.advance.previous, [], s.advance⟩ :=
  rfl

@[simp] theorem run_complain (complaint : Complaint) (s : Cursor) :
    (complain complaint).run s = ⟨(), [s.errorHere complaint], s⟩ := rfl

@[simp] theorem run_skipLine (s : Cursor) : skipLine.run s = ⟨(), [], s.skipLine⟩ := rfl

@[simp] theorem run_synchronize (s : Cursor) : synchronize.run s = ⟨(), [], s.synchronize⟩ := rfl

@[simp] theorem run_skipBlock (s : Cursor) : skipBlock.run s = ⟨(), [], s.skipBlock 0⟩ := rfl

@[simp] theorem run_upToHere (start : Token) (s : Cursor) :
    (upToHere start).run s = ⟨start.range.cover s.previousRange, [], s⟩ := rfl

/-- A token is accepted exactly if it is of one of the kinds. -/
theorem run_accept (kinds : List TokenKind) (s : Cursor) :
    (accept kinds).run s =
      if kinds.any s.check then ⟨true, [], s.advance⟩ else ⟨false, [], s⟩ := by
  by_cases h : kinds.any s.check
  · simp [accept, h]
  · simp [accept, h]

/-- An expected token is consumed; any other is complained about and left. -/
theorem run_expect (kind : TokenKind) (complaint : Complaint) (s : Cursor) :
    (expect kind complaint).run s =
      if s.check kind then ⟨some s.advance.previous, [], s.advance⟩
      else ⟨none, [s.errorHere complaint], s⟩ := by
  by_cases h : s.check kind
  · simp [expect, h]
  · simp [expect, h]

/-! ## Repetition -/

/-- The reading of `p` repeated as long as `more` holds of its value and a comma follows. -/
def runCommaList {α : Type} (more : α → Bool) (p : Rule α) (s : Cursor) : Reading (List α) :=
  let r := p.run s
  if more r.value && r.rest.check (.symbol .comma) then
    let t := runCommaList more p r.rest.advance
    ⟨r.value :: t.value, r.recorded ++ t.recorded, t.rest⟩
  else
    ⟨[r.value], r.recorded, r.rest⟩
termination_by s.ahead.length
decreasing_by
  next h =>
    have hc := Cursor.atEnd_eq_false_of_check (Bool.and_eq_true_iff.1 h).2
    exact Nat.lt_of_lt_of_le (Cursor.length_advance_lt hc) (p.reaches s).length_le

theorem reaches_runCommaList {α : Type} (more : α → Bool) (p : Rule α) (s : Cursor) :
    s.Reaches (runCommaList more p s).rest := by
  fun_induction runCommaList more p s with
  | case1 s r _ t ih => exact (p.reaches s).trans (r.rest.reaches_advance.trans ih)
  | case2 s r _ => exact p.reaches s

/-- Reads by `p`, and again behind every comma, as long as `more` holds of the values. -/
def commaList {α : Type} (more : α → Bool) (p : Rule α) : Rule (List α) where
  run := runCommaList more p
  reaches := reaches_runCommaList more p

/-- A list of items is one item and, behind a comma, a list of items. -/
theorem run_commaList {α : Type} (more : α → Bool) (p : Rule α) (s : Cursor) :
    (commaList more p).run s =
      let r := p.run s
      if more r.value && r.rest.check (.symbol .comma) then
        let t := (commaList more p).run r.rest.advance
        ⟨r.value :: t.value, r.recorded ++ t.recorded, t.rest⟩
      else
        ⟨[r.value], r.recorded, r.rest⟩ := by
  show runCommaList more p s = _
  rw [runCommaList]
  rfl

/-- The reading of `round` repeated, with separators skipped before each, up to the end of the text
    or to where `stop` holds. -/
def runRounds {α : Type} (stop : Cursor → Bool) (round : Rule (Option α)) (s : Cursor) :
    Reading (List α) :=
  let start := s.skipSeparators
  if start.atEnd || stop start then
    ⟨[], [], start⟩
  else
    let r := round.run start
    let t := runRounds stop round (Cursor.ensureProgress start r.rest)
    ⟨r.value.toList ++ t.value, r.recorded ++ t.recorded, t.rest⟩
termination_by s.ahead.length
decreasing_by
  next h =>
    have hs : s.skipSeparators.atEnd = false := by simp_all [start]
    exact Nat.lt_of_lt_of_le (Cursor.length_ensureProgress_lt (round.reaches _) hs)
      s.reaches_skipSeparators.length_le

theorem reaches_runRounds {α : Type} (stop : Cursor → Bool) (round : Rule (Option α)) (s : Cursor) :
    s.Reaches (runRounds stop round s).rest := by
  fun_induction runRounds stop round s with
  | case1 s start _ => exact s.reaches_skipSeparators
  | case2 s start _ r t ih =>
    exact s.reaches_skipSeparators.trans
      ((round.reaches start).trans ((Cursor.reaches_ensureProgress start r.rest).trans ih))

/-- Reads by `round` again and again, each time behind any separators, and collects the values. A
    round that reads nothing costs a token, so that the repetition ends. -/
def rounds {α : Type} (stop : Cursor → Bool) (round : Rule (Option α)) : Rule (List α) where
  run := runRounds stop round
  reaches := reaches_runRounds stop round

/-- Rounds are no round at all, or one round and then rounds. -/
theorem run_rounds {α : Type} (stop : Cursor → Bool) (round : Rule (Option α)) (s : Cursor) :
    (rounds stop round).run s =
      let start := s.skipSeparators
      if start.atEnd || stop start then ⟨[], [], start⟩
      else
        let r := round.run start
        let t := (rounds stop round).run (Cursor.ensureProgress start r.rest)
        ⟨r.value.toList ++ t.value, r.recorded ++ t.recorded, t.rest⟩ := by
  show runRounds stop round s = _
  rw [runRounds]
  rfl

end Rule

/-! ## Rules that can fail -/

/-- A rule that yields a value or fails with an error; what it recorded and read stays either way. -/
abbrev Attempt := ExceptT SyntaxError Rule

namespace Attempt

/-- Fails with a complaint about the token at the cursor. -/
def fail {α : Type} (complaint : Complaint) : Attempt α := do
  throw (← Rule.errorHere complaint)

/-- The attempt that `p` builds, built only when it reads. -/
def defer {α : Type} (p : Unit → Attempt α) : Attempt α := Rule.defer p

/-- Gives up on constructs nested too deeply: fails at the cursor and skips what is left of the
    line. -/
def tooDeep {α : Type} : Attempt α := do
  let e ← Rule.errorHere .nestingTooDeep
  Rule.skipLine
  throw e

/-- Reads by `p`, and again behind every comma, up to the first failure. -/
def commaList {α : Type} (p : Attempt α) : Attempt (List α) := ExceptT.mk do
  let results ← Rule.commaList Except.isOk p.run
  return results.mapM id

/-- Reads by `p`. A failure is recorded and recovered from, and leaves no value. -/
def recovering {α : Type} (p : Attempt α) : Rule (Option α) := do
  match ← p.run with
  | .ok a => return some a
  | .error e =>
    Rule.record e
    Rule.synchronize
    return none

@[simp] theorem run_run_fail {α : Type} (complaint : Complaint) (s : Cursor) :
    Rule.run (fail complaint : Attempt α).run s = ⟨.error (s.errorHere complaint), [], s⟩ := rfl

@[simp] theorem run_run_tooDeep {α : Type} (s : Cursor) :
    Rule.run (tooDeep : Attempt α).run s =
      ⟨.error (s.errorHere .nestingTooDeep), [], s.skipLine⟩ := rfl

/-- A failure is recorded behind what was recorded on the way to it. -/
theorem run_recovering {α : Type} (p : Attempt α) (s : Cursor) :
    (recovering p).run s =
      match (Rule.run p.run s).value with
      | .ok a => ⟨some a, (Rule.run p.run s).recorded, (Rule.run p.run s).rest⟩
      | .error e =>
        ⟨none, (Rule.run p.run s).recorded ++ [e], (Rule.run p.run s).rest.synchronize⟩ := by
  simp only [recovering, Rule.run_bind]
  split
  · simp
  · simp

end Attempt

end FourthGen
