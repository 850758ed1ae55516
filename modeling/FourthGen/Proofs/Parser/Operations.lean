import FourthGen.Proofs.Parser.CountedRules
import FourthGen.Proofs.Token.Lexer

set_option autoImplicit false

/-! # The parser as a machine

A parser can be driven from outside, one operation after the other: it moves over tokens, takes tokens of
some kind, records errors, recovers, and reads an expression or a whole program. Whatever it is told to
do, it only moves forward over the tokens of its text, adds errors behind those it has, and leaves the
counter for the depth of nesting where it was; and no loop ever has to be forced on
(`Parser.perform_performAll`). The log that this is read off leaves out none of the rounds in which the
items of a program are read (`Parser.log_perform_program`). -/

namespace FourthGen

/-- What a parser can be told to do. -/
inductive Operation where
  /-- Move on by a token. -/
  | advance
  /-- Take the next token if it is of one of the kinds. -/
  | accept (kinds : List TokenKind)
  /-- Take the next token if it is of the kind, else record an error. -/
  | expect (kind : TokenKind) (message : String)
  /-- Record an error about any token. -/
  | errorAt (token : Token) (message : String)
  /-- Recover after an error. -/
  | synchronize
  /-- Read an expression, or fail. -/
  | expression
  /-- Read the items up to the end of the text. -/
  | program

namespace Operation

/-- The rule by which the operation reads. Its value is left out. -/
def rule : Operation → Rule Unit
  | advance => do let _ ← Rule.advance
  | accept kinds => do let _ ← Rule.accept kinds
  | expect kind message => do let _ ← Rule.expect kind (.note message)
  | errorAt token message => Rule.record (.about token (.note message))
  | synchronize => Rule.synchronize
  | expression => do let _ ← (Expr.read maxNesting).run
  | program => do let _ ← Item.readProgram

/-- The rule with a counter, which only expressions and programs use. -/
def counted : Operation → Counted Unit
  | expression => do let _ ← Counted.expression.run
  | program => do let _ ← Counted.program
  | operation => operation.rule

theorem follows_rule (operation : Operation) : Follows 0 operation.counted operation.rule := by
  cases operation with
  | expression =>
      have hread : FollowsAttempt 0 Counted.expression (Expr.read maxNesting) :=
        follows_expression (Nat.zero_add maxNesting)
      exact Follows.bind hread fun _ => .pure ()
  | program => exact follows_program.bind fun _ => .pure ()
  | advance | accept | expect | errorAt | synchronize => exact Follows.lift _

end Operation

/-! ## Cursors in their list of tokens -/

namespace Cursor

/-- All tokens, consumed or not, with the one for the end. -/
def tokens (s : Cursor) : List Token := s.before.reverse ++ (s.ahead ++ [s.eof])

/-- The index of the cursor in the list of tokens. -/
def current (s : Cursor) : Nat := s.before.length

theorem ofText_eq (text : String) : ofText text = ⟨[], tokensOf text, eofOf text⟩ := by
  rw [ofText, tokenize_eq, ofTokens_concat (fun _ h => ne_eof_of_mem_tokensOf h) (eofOf_kind text)]

theorem tokens_ofText (text : String) : (ofText text).tokens = tokenize text := by
  rw [ofText_eq, tokenize_eq]
  rfl

theorem Reaches.tokens_eq {s t : Cursor} (h : s.Reaches t) : t.tokens = s.tokens := by
  obtain ⟨consumed, hahead, hbefore, heof⟩ := h
  rw [tokens, tokens, hahead, hbefore, heof]
  simp

theorem Reaches.current_le {s t : Cursor} (h : s.Reaches t) : s.current ≤ t.current := by
  have hle := h.length_le
  have heq := h.length_eq
  unfold current
  omega

/-- The token at the cursor is the one at its index. -/
theorem getElem_current (s : Cursor) : s.tokens[s.current]? = some s.peek := by
  rw [tokens, current, List.getElem?_append_right (by simp), List.length_reverse, Nat.sub_self, peek]
  cases s.ahead <;> rfl

end Cursor

/-- A program is read to the end of the text. -/
theorem Item.atEnd_readProgram (s : Cursor) : (Item.readProgram.run s).rest.atEnd = true := by
  show (Rule.runRounds (fun _ => false) (Attempt.recovering (Item.read maxNesting)) s).rest.atEnd = true
  fun_induction Rule.runRounds (fun _ => false) (Attempt.recovering (Item.read maxNesting)) s with
  | case1 s start hstop => simpa using hstop
  | case2 s start hgo r t ih => exact ih

/-! ## Runs -/

/-- A parser: where it stands, the errors it has recorded, and its counter. -/
structure Parser where
  cursor : Cursor
  errors : List SyntaxError
  tally : Tally

namespace Parser

/-- The parser at the start of a text. -/
def new (text : String) : Parser := ⟨.ofText text, [], ⟨0, []⟩⟩

/-- The parser after an operation. -/
def perform (p : Parser) (operation : Operation) : Parser :=
  let r := (operation.counted.run p.tally).run p.cursor
  ⟨r.rest, p.errors ++ r.recorded, r.value.2⟩

/-- The parser after operations, one after the other. -/
def performAll (p : Parser) (operations : List Operation) : Parser := operations.foldl perform p

/-- What a parser can become. -/
structure Steps (p p' : Parser) : Prop where
  cursor : p.cursor.Reaches p'.cursor
  errors : p.errors <+: p'.errors
  tally : p.tally.Keeps p'.tally

theorem Steps.refl (p : Parser) : p.Steps p := ⟨.refl _, List.prefix_rfl, .refl _⟩

theorem Steps.trans {p q r : Parser} (h : p.Steps q) (k : q.Steps r) : p.Steps r :=
  ⟨h.cursor.trans k.cursor, h.errors.trans k.errors, h.tally.trans k.tally⟩

/-- An operation reads by its rule, and adds to the log what it writes. -/
theorem perform_eq {p : Parser} (h : p.tally.depth = 0) (operation : Operation) :
    p.perform operation =
      ⟨(operation.rule.run p.cursor).rest, p.errors ++ (operation.rule.run p.cursor).recorded,
        p.tally.add (operation.counted.logged 0 p.cursor)⟩ := by
  rw [perform, operation.follows_rule.run_eq h]

theorem steps_perform {p : Parser} (h : p.tally.depth = 0) (operation : Operation) :
    p.Steps (p.perform operation) := by
  rw [perform_eq h]
  exact ⟨operation.rule.reaches p.cursor, List.prefix_append _ _,
    .add p.tally fun _ he => operation.follows_rule.sound_of_mem_logged he⟩

theorem steps_performAll {p : Parser} (h : p.tally.depth = 0) (operations : List Operation) :
    p.Steps (p.performAll operations) := by
  induction operations generalizing p with
  | nil => exact .refl p
  | cons operation operations ih =>
      have hstep := steps_perform h operation
      exact hstep.trans (ih (hstep.tally.depth.trans h))

/-- Whatever a parser has been told to do: it stands at a token of its text. With the next operation it
    moves forward, if at all, and records errors behind those it has. On the way its counter is within
    the limit and every round of a loop consumes a token before it could be forced on; afterwards the
    counter is where it was. It reads by the rule of the operation, and a program up to the end. -/
theorem perform_performAll (text : String) (operations : List Operation) (operation : Operation) :
    let p := (new text).performAll operations
    let p' := p.perform operation
    (p.cursor.tokens = tokenize text ∧ (tokenize text)[p.cursor.current]? = some p.cursor.peek) ∧
    (p'.cursor.tokens = tokenize text ∧ (tokenize text)[p'.cursor.current]? = some p'.cursor.peek) ∧
    p.cursor.current ≤ p'.cursor.current ∧
    p.errors <+: p'.errors ∧
    p'.tally.depth = p.tally.depth ∧
    (∃ events, p'.tally.log = p.tally.log ++ events ∧ ∀ event ∈ events, event.Sound) ∧
    (operation = .program → p'.cursor.kind = .eof) ∧
    p'.cursor = (operation.rule.run p.cursor).rest ∧
    p'.errors = p.errors ++ (operation.rule.run p.cursor).recorded := by
  intro p p'
  have hp : (new text).Steps p := steps_performAll rfl operations
  have hzero : p.tally.depth = 0 := hp.tally.depth
  have hstep : p.Steps p' := steps_perform hzero operation
  have heq := perform_eq hzero operation
  have hcursor : p'.cursor = (operation.rule.run p.cursor).rest := congrArg cursor heq
  have htokens : p.cursor.tokens = tokenize text :=
    hp.cursor.tokens_eq.trans (Cursor.tokens_ofText text)
  have htokens' : p'.cursor.tokens = tokenize text := hstep.cursor.tokens_eq.trans htokens
  refine ⟨⟨htokens, ?_⟩, ⟨htokens', ?_⟩, hstep.cursor.current_le, hstep.errors, hstep.tally.depth,
    hstep.tally.log, ?_, hcursor, congrArg errors heq⟩
  · rw [← htokens]
    exact p.cursor.getElem_current
  · rw [← htokens']
    exact p'.cursor.getElem_current
  · rintro rfl
    have hend : p'.cursor.ahead = [] := by
      rw [hcursor]
      exact List.isEmpty_iff.1 (Item.atEnd_readProgram p.cursor)
    have heof : p'.cursor.eof = eofOf text := by
      obtain ⟨-, -, -, heof⟩ := hp.cursor.trans hstep.cursor
      rw [heof, new, Cursor.ofText_eq]
    rw [Cursor.kind, Cursor.peek, hend, List.headD_nil, heof]
    rfl

/-- Nothing is left out of the log when a program is read: its items are read in the rounds of the loop
    over items, and what is added to the log is one entry for each of these, behind what is written
    while the item is read. -/
theorem log_perform_program (text : String) (operations : List Operation) :
    let p := (new text).performAll operations
    let rounds := Rule.roundsOf (fun _ => false) (Item.read maxNesting).recovering p.cursor
    (Item.readProgram.run p.cursor).value =
      rounds.flatMap (fun r => ((Item.read maxNesting).recovering.run r.1).value.toList) ∧
    (p.perform .program).tally.log = p.tally.log ++
      rounds.flatMap fun r => Counted.item.recovering.logged 0 r.1 ++ [.round r.1 r.2] := by
  intro p rounds
  have hp : (new text).Steps p := steps_performAll rfl operations
  have hlogged : Operation.program.counted.logged 0 p.cursor = Counted.program.logged 0 p.cursor := rfl
  refine ⟨Rule.value_rounds _ _ p.cursor, ?_⟩
  rw [perform_eq hp.tally.depth, hlogged, logged_program]
  rfl

/-- Parentheses raise the counter, and it is lowered again, also where the expression is not complete. -/
example : ((new "f((1, ").perform .expression).tally.log.filterMap (fun
    | .nesting depth => some depth
    | .round _ _ => none) = [1, 2, 3, 2, 1, 2, 1, 0] := by
  decide +kernel

end Parser

end FourthGen
