import FourthGen.Proofs.Parser.CleanRules
import FourthGen.Proofs.Parser.Counting

set_option autoImplicit false

/-! # The grammar with a counter

The rules of the grammar that nest, or that contain rules that do, with a counter for the depth of
nesting (`Counted`). A rule for a nested construct first compares the counter with the limit, and reads
with the counter raised. Rules call each other again only with the counter raised, or for one more
operator of a chain; `fuel` says how often they may, and there is always enough of it.

Every rule reads as the one without a counter does, with the room that the counter leaves. -/

namespace FourthGen

namespace Counted

/-! ## Expressions -/

/-- What stands between the parentheses of a call, the closing one included. -/
def argumentsBy (inner : CountedAttempt (Expr Range)) : CountedAttempt (List (Expr Range)) := do
  let args ← if (← Rule.peek).kind = .symbol .rightParen then pure [] else inner.commaList
  let _ ← Rule.expect (.symbol .rightParen) (.missingCloser .arguments)
  return args

/-- An operand: a literal, a name, a call, or a parenthesised expression. -/
def primaryBy (inner : CountedAttempt (Expr Range)) : CountedAttempt (Expr Range) := do
  let token ← Rule.peek
  match token.kind with
  | .stringLiteral =>
    let _ ← Rule.advance
    return .literal token.range (.string token.text)
  | .numberLiteral =>
    let _ ← Rule.advance
    return .literal token.range (.number token.text)
  | .identifier =>
    let _ ← Rule.advance
    if ← Rule.accept [.symbol .leftParen] then
      let args ← argumentsBy inner
      return .call (← Rule.upToHere token) token.text args
    else
      return .identifier token.range token.text
  | .symbol .leftParen =>
    let _ ← Rule.advance
    let e ← inner
    let _ ← Rule.expect (.symbol .rightParen) (.missingCloser .expression)
    return e.withRange (← Rule.upToHere token)
  | _ => CountedAttempt.ofAttempt (Attempt.fail .missingExpression)

mutual

/-- An expression whose operators bind at least as tightly as `least`. -/
def expressionBy : (fuel least : Nat) → CountedAttempt (Expr Range)
  | 0, _ => CountedAttempt.ofAttempt Attempt.tooDeep
  | fuel + 1, least => do
    if maxNesting ≤ (← depth) then
      CountedAttempt.ofAttempt Attempt.tooDeep
    else
      CountedAttempt.within 1 do
        chainBy fuel least 0 (← primaryBy (expressionBy fuel 0))

/-- The operators that follow the operand `left`, behind `links` others of the same chain. A right
    operand is read as deeply nested as the chain is long before it. -/
def chainBy : (fuel least links : Nat) → (left : Expr Range) → CountedAttempt (Expr Range)
  | 0, _, _, _ => CountedAttempt.ofAttempt Attempt.tooDeep
  | fuel + 1, least, links, left => do
    match ← Rule.operator? least with
    | none => return left
    | some op =>
      if maxNesting ≤ (← depth) + links then
        CountedAttempt.ofAttempt Attempt.tooDeep
      else
        let _ ← Rule.advance
        let right ← CountedAttempt.within links (expressionBy fuel (op.power + 1))
        chainBy fuel least (links + 1) (.binary (left.range.cover right.range) op left right)

end

/-- An expression, with as much fuel as expressions and chains of operators can nest. -/
def expression : CountedAttempt (Expr Range) := expressionBy (2 * maxNesting) 0

/-- An expression, or, if none can be read, a placeholder where the error was recorded. -/
def expressionOrError : Counted (Expr Range) := do
  match ← expression.run with
  | .ok e => return e
  | .error e =>
    Rule.record e
    return .error e.range

/-! ## Statements and blocks -/

/-- `LET a = expression` -/
def assign : Counted (Stmt Range) := do
  let start ← Rule.advance
  let target ← Rule.name .target
  let _ ← Rule.expect (.symbol .assign) .missingAssign
  let value ← expressionOrError
  return .assign (← Rule.upToHere start) target value

/-- `IF condition THEN block ELSE block ENDIF`, the second branch being optional. -/
def conditional (block : Counted (List (Stmt Range))) : Counted (Stmt Range) := do
  let start ← Rule.advance
  let condition ← expressionOrError
  let _ ← Rule.expect (.keyword .THEN) .missingThen
  let thenBlock ← block
  let elseBlock ← if ← Rule.accept [.keyword .ELSE] then block else pure []
  Rule.compoundEnd .conditional
  return .conditional (← Rule.upToHere start) condition thenBlock elseBlock

/-- `WHILE condition block ENDWHILE` -/
def whileLoop (block : Counted (List (Stmt Range))) : Counted (Stmt Range) := do
  let start ← Rule.advance
  let condition ← expressionOrError
  let body ← block
  Rule.compoundEnd .whileLoop
  return .whileLoop (← Rule.upToHere start) condition body

/-- `FOR header block ENDFOR` -/
def forLoop (block : Counted (List (Stmt Range))) : Counted (Stmt Range) := do
  let start ← Rule.advance
  Rule.skipLine
  let body ← block
  Rule.compoundEnd .forLoop
  return .forLoop (← Rule.upToHere start) body

/-- `CALL name(arguments)`, the arguments with their parentheses being optional. -/
def call : CountedAttempt (Stmt Range) := do
  let start ← Rule.advance
  let name ← Rule.name (.routine .function)
  let args ← if ← Rule.accept [.symbol .leftParen] then argumentsBy expression else pure []
  return .call (← Rule.upToHere start) name args

/-- `RETURN expression`, the expression being optional. -/
def giveBack : Counted (Stmt Range) := do
  let start ← Rule.advance
  if ← Rule.ask fun s => s.atEnd || s.kind.isSeparator || s.atBlockEnd then
    return .giveBack (← Rule.upToHere start) none
  else
    let value ← expressionOrError
    return .giveBack (← Rule.upToHere start) (some value)

/-- A statement that is an expression. -/
def bareExpression : CountedAttempt (Stmt Range) := do
  let e ← expression
  return .expression e.range e

/-- A statement, with its blocks read by `block`. -/
def statement (block : Counted (List (Stmt Range))) : CountedAttempt (Stmt Range) := do
  match (← Rule.peek).kind with
  | .keyword .DEFINE => Stmt.readDefine
  | .keyword .LET => assign
  | .keyword .IF => conditional block
  | .keyword .WHILE => whileLoop block
  | .keyword .FOR => forLoop block
  | .keyword .CALL => call
  | .keyword .RETURN => giveBack
  | .keyword .SELECT => Stmt.readSql .select
  | .keyword .INSERT => Stmt.readSql .insert
  | .keyword .UPDATE => Stmt.readSql .update
  | .keyword .DELETE => Stmt.readSql .delete
  | _ => bareExpression

/-- A block that is skipped, for it is nested too deeply. -/
def skippedBlock : Counted (List (Stmt Range)) := do
  Rule.complain .nestingTooDeep
  Rule.skipBlock
  return []

/-- A block of statements. -/
def blockBy : (fuel : Nat) → Counted (List (Stmt Range))
  | 0 => skippedBlock
  | fuel + 1 => do
    if maxNesting ≤ (← depth) then skippedBlock
    else within 1 (rounds Stmt.stopsBlock (statement (blockBy fuel)).recovering)

/-- A block of statements, with as much fuel as blocks can nest. -/
def block : Counted (List (Stmt Range)) := blockBy (maxNesting + 1)

/-! ## Declarations and programs -/

/-- `FUNCTION name(parameters) RETURNING type block END` -/
def function : Counted (Item Range) := do
  let start ← Rule.advance
  let name ← Rule.name (.routine .function)
  let params ← Rule.parameters .function
  let returns ← Rule.returning?
  let body ← block
  Rule.routineEnd .function
  return .function (← Rule.upToHere start) name params returns body

/-- `PROCEDURE name(parameters) block END` -/
def procedure : Counted (Item Range) := do
  let start ← Rule.advance
  let name ← Rule.name (.routine .procedure)
  let params ← Rule.parameters .procedure
  let body ← block
  Rule.routineEnd .procedure
  return .procedure (← Rule.upToHere start) name params body

/-- A top-level item. -/
def item : CountedAttempt (Item Range) := do
  let token ← Rule.peek
  match token.kind with
  | .keyword .FUNCTION => function
  | .keyword .PROCEDURE => procedure
  | _ =>
    if ← (Rule.ask Cursor.atBlockEnd : Rule Bool) then
      CountedAttempt.ofAttempt (Attempt.fail (.strayBlockEnd token.text))
    else
      return .statement (← statement block)

/-- The items of a program, up to the end of the text. -/
def program : Counted (List (Item Range)) := rounds (fun _ => false) item.recovering

end Counted

/-! ## Expressions read alike -/

open Counted

variable {d : Nat}

theorem follows_argumentsBy {inner : CountedAttempt (Expr Range)} {inner' : Attempt (Expr Range)}
    (h : FollowsAttempt d inner inner') :
    FollowsAttempt d (argumentsBy inner) (Expr.argumentsBy inner') := by
  refine (FollowsAttempt.lift Rule.peek).bind fun token => ?_
  have hclose (args : List (Expr Range)) :=
    (FollowsAttempt.lift (Rule.expect (.symbol .rightParen) (.missingCloser .arguments))).bind
      fun _ => @FollowsAttempt.pure _ d args
  exact .ite ((FollowsAttempt.pure []).bind hclose) (h.commaList.bind hclose)

theorem follows_primaryBy {inner : CountedAttempt (Expr Range)} {inner' : Attempt (Expr Range)}
    (h : FollowsAttempt d inner inner') :
    FollowsAttempt d (primaryBy inner) (Expr.primaryBy inner') := by
  refine (FollowsAttempt.lift Rule.peek).bind fun token => ?_
  generalize token.kind = kind
  cases kind with
  | stringLiteral => exact (FollowsAttempt.lift _).bind fun _ => .pure _
  | numberLiteral => exact (FollowsAttempt.lift _).bind fun _ => .pure _
  | identifier =>
      refine (FollowsAttempt.lift _).bind fun _ => ?_
      refine (FollowsAttempt.lift _).bind fun isCall => ?_
      refine .ite ?_ (.pure _)
      refine (follows_argumentsBy h).bind fun args => ?_
      exact (FollowsAttempt.lift _).bind fun _ => .pure _
  | symbol mark =>
      cases mark with
      | leftParen =>
          refine (FollowsAttempt.lift _).bind fun _ => ?_
          refine h.bind fun e => ?_
          refine (FollowsAttempt.lift _).bind fun _ => ?_
          exact (FollowsAttempt.lift _).bind fun _ => .pure _
      | _ => exact .ofAttempt _
  | _ => exact .ofAttempt _

/-- The right operand of an operator is an expression whose operators bind more tightly. -/
theorem Expr.chain_succ (room least : Nat) (left : Expr Range) :
    Expr.chain (room + 1) least left = (do
      match ← Rule.operator? least with
      | none => return left
      | some op =>
        let _ ← Rule.advance
        let right ← Expr.readBinding (room + 1) (op.power + 1)
        Expr.chain room least (.binary (left.range.cover right.range) op left right)) := by
  rw [Expr.chain]
  congr 1
  funext op
  cases op with
  | none => rfl
  | some op => simp only [Expr.readBinding, bind_assoc]

/-- With this much fuel, expressions read alike wherever twice the room is not more. -/
def ExpressionFollows (fuel : Nat) : Prop :=
  ∀ d room least, d + room = maxNesting → 2 * room ≤ fuel → 0 < fuel →
    FollowsAttempt d (expressionBy fuel least) (Expr.readBinding room least)

/-- With this much fuel, chains of operators read alike wherever twice the room is less. The links of a
    chain count as much as levels of nesting. -/
def ChainFollows (fuel : Nat) : Prop :=
  ∀ d links room least left, d + links + room = maxNesting → 2 * room < fuel →
    FollowsAttempt d (chainBy fuel least links left) (Expr.chain room least left)

theorem expressionFollows_succ {fuel : Nat} (hinner : ExpressionFollows fuel)
    (hchain : ChainFollows fuel) : ExpressionFollows (fuel + 1) := by
  intro d room least hd hfuel _
  rw [expressionBy]
  refine FollowsAttempt.depth ?_
  cases room with
  | zero =>
      rw [if_pos (by omega)]
      exact .ofAttempt Attempt.tooDeep
  | succ room =>
      rw [if_neg (by omega), Expr.readBinding, Expr.primary_eq]
      have hprimary := follows_primaryBy (hinner (d + 1) room 0 (by omega) (by omega) (by omega))
      have hrest (left : Expr Range) := hchain (d + 1) 0 room least left (by omega) (by omega)
      exact (hprimary.bind hrest).within (by omega)

theorem chainFollows_succ {fuel : Nat} (hright : ExpressionFollows fuel)
    (hnext : ChainFollows fuel) : ChainFollows (fuel + 1) := by
  intro d links room least left hd hfuel
  rw [chainBy]
  cases room with
  | zero =>
      rw [Expr.chain]
      refine (FollowsAttempt.lift _).bind fun op => ?_
      cases op with
      | none => exact .pure left
      | some op =>
          refine FollowsAttempt.depth ?_
          rw [if_pos (by omega)]
          exact .ofAttempt Attempt.tooDeep
  | succ room =>
      rw [Expr.chain_succ]
      refine (FollowsAttempt.lift _).bind fun op => ?_
      cases op with
      | none => exact .pure left
      | some op =>
          refine FollowsAttempt.depth ?_
          rw [if_neg (by omega)]
          refine (FollowsAttempt.lift _).bind fun _ => ?_
          have hoperand := hright (d + links) (room + 1) (op.power + 1) (by omega) (by omega) (by omega)
          refine (hoperand.within (by omega)).bind fun right => ?_
          exact hnext d (links + 1) room least _ (by omega) (by omega)

/-- Expressions and chains of operators read alike. -/
theorem expressionFollows_and_chainFollows (fuel : Nat) :
    ExpressionFollows fuel ∧ ChainFollows fuel := by
  induction fuel with
  | zero => exact ⟨fun _ _ _ _ _ h => by omega, fun _ _ _ _ _ _ h => by omega⟩
  | succ fuel ih => exact ⟨expressionFollows_succ ih.1 ih.2, chainFollows_succ ih.1 ih.2⟩

theorem follows_expression {room : Nat} (h : d + room = maxNesting) :
    FollowsAttempt d expression (Expr.read room) :=
  (expressionFollows_and_chainFollows (2 * maxNesting)).1 d room 0 h (by omega) (by decide)

theorem follows_expressionOrError {room : Nat} (h : d + room = maxNesting) :
    Follows d expressionOrError (Expr.readOrError room) := by
  refine Follows.bind (follows_expression h) fun result => ?_
  cases result with
  | ok e => exact .pure e
  | error e => exact (Follows.lift (Rule.record e)).bind fun _ => .pure _

/-! ## Statements and blocks read alike -/

section

variable {room : Nat} {block : Counted (List (Stmt Range))} {block' : Rule (List (Stmt Range))}

theorem follows_assign (h : d + room = maxNesting) : Follows d assign (Stmt.readAssign room) := by
  refine (Follows.lift _).bind fun start => ?_
  refine (Follows.lift _).bind fun target => ?_
  refine (Follows.lift _).bind fun _ => ?_
  refine (follows_expressionOrError h).bind fun value => ?_
  exact (Follows.lift _).bind fun range => .pure _

theorem follows_conditional (h : d + room = maxNesting) (hblock : Follows d block block') :
    Follows d (conditional block) (Stmt.readConditional room block') := by
  refine (Follows.lift _).bind fun start => ?_
  refine (follows_expressionOrError h).bind fun condition => ?_
  refine (Follows.lift _).bind fun _ => ?_
  refine hblock.bind fun thenBlock => ?_
  refine (Follows.lift _).bind fun hasElse => ?_
  have hend (elseBlock : List (Stmt Range)) : Follows d
      (do
        Rule.compoundEnd .conditional
        return Stmt.conditional (← Rule.upToHere start) condition thenBlock elseBlock)
      (do
        Rule.compoundEnd .conditional
        return Stmt.conditional (← Rule.upToHere start) condition thenBlock elseBlock) := by
    refine (Follows.lift _).bind fun _ => ?_
    exact (Follows.lift _).bind fun range => .pure _
  exact .ite (hblock.bind hend) ((Follows.pure []).bind hend)

theorem follows_whileLoop (h : d + room = maxNesting) (hblock : Follows d block block') :
    Follows d (whileLoop block) (Stmt.readWhile room block') := by
  refine (Follows.lift _).bind fun start => ?_
  refine (follows_expressionOrError h).bind fun condition => ?_
  refine hblock.bind fun body => ?_
  refine (Follows.lift _).bind fun _ => ?_
  exact (Follows.lift _).bind fun range => .pure _

theorem follows_forLoop (hblock : Follows d block block') :
    Follows d (forLoop block) (Stmt.readFor block') := by
  refine (Follows.lift _).bind fun start => ?_
  refine (Follows.lift _).bind fun _ => ?_
  refine hblock.bind fun body => ?_
  refine (Follows.lift _).bind fun _ => ?_
  exact (Follows.lift _).bind fun range => .pure _

theorem follows_call (h : d + room = maxNesting) : FollowsAttempt d call (Stmt.readCall room) := by
  refine (FollowsAttempt.lift _).bind fun start => ?_
  refine (FollowsAttempt.lift _).bind fun name => ?_
  refine (FollowsAttempt.lift _).bind fun hasArguments => ?_
  have hend (args : List (Expr Range)) : FollowsAttempt d
      (do return Stmt.call (← Rule.upToHere start) name args)
      (do return Stmt.call (← Rule.upToHere start) name args) :=
    (FollowsAttempt.lift _).bind fun range => .pure _
  exact .ite ((follows_argumentsBy (follows_expression h)).bind hend)
    ((FollowsAttempt.pure []).bind hend)

theorem follows_giveBack (h : d + room = maxNesting) : Follows d giveBack (Stmt.readReturn room) := by
  refine (Follows.lift _).bind fun start => ?_
  refine (Follows.lift _).bind fun isBare => ?_
  refine .ite ?_ ?_
  · exact (Follows.lift _).bind fun range => .pure _
  · refine (follows_expressionOrError h).bind fun value => ?_
    exact (Follows.lift _).bind fun range => .pure _

theorem follows_bareExpression (h : d + room = maxNesting) :
    FollowsAttempt d bareExpression (Stmt.readExpression room) :=
  (follows_expression h).bind fun _ => .pure _

theorem follows_statement (h : d + room = maxNesting) (hblock : Follows d block block') :
    FollowsAttempt d (statement block) (Stmt.read room block') := by
  refine (FollowsAttempt.lift Rule.peek).bind fun token => ?_
  generalize token.kind = kind
  cases kind with
  | keyword word =>
      cases word with
      | DEFINE => exact .lift _
      | LET => exact .ofFollows (follows_assign h)
      | IF => exact .ofFollows (follows_conditional h hblock)
      | WHILE => exact .ofFollows (follows_whileLoop h hblock)
      | FOR => exact .ofFollows (follows_forLoop hblock)
      | CALL => exact follows_call h
      | RETURN => exact .ofFollows (follows_giveBack h)
      | SELECT => exact .lift _
      | INSERT => exact .lift _
      | UPDATE => exact .lift _
      | DELETE => exact .lift _
      | _ => exact follows_bareExpression h
  | _ => exact follows_bareExpression h

end

theorem follows_skippedBlock : Follows d skippedBlock (Stmt.readBlock 0) := by
  rw [Stmt.readBlock]
  refine (Follows.lift _).bind fun _ => ?_
  exact (Follows.lift _).bind fun _ => .pure []

theorem follows_blockBy {fuel : Nat} {room : Nat} (h : d + room = maxNesting) (hfuel : room < fuel) :
    Follows d (blockBy fuel) (Stmt.readBlock room) := by
  induction fuel generalizing d room with
  | zero => omega
  | succ fuel ih =>
      rw [blockBy]
      refine Follows.depth ?_
      cases room with
      | zero =>
          rw [if_pos (by omega)]
          exact follows_skippedBlock
      | succ room =>
          have hd : d + 1 + room = maxNesting := by omega
          rw [if_neg (by omega), Stmt.readBlock]
          have hround := (follows_statement hd (ih hd (by omega))).recovering
          exact (hround.rounds (Stmt.advances_round room _)).within (by omega)

theorem follows_block {room : Nat} (h : d + room = maxNesting) : Follows d block (Stmt.readBlock room) :=
  follows_blockBy h (by omega)

/-! ## Declarations and programs read alike -/

theorem follows_function {room : Nat} (h : d + room = maxNesting) :
    Follows d function (Item.readFunction room) := by
  refine (Follows.lift _).bind fun start => ?_
  refine (Follows.lift _).bind fun name => ?_
  refine (Follows.lift _).bind fun params => ?_
  refine (Follows.lift _).bind fun returns => ?_
  refine (follows_block h).bind fun body => ?_
  refine (Follows.lift _).bind fun _ => ?_
  exact (Follows.lift _).bind fun range => .pure _

theorem follows_procedure {room : Nat} (h : d + room = maxNesting) :
    Follows d procedure (Item.readProcedure room) := by
  refine (Follows.lift _).bind fun start => ?_
  refine (Follows.lift _).bind fun name => ?_
  refine (Follows.lift _).bind fun params => ?_
  refine (follows_block h).bind fun body => ?_
  refine (Follows.lift _).bind fun _ => ?_
  exact (Follows.lift _).bind fun range => .pure _

theorem follows_item {room : Nat} (h : d + room = maxNesting) :
    FollowsAttempt d item (Item.read room) := by
  refine (FollowsAttempt.lift Rule.peek).bind fun token => ?_
  have hstatement : FollowsAttempt d
      (do
        if ← (Rule.ask Cursor.atBlockEnd : Rule Bool) then
          CountedAttempt.ofAttempt (Attempt.fail (.strayBlockEnd token.text))
        else
          return Item.statement (← statement block))
      (do
        if ← (Rule.ask Cursor.atBlockEnd : Rule Bool) then
          Attempt.fail (.strayBlockEnd token.text)
        else
          return Item.statement (← Stmt.read room (Stmt.readBlock room))) := by
    refine (FollowsAttempt.lift _).bind fun atBlockEnd => ?_
    refine .ite (.ofAttempt _) ?_
    exact (follows_statement h (follows_block h)).bind fun _ => .pure _
  generalize token.kind = kind
  cases kind with
  | keyword word =>
      cases word with
      | FUNCTION => exact .ofFollows (follows_function h)
      | PROCEDURE => exact .ofFollows (follows_procedure h)
      | _ => exact hstatement
  | _ => exact hstatement

/-- A program is read with the counter at zero. -/
theorem follows_program : Follows 0 program Item.readProgram :=
  (follows_item (Nat.zero_add maxNesting)).recovering.rounds (Item.advances_round maxNesting)

/-! ## What expressions, blocks and programs write to the log -/

/-- An expression that is not nested too deeply raises the counter by one level while its first operand
    and the operators behind it are read. -/
theorem logged_expressionBy {fuel room : Nat} (h : d + (room + 1) = maxNesting)
    (hfuel : 2 * (room + 1) ≤ fuel + 1) (least : Nat) (s : Cursor) :
    (expressionBy (fuel + 1) least).run.logged d s =
      .nesting (d + 1) ::
        (primaryBy (expressionBy fuel 0) >>= chainBy fuel least 0).run.logged (d + 1) s ++
        [.nesting d] := by
  obtain ⟨hinner, hchain⟩ := expressionFollows_and_chainFollows fuel
  have hprimary := follows_primaryBy (hinner (d + 1) room 0 (by omega) (by omega) (by omega))
  have hrest (left : Expr Range) := hchain (d + 1) 0 room least left (by omega) (by omega)
  rw [expressionBy, CountedAttempt.logged_depth, if_neg (by omega)]
  exact Follows.logged_within (hprimary.bind hrest) s

/-- A block that is not nested too deeply raises the counter by one level, and makes one round for each
    of its statements. -/
theorem logged_blockBy {fuel room : Nat} (h : d + (room + 1) = maxNesting) (hfuel : room < fuel)
    (s : Cursor) : (blockBy (fuel + 1)).logged d s =
      .nesting (d + 1) ::
        (Rule.roundsOf Stmt.stopsBlock (Stmt.read room (Stmt.readBlock room)).recovering s).flatMap
          (fun r => (statement (blockBy fuel)).recovering.logged (d + 1) r.1 ++ [.round r.1 r.2]) ++
        [.nesting d] := by
  have hd : d + 1 + room = maxNesting := by omega
  have hround := (follows_statement hd (follows_blockBy hd hfuel)).recovering
  rw [blockBy, logged_depth, if_neg (by omega),
    (hround.rounds (Stmt.advances_round room _)).logged_within, hround.logged_rounds]

/-- A program makes one round for each of its items. -/
theorem logged_program (s : Cursor) : program.logged 0 s =
    (Rule.roundsOf (fun _ => false) (Item.read maxNesting).recovering s).flatMap
      fun r => item.recovering.logged 0 r.1 ++ [.round r.1 r.2] :=
  (follows_item (Nat.zero_add maxNesting)).recovering.logged_rounds s

end FourthGen
