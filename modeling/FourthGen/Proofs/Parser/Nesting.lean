import FourthGen.Proofs.Parser.Ensures
import FourthGen.Proofs.Parser.Completeness
import FourthGen.Proofs.Parser.Soundness
import FourthGen.Proofs.Token.Munch

set_option autoImplicit false

/-! # The height of parsed trees

The room for nesting bounds how high the trees get that the parser builds. Blocks, parentheses and right
operands use up room, and the trees in them are read with what is left. The operators of a chain use
up room as well, but only for the operands to their right: how high the tree to their left is already
is not looked at, and every operator puts one more node on top of it. So a chain of operators on top of
a chain of operators, and so on, is as high as the sum of their lengths (`tallest`), and a tree can be
higher than the room that there is (`parse_tower`). Where no left operand is higher than the right
operand beside it, trees stay within the room (`Item.height_eq_of_rightHeavy`). -/

namespace FourthGen

/-! ## Heights -/

section

variable {ρ : Type}

mutual

/-- The number of nodes on the longest path from the root of an expression to a leaf. What takes up no
    room counts `weight`: a step to a left operand, and a placeholder. -/
def Expr.height (weight : Nat) : Expr ρ → Nat
  | .identifier _ _ => 1
  | .literal _ _ => 1
  | .binary _ _ left right => max (left.height weight + weight) (right.height weight + 1)
  | .call _ _ args => Expr.heightAll weight args + 1
  | .error _ => weight

/-- The height of the highest expression. -/
def Expr.heightAll (weight : Nat) : List (Expr ρ) → Nat
  | [] => 0
  | e :: es => max (e.height weight) (Expr.heightAll weight es)

end

mutual

/-- The number of blocks and of nodes of expressions on the longest path from a statement to a leaf. -/
def Stmt.height (weight : Nat) : Stmt ρ → Nat
  | .define _ _ => 0
  | .assign _ _ value => value.height weight
  | .conditional _ condition thenBlock elseBlock =>
    max (condition.height weight)
      (max (Stmt.blockHeight weight thenBlock) (Stmt.blockHeight weight elseBlock))
  | .whileLoop _ condition body => max (condition.height weight) (Stmt.blockHeight weight body)
  | .forLoop _ body => Stmt.blockHeight weight body
  | .call _ _ args => Expr.heightAll weight args
  | .giveBack _ none => 0
  | .giveBack _ (some value) => value.height weight
  | .sql _ _ => 0
  | .expression _ value => value.height weight

/-- The height of a block, which counts on every path to one of its statements. -/
def Stmt.blockHeight (weight : Nat) : List (Stmt ρ) → Nat
  | [] => 0
  | s :: ss => max (s.height weight + 1) (Stmt.blockHeight weight ss)

end

/-- The number of blocks and of nodes of expressions on the longest path from an item to a leaf. -/
def Item.height (weight : Nat) : Item ρ → Nat
  | .function _ _ _ _ body => Stmt.blockHeight weight body
  | .procedure _ _ _ body => Stmt.blockHeight weight body
  | .statement stmt => stmt.height weight

theorem Expr.height_withRange (weight : Nat) (r : ρ) (e : Expr ρ) :
    (e.withRange r).height weight = e.height weight := by
  cases e <;> rfl

theorem Expr.heightAll_le {weight n : Nat} {es : List (Expr ρ)}
    (h : ∀ e ∈ es, e.height weight ≤ n) : Expr.heightAll weight es ≤ n := by
  induction es with
  | nil => exact Nat.zero_le n
  | cons e es ih =>
      rw [List.forall_mem_cons] at h
      exact Nat.max_le.2 ⟨h.1, ih h.2⟩

theorem Stmt.blockHeight_le {weight n : Nat} {ss : List (Stmt ρ)}
    (h : ∀ s ∈ ss, s.height weight < n) : Stmt.blockHeight weight ss ≤ n := by
  induction ss with
  | nil => exact Nat.zero_le n
  | cons s ss ih =>
      rw [List.forall_mem_cons] at h
      exact Nat.max_le.2 ⟨h.1, ih h.2⟩

end

/-- The height of the highest expression that there is room for: a chain with as many operators as
    there is room left, with the highest expression for the room left at its left end. -/
def tallest (weight : Nat) : Nat → Nat
  | 0 => 0
  | room + 1 => tallest weight room + weight * room + 1

theorem tallest_mono (weight : Nat) {room total : Nat} (h : room ≤ total) :
    tallest weight room ≤ tallest weight total := by
  induction h with
  | refl => exact Nat.le_refl _
  | step _ ih =>
      rw [tallest]
      omega

/-- Apart from left operands, an expression is as high as there is room. -/
theorem tallest_zero (room : Nat) : tallest 0 room = room := by
  induction room with
  | zero => rfl
  | succ room ih => rw [tallest, ih, Nat.zero_mul, Nat.add_zero]

theorem two_mul_tallest_one (room : Nat) : 2 * tallest 1 room = room * (room + 1) := by
  induction room with
  | zero => rfl
  | succ room ih =>
      rw [tallest]
      simp only [Nat.add_mul, Nat.mul_add] at ih ⊢
      omega

theorem tallest_one (room : Nat) : tallest 1 room = room * (room + 1) / 2 := by
  rw [← two_mul_tallest_one, Nat.mul_div_cancel_left _ (by decide)]

/-! ## Expressions -/

namespace Expr

variable {weight : Nat}

section

variable {inner : Attempt (Expr Range)} {n : Nat}
  (hinner : ∀ s, Attempt.Ensures inner s fun e _ => e.height weight ≤ n)

include hinner

theorem argumentsBy_height (s : Cursor) :
    Attempt.Ensures (argumentsBy inner) s fun es _ => ∀ e ∈ es, e.height weight ≤ n := by
  have hclose (args : List (Expr Range)) (t : Cursor) (hargs : ∀ e ∈ args, e.height weight ≤ n) :
      Attempt.Ensures
        (do let _ ← Rule.expect (.symbol .rightParen) (.missingCloser .arguments); return args) t
        fun es _ => ∀ e ∈ es, e.height weight ≤ n := by
    refine Attempt.ensures_behind fun _ u => ?_
    exact Attempt.ensures_pure hargs
  have hone (s : Cursor) : Attempt.Ensures inner s fun e _ => ∀ x ∈ [e], x.height weight ≤ n := by
    refine (hinner s).mono fun e t he => ?_
    simpa using he
  unfold argumentsBy
  refine Attempt.ensures_ask ?_
  split
  · exact Attempt.Ensures.bind (Attempt.ensures_pure (by simp)) hclose
  · exact ((Path.forAll fun e => e.height weight ≤ n).attempts hone s).bind hclose

/-- An operand is at most one node higher than what stands in its parentheses. -/
theorem primaryBy_height (s : Cursor) :
    Attempt.Ensures (primaryBy inner) s fun e _ => e.height weight ≤ n + 1 := by
  have hleaf : 1 ≤ n + 1 := Nat.le_add_left 1 n
  unfold primaryBy
  refine Attempt.ensures_ask ?_
  split
  · refine Attempt.ensures_behind fun _ t => ?_
    exact Attempt.ensures_pure hleaf
  · refine Attempt.ensures_behind fun _ t => ?_
    exact Attempt.ensures_pure hleaf
  · refine Attempt.ensures_behind fun _ t => ?_
    refine Attempt.ensures_behind fun called u => ?_
    cases called with
    | false => exact Attempt.ensures_pure hleaf
    | true =>
        refine (argumentsBy_height hinner u).bind fun args v hargs => ?_
        refine Attempt.ensures_behind fun r w => ?_
        exact Attempt.ensures_pure (Nat.succ_le_succ (heightAll_le hargs))
  · refine Attempt.ensures_behind fun _ t => ?_
    refine (hinner t).bind fun e u he => ?_
    refine Attempt.ensures_behind fun _ v => ?_
    refine Attempt.ensures_behind fun r w => ?_
    refine Attempt.ensures_pure ?_
    rw [height_withRange]
    exact Nat.le_succ_of_le he
  · exact Attempt.ensures_fail

end

variable (weight) in
/-- Every operator puts a node on top of what stands to its left, and its right operand is read with the
    room that is left. -/
theorem read_height (room : Nat) (s : Cursor) :
    Attempt.Ensures (read room) s fun e _ => e.height weight ≤ tallest weight room := by
  refine ensures_readBinding (R := fun room _ e _ => e.height weight ≤ tallest weight room)
    (L := fun total room _ e _ =>
      e.height weight ≤ tallest weight total + 1 + weight * (total - room)) ?_ ?_ ?_ room 0 s
  · intro total room _ e _ he
    have hlinks : weight * (total - room) ≤ weight * total := Nat.mul_le_mul_left _ (Nat.sub_le _ _)
    rw [tallest]
    omega
  · intro total room _ left _ _ _ right _ hleft _ hright hle
    have hroom := tallest_mono weight hle
    have hlinks : weight * (total - room) = weight * (total - (room + 1)) + weight := by
      rw [← Nat.mul_succ]
      congr 1
      omega
    simp only [height]
    omega
  · intro room inner hinner s
    rw [Nat.sub_self, Nat.mul_zero, Nat.add_zero]
    exact primaryBy_height hinner s

end Expr

/-! ## Statements and items -/

/-- The height of the highest statement that there is room for. In the innermost block there can be a
    placeholder for an expression that there is no room for. -/
def tallestStmt (weight room : Nat) : Nat := max (tallest weight room) (room + weight)

section

variable (weight room : Nat)

theorem tallestStmt_lt : tallestStmt weight room < tallestStmt weight (room + 1) := by
  unfold tallestStmt
  rw [tallest]
  omega

theorem Expr.readOrError_height (s : Cursor) :
    (Expr.readOrError room).Ensures s fun e _ => e.height weight ≤ tallestStmt weight room := by
  refine Expr.ensures_readOrError ((Expr.read_height weight room s).mono fun e t he => ?_) ?_
  · exact Nat.le_trans he (Nat.le_max_left _ _)
  · intro r t _
    exact Nat.le_trans (Nat.le_add_left weight room) (Nat.le_max_right _ _)

namespace Stmt

variable {block : Rule (List (Stmt Range))}
  (hblock : ∀ s, block.Ensures s fun ss _ => blockHeight weight ss ≤ tallestStmt weight room)

theorem readAssign_height (s : Cursor) :
    (readAssign room).Ensures s fun stmt _ => stmt.height weight ≤ tallestStmt weight room := by
  unfold readAssign
  refine Rule.ensures_behind fun _ t => ?_
  refine Rule.ensures_behind fun _ u => ?_
  refine Rule.ensures_behind fun _ v => ?_
  refine (Expr.readOrError_height weight room v).bind fun e w he => ?_
  refine Rule.ensures_behind fun _ x => ?_
  exact Rule.ensures_pure he

include hblock in
theorem readConditional_height (s : Cursor) :
    (readConditional room block).Ensures s fun stmt _ =>
      stmt.height weight ≤ tallestStmt weight room := by
  unfold readConditional
  refine Rule.ensures_behind fun start t => ?_
  refine (Expr.readOrError_height weight room t).bind fun e u he => ?_
  refine Rule.ensures_behind fun _ v => ?_
  refine (hblock v).bind fun thenBlock w hthen => ?_
  -- what follows the second branch, which may be empty
  have hclose (elseBlock : List (Stmt Range)) (x : Cursor)
      (helse : blockHeight weight elseBlock ≤ tallestStmt weight room) :
      Rule.Ensures (do
          Rule.compoundEnd .conditional
          return .conditional (← Rule.upToHere start) e thenBlock elseBlock : Rule (Stmt Range)) x
        fun stmt _ => stmt.height weight ≤ tallestStmt weight room := by
    refine Rule.ensures_behind fun _ y => ?_
    refine Rule.ensures_behind fun _ z => ?_
    exact Rule.ensures_pure (Nat.max_le.2 ⟨he, Nat.max_le.2 ⟨hthen, helse⟩⟩)
  refine Rule.ensures_behind fun more x => ?_
  cases more with
  | true => exact (hblock x).bind hclose
  | false => exact Rule.Ensures.bind (Rule.ensures_pure (Nat.zero_le _)) hclose

include hblock in
theorem readWhile_height (s : Cursor) :
    (readWhile room block).Ensures s fun stmt _ => stmt.height weight ≤ tallestStmt weight room := by
  unfold readWhile
  refine Rule.ensures_behind fun _ t => ?_
  refine (Expr.readOrError_height weight room t).bind fun e u he => ?_
  refine (hblock u).bind fun body v hbody => ?_
  refine Rule.ensures_behind fun _ w => ?_
  refine Rule.ensures_behind fun _ x => ?_
  exact Rule.ensures_pure (Nat.max_le.2 ⟨he, hbody⟩)

include hblock in
theorem readFor_height (s : Cursor) :
    (readFor block).Ensures s fun stmt _ => stmt.height weight ≤ tallestStmt weight room := by
  unfold readFor
  refine Rule.ensures_behind fun _ t => ?_
  refine Rule.ensures_behind fun _ u => ?_
  refine (hblock u).bind fun body v hbody => ?_
  refine Rule.ensures_behind fun _ w => ?_
  refine Rule.ensures_behind fun _ x => ?_
  exact Rule.ensures_pure hbody

theorem readReturn_height (s : Cursor) :
    (readReturn room).Ensures s fun stmt _ => stmt.height weight ≤ tallestStmt weight room := by
  unfold readReturn
  refine Rule.ensures_behind fun _ t => ?_
  refine Rule.ensures_ask ?_
  split
  · refine Rule.ensures_behind fun _ u => ?_
    exact Rule.ensures_pure (Nat.zero_le _)
  · refine (Expr.readOrError_height weight room t).bind fun e u he => ?_
    refine Rule.ensures_behind fun _ v => ?_
    exact Rule.ensures_pure he

theorem readCall_height (s : Cursor) :
    Attempt.Ensures (readCall room) s fun stmt _ => stmt.height weight ≤ tallestStmt weight room := by
  unfold readCall
  refine Attempt.ensures_behind fun start t => ?_
  refine Attempt.ensures_behind fun name u => ?_
  -- what follows the arguments, which may be missing
  have hclose (args : List (Expr Range)) (v : Cursor)
      (hargs : ∀ e ∈ args, e.height weight ≤ tallest weight room) :
      Attempt.Ensures (do return .call (← Rule.upToHere start) name args : Attempt (Stmt Range)) v
        fun stmt _ => stmt.height weight ≤ tallestStmt weight room := by
    refine Attempt.ensures_behind fun _ w => ?_
    exact Attempt.ensures_pure (Nat.le_trans (Expr.heightAll_le hargs) (Nat.le_max_left _ _))
  refine Attempt.ensures_behind fun called v => ?_
  cases called with
  | true => exact (Expr.argumentsBy_height (Expr.read_height weight room) v).bind hclose
  | false => exact Attempt.Ensures.bind (Attempt.ensures_pure (by simp)) hclose

theorem readExpression_height (s : Cursor) :
    Attempt.Ensures (readExpression room) s fun stmt _ =>
      stmt.height weight ≤ tallestStmt weight room := by
  unfold readExpression
  refine (Expr.read_height weight room s).bind fun e t he => ?_
  exact Attempt.ensures_pure (Nat.le_trans he (Nat.le_max_left _ _))

include hblock in
theorem read_height (s : Cursor) :
    Attempt.Ensures (read room block) s fun stmt _ =>
      stmt.height weight ≤ tallestStmt weight room := by
  -- `DEFINE` and database statements have no expressions
  have hdefine : readDefine.Ensures s fun stmt _ => stmt.height weight ≤ tallestStmt weight room := by
    unfold readDefine
    refine Rule.ensures_behind fun _ t => ?_
    refine Rule.ensures_behind fun _ u => ?_
    refine Rule.ensures_behind fun _ v => ?_
    exact Rule.ensures_pure (Nat.zero_le _)
  have hsql (kind : SqlKind) :
      (readSql kind).Ensures s fun stmt _ => stmt.height weight ≤ tallestStmt weight room := by
    unfold readSql
    refine Rule.ensures_behind fun _ t => ?_
    refine Rule.ensures_behind fun _ u => ?_
    refine Rule.ensures_behind fun _ v => ?_
    exact Rule.ensures_pure (Nat.zero_le _)
  unfold read
  refine Attempt.ensures_ask ?_
  split
  · exact Attempt.ensures_lift hdefine
  · exact Attempt.ensures_lift (readAssign_height weight room s)
  · exact Attempt.ensures_lift (readConditional_height weight room hblock s)
  · exact Attempt.ensures_lift (readWhile_height weight room hblock s)
  · exact Attempt.ensures_lift (readFor_height weight room hblock s)
  · exact readCall_height weight room s
  · exact Attempt.ensures_lift (readReturn_height weight room s)
  · exact Attempt.ensures_lift (hsql .select)
  · exact Attempt.ensures_lift (hsql .insert)
  · exact Attempt.ensures_lift (hsql .update)
  · exact Attempt.ensures_lift (hsql .delete)
  · exact readExpression_height weight room s

/-- A block is as high as its statements and one more. -/
theorem readBlock_height (s : Cursor) :
    (readBlock room).Ensures s fun ss _ => blockHeight weight ss ≤ tallestStmt weight room := by
  induction room generalizing s with
  | zero => exact Nat.zero_le _
  | succ room ih =>
      have hstmt (s : Cursor) : Attempt.Ensures (read room (readBlock room)) s
          fun stmt _ => ∀ x ∈ [stmt], x.height weight < tallestStmt weight (room + 1) := by
        refine (read_height weight room ih s).mono fun stmt t hstmt => ?_
        rw [List.forall_mem_singleton]
        exact Nat.lt_of_le_of_lt hstmt (tallestStmt_lt weight room)
      have hpath := Path.forAll fun stmt : Stmt Range => stmt.height weight < tallestStmt weight (room + 1)
      rw [readBlock, Rule.defer_eq]
      refine (hpath.rounds (fun s => hpath.recovering (hstmt s)) stopsBlock s).mono fun ss t hss => ?_
      exact blockHeight_le hss

end Stmt

theorem Item.read_height (s : Cursor) :
    Attempt.Ensures (Item.read room) s fun item _ => item.height weight ≤ tallestStmt weight room := by
  have hfunction : (Item.readFunction room).Ensures s fun item _ =>
      item.height weight ≤ tallestStmt weight room := by
    unfold Item.readFunction
    refine Rule.ensures_behind fun _ t => ?_
    refine Rule.ensures_behind fun _ u => ?_
    refine Rule.ensures_behind fun _ v => ?_
    refine Rule.ensures_behind fun _ w => ?_
    refine (Stmt.readBlock_height weight room w).bind fun body x hbody => ?_
    refine Rule.ensures_behind fun _ y => ?_
    refine Rule.ensures_behind fun _ z => ?_
    exact Rule.ensures_pure hbody
  have hprocedure : (Item.readProcedure room).Ensures s fun item _ =>
      item.height weight ≤ tallestStmt weight room := by
    unfold Item.readProcedure
    refine Rule.ensures_behind fun _ t => ?_
    refine Rule.ensures_behind fun _ u => ?_
    refine Rule.ensures_behind fun _ v => ?_
    refine (Stmt.readBlock_height weight room v).bind fun body w hbody => ?_
    refine Rule.ensures_behind fun _ x => ?_
    refine Rule.ensures_behind fun _ y => ?_
    exact Rule.ensures_pure hbody
  unfold Item.read
  refine Attempt.ensures_ask ?_
  split
  · exact Attempt.ensures_lift hfunction
  · exact Attempt.ensures_lift hprocedure
  · refine Attempt.ensures_ask ?_
    split
    · exact Attempt.ensures_fail
    · refine (Stmt.read_height weight room (Stmt.readBlock_height weight room) s).bind ?_
      intro stmt t hstmt
      exact Attempt.ensures_pure hstmt

end

theorem Cursor.parse_height (weight : Nat) (s : Cursor) :
    ∀ item ∈ s.parse.items, item.height weight ≤ tallestStmt weight maxNesting := by
  have hitem (s : Cursor) : Attempt.Ensures (Item.read maxNesting) s
      fun item _ => ∀ x ∈ [item], x.height weight ≤ tallestStmt weight maxNesting := by
    refine (Item.read_height weight maxNesting s).mono fun item t hitem => ?_
    rw [List.forall_mem_singleton]
    exact hitem
  have hpath := Path.forAll fun item : Item Range => item.height weight ≤ tallestStmt weight maxNesting
  exact hpath.rounds (fun s => hpath.recovering (hitem s)) (fun _ => false) s

/-! ## Trees within the room -/

section

variable {ρ : Type}

mutual

/-- No left operand is higher than the right operand beside it, and there is no placeholder. -/
def Expr.rightHeavy : Expr ρ → Bool
  | .identifier _ _ => true
  | .literal _ _ => true
  | .binary _ _ left right =>
    decide (left.height 1 ≤ right.height 1) && left.rightHeavy && right.rightHeavy
  | .call _ _ args => Expr.allRightHeavy args
  | .error _ => false

/-- The same for several expressions. -/
def Expr.allRightHeavy : List (Expr ρ) → Bool
  | [] => true
  | e :: es => e.rightHeavy && Expr.allRightHeavy es

end

mutual

/-- In no expression of the statement a left operand is higher than the right operand beside it. -/
def Stmt.rightHeavy : Stmt ρ → Bool
  | .define _ _ => true
  | .assign _ _ value => value.rightHeavy
  | .conditional _ condition thenBlock elseBlock =>
    condition.rightHeavy && Stmt.allRightHeavy thenBlock && Stmt.allRightHeavy elseBlock
  | .whileLoop _ condition body => condition.rightHeavy && Stmt.allRightHeavy body
  | .forLoop _ body => Stmt.allRightHeavy body
  | .call _ _ args => Expr.allRightHeavy args
  | .giveBack _ none => true
  | .giveBack _ (some value) => value.rightHeavy
  | .sql _ _ => true
  | .expression _ value => value.rightHeavy

/-- The same for all statements of a block. -/
def Stmt.allRightHeavy : List (Stmt ρ) → Bool
  | [] => true
  | s :: ss => s.rightHeavy && Stmt.allRightHeavy ss

end

/-- In no expression of the item a left operand is higher than the right operand beside it. -/
def Item.rightHeavy : Item ρ → Bool
  | .function _ _ _ _ body => Stmt.allRightHeavy body
  | .procedure _ _ _ body => Stmt.allRightHeavy body
  | .statement stmt => stmt.rightHeavy

mutual

/-- The longest path in such a tree makes no step to a left operand. -/
theorem Expr.height_eq_of_rightHeavy (e : Expr ρ) (h : e.rightHeavy = true) :
    e.height 1 = e.height 0 := by
  match e with
  | .identifier _ _ => rfl
  | .literal _ _ => rfl
  | .binary _ _ left right =>
      simp only [Expr.rightHeavy, Bool.and_eq_true, decide_eq_true_eq] at h
      have hleft := Expr.height_eq_of_rightHeavy left h.1.2
      have hright := Expr.height_eq_of_rightHeavy right h.2
      simp only [Expr.height]
      omega
  | .call _ _ args =>
      have hargs := Expr.heightAll_eq_of_rightHeavy args h
      simp only [Expr.height, hargs]
  | .error _ => cases h

theorem Expr.heightAll_eq_of_rightHeavy (es : List (Expr ρ)) (h : Expr.allRightHeavy es = true) :
    Expr.heightAll 1 es = Expr.heightAll 0 es := by
  match es with
  | [] => rfl
  | e :: es =>
      rw [Expr.allRightHeavy, Bool.and_eq_true] at h
      simp only [Expr.heightAll, Expr.height_eq_of_rightHeavy e h.1,
        Expr.heightAll_eq_of_rightHeavy es h.2]

end

mutual

theorem Stmt.height_eq_of_rightHeavy (s : Stmt ρ) (h : s.rightHeavy = true) :
    s.height 1 = s.height 0 := by
  match s with
  | .define _ _ => rfl
  | .assign _ _ value => exact Expr.height_eq_of_rightHeavy value h
  | .conditional _ condition thenBlock elseBlock =>
      simp only [Stmt.rightHeavy, Bool.and_eq_true] at h
      simp only [Stmt.height, Expr.height_eq_of_rightHeavy condition h.1.1,
        Stmt.blockHeight_eq_of_rightHeavy thenBlock h.1.2,
        Stmt.blockHeight_eq_of_rightHeavy elseBlock h.2]
  | .whileLoop _ condition body =>
      simp only [Stmt.rightHeavy, Bool.and_eq_true] at h
      simp only [Stmt.height, Expr.height_eq_of_rightHeavy condition h.1,
        Stmt.blockHeight_eq_of_rightHeavy body h.2]
  | .forLoop _ body => exact Stmt.blockHeight_eq_of_rightHeavy body h
  | .call _ _ args => exact Expr.heightAll_eq_of_rightHeavy args h
  | .giveBack _ none => rfl
  | .giveBack _ (some value) => exact Expr.height_eq_of_rightHeavy value h
  | .sql _ _ => rfl
  | .expression _ value => exact Expr.height_eq_of_rightHeavy value h

theorem Stmt.blockHeight_eq_of_rightHeavy (ss : List (Stmt ρ)) (h : Stmt.allRightHeavy ss = true) :
    Stmt.blockHeight 1 ss = Stmt.blockHeight 0 ss := by
  match ss with
  | [] => rfl
  | s :: ss =>
      rw [Stmt.allRightHeavy, Bool.and_eq_true] at h
      simp only [Stmt.blockHeight, Stmt.height_eq_of_rightHeavy s h.1,
        Stmt.blockHeight_eq_of_rightHeavy ss h.2]

end

theorem Item.height_eq_of_rightHeavy (item : Item ρ) (h : item.rightHeavy = true) :
    item.height 1 = item.height 0 := by
  cases item with
  | function _ _ _ _ body => exact Stmt.blockHeight_eq_of_rightHeavy body h
  | procedure _ _ _ body => exact Stmt.blockHeight_eq_of_rightHeavy body h
  | statement stmt => exact Stmt.height_eq_of_rightHeavy stmt h

end

/-- Trees stay within the room where no left operand is higher than the right operand beside it. In
    general they do if steps to left operands and placeholders are not counted; if these are, trees
    are still no higher than the levels of nesting, each counted with all the levels inside it. -/
theorem parse_height_le (text : String) :
    (∀ item ∈ (parse text).items, item.rightHeavy = true → item.height 1 ≤ maxNesting) ∧
      ∀ item ∈ (parse text).items, item.height 0 ≤ maxNesting ∧
        item.height 1 ≤ maxNesting * (maxNesting + 1) / 2 := by
  have hzero : ∀ item ∈ (parse text).items, item.height 0 ≤ maxNesting := by
    intro item hitem
    have hle := Cursor.parse_height 0 _ item hitem
    rwa [tallestStmt, tallest_zero, Nat.add_zero, Nat.max_self] at hle
  refine ⟨?_, ?_⟩
  · intro item hitem hheavy
    rw [Item.height_eq_of_rightHeavy item hheavy]
    exact hzero item hitem
  · intro item hitem
    have hle := Cursor.parse_height 1 _ item hitem
    rw [tallestStmt, tallest_one] at hle
    exact ⟨hzero item hitem, hle⟩

theorem parse_height_le_comparison :
    ∃ item ∈ (parse "a = f(b)").items, item.rightHeavy = true ∧ item.height 1 ≤ maxNesting := by
  have hparse : (parse "a = f(b)").items.any Item.rightHeavy = true := by decide +kernel
  obtain ⟨item, hitem, hheavy⟩ := List.any_eq_true.1 hparse
  exact ⟨item, hitem, hheavy, (parse_height_le "a = f(b)").1 item hitem hheavy⟩

/-! ## The highest expression -/

mutual

theorem Expr.height_map {ρ σ : Type} (f : ρ → σ) (weight : Nat) (e : Expr ρ) :
    (e.map f).height weight = e.height weight := by
  match e with
  | .identifier _ _ => rfl
  | .literal _ _ => rfl
  | .binary _ _ left right =>
      simp only [Expr.map, Expr.height, Expr.height_map f weight left, Expr.height_map f weight right]
  | .call _ _ args => simp only [Expr.map, Expr.height, Expr.heightAll_mapAll f weight args]
  | .error _ => rfl

theorem Expr.heightAll_mapAll {ρ σ : Type} (f : ρ → σ) (weight : Nat) (es : List (Expr ρ)) :
    Expr.heightAll weight (Expr.mapAll f es) = Expr.heightAll weight es := by
  match es with
  | [] => rfl
  | e :: es =>
      simp only [Expr.mapAll, Expr.heightAll, Expr.height_map f weight e,
        Expr.heightAll_mapAll f weight es]

end

/-- The height of an item that is an expression. -/
theorem Item.height_of_shape {weight : Nat} {item : Item Range} {e : Expr Unit}
    (h : item.shape = .statement (.expression () e)) : item.height weight = e.height weight := by
  cases item with
  | function => cases h
  | procedure => cases h
  | statement stmt =>
      cases stmt with
      | expression _ value =>
          cases h
          exact (Expr.height_map _ weight value).symm
      | _ => cases h

/-- Comparisons with an empty string, one behind the other. -/
def links : Nat → List Char
  | 0 => []
  | n + 1 => '=' :: '\'' :: '\'' :: links n

/-- An expression that is as high as it can be with one level of nesting more than `n`: a call, with such
    an expression for one level less as its argument, at the left end of as many comparisons as there
    may be. -/
def tower : Nat → List Char
  | 0 => ['\'', '\'']
  | n + 1 => 'f' :: '(' :: (tower n ++ ')' :: links (n + 1))

namespace Lexeme

theorem cut_string (cs : List Char) :
    cut ('\'' :: '\'' :: cs) = token .stringLiteral ['\'', '\''] :: cut cs := by
  have hnext : next '\'' ('\'' :: cs) = (token .stringLiteral ['\'', '\''], cs) :=
    next_eq_token_iff.2 ⟨@TokenForm.string '\'' [] cs (.inr rfl) .nil, rfl⟩
  rw [cut_cons, hnext]

theorem cut_link (cs : List Char) :
    cut ('=' :: '\'' :: '\'' :: cs) =
      token (.symbol .assign) ['='] :: token .stringLiteral ['\'', '\''] :: cut cs := by
  have hnext : next '=' ('\'' :: '\'' :: cs) = (token (.symbol .assign) ['='], '\'' :: '\'' :: cs) := rfl
  rw [cut_cons, hnext, cut_string]

theorem cut_call (cs : List Char) :
    cut ('f' :: '(' :: cs) = token .identifier ['f'] :: token (.symbol .leftParen) ['('] :: cut cs := by
  have hkind : wordKind ['f'] = .identifier := by decide
  have hname : next 'f' ('(' :: cs) = (token (wordKind ['f']) ['f'], '(' :: cs) := rfl
  have hopen : next '(' cs = (token (.symbol .leftParen) ['('], cs) := symbol_of_char fun _ _ => rfl
  rw [cut_cons, hname, hkind, cut_cons, hopen]

theorem cut_close (cs : List Char) : cut (')' :: cs) = token (.symbol .rightParen) [')'] :: cut cs := by
  have hclose : next ')' cs = (token (.symbol .rightParen) [')'], cs) := symbol_of_char fun _ _ => rfl
  rw [cut_cons, hclose]

end Lexeme

open Grammar

/-- Comparisons lengthen the chain that stands before them, and make it higher by their number. -/
theorem chain_links (m : Nat) (l : Location) (rest : List Char) {k n : Nat} {ts : List Token}
    {left : Expr Unit} (h : Chain Operand 40 k n ts left) (hn : k + m < n)
    (hleft : 1 ≤ left.height 1) :
    ∃ (us : List Token) (e : Expr Unit) (l' : Location),
      l.tokens (Lexeme.cut (links m ++ rest)) = us ++ l'.tokens (Lexeme.cut rest) ∧
        Chain Operand 40 (k + m) n (ts ++ us) e ∧ e.height 1 = left.height 1 + m := by
  induction m generalizing l k ts left with
  | zero => exact ⟨[], left, l, rfl, by simpa using h, rfl⟩
  | succ m ih =>
      let equals := l.token (.symbol .assign) ['=']
      let empty := (l.after ['=']).token .stringLiteral ['\'', '\'']
      have hempty : Operand 1 [empty] (.literal () (.string empty.text)) := .string rfl
      have hlink : Chain Operand 40 (k + 1) n (ts ++ [equals, empty])
          (.binary () .eq left (.literal () (.string empty.text))) := by
        have hlink := @Chain.link Operand 40 k 0 n 1 ts [empty] equals .eq left _ h rfl (Nat.le_refl _)
          (.operand hempty)
        rwa [Nat.max_eq_left (by omega)] at hlink
      have hheight : (Expr.binary () .eq left (.literal () (.string empty.text))).height 1 =
          left.height 1 + 1 := by
        simp only [Expr.height]
        omega
      obtain ⟨us, e, l', htokens, hchain, he⟩ := ih ((l.after ['=']).after ['\'', '\'']) hlink (by omega)
        (by omega)
      refine ⟨equals :: empty :: us, e, l', ?_, ?_, by omega⟩
      · rw [links, List.cons_append, List.cons_append, List.cons_append, Lexeme.cut_link,
          Location.tokens, Location.tokens, htokens]
        rfl
      · rw [List.append_assoc, Nat.add_assoc, Nat.add_comm 1 m] at hchain
        exact hchain

/-- The tower is an expression, as high as expressions can be. -/
theorem expression_tower (n : Nat) (l : Location) (rest : List Char) :
    ∃ (x : Token) (ts : List Token) (e : Expr Unit) (l' : Location),
      l.tokens (Lexeme.cut (tower n ++ rest)) = x :: ts ++ l'.tokens (Lexeme.cut rest) ∧
        x.endsBlock = false ∧ Expression (n + 1) (x :: ts) e ∧ e.height 1 = tallest 1 (n + 1) := by
  induction n generalizing l rest with
  | zero =>
      let empty := l.token .stringLiteral ['\'', '\'']
      have hempty : Operand 1 [empty] (.literal () (.string empty.text)) := .string rfl
      refine ⟨empty, [], _, l.after ['\'', '\''], ?_, rfl, .mk (.operand hempty), rfl⟩
      rw [tower, List.cons_append, List.cons_append, Lexeme.cut_string]
      rfl
  | succ n ih =>
      let name := l.token .identifier ['f']
      let opening := (l.after ['f']).token (.symbol .leftParen) ['(']
      obtain ⟨x, ts, arg, l', htokens, -, harg, hheight⟩ :=
        ih ((l.after ['f']).after ['(']) (')' :: (links (n + 1) ++ rest))
      let closing := l'.token (.symbol .rightParen) [')']
      have hcall : Operand (n + 2) (name :: opening :: (x :: ts ++ [closing]))
          (.call () name.text [arg]) := .call rfl (.some rfl (.one harg) rfl)
      have hcallHeight : (Expr.call () name.text [arg]).height 1 = tallest 1 (n + 1) + 1 := by
        simp only [Expr.height, Expr.heightAll]
        omega
      have hword : Cursor.closingWords.any (Text.sameWord (String.ofList ['f'])) = false := by decide
      obtain ⟨us, e, l'', hlinks, hchain, he⟩ := chain_links (n + 1) (l'.after [')']) rest
        (.operand hcall) (by omega) (by omega)
      refine ⟨name, _, e, l'', ?_, hword, .mk (hchain.mono (Nat.zero_le _)), ?_⟩
      · rw [tower, List.cons_append, List.cons_append, List.append_assoc, List.cons_append,
          Lexeme.cut_call, Location.tokens, Location.tokens, htokens, Lexeme.cut_close,
          Location.tokens, hlinks]
        simp [name, opening, closing]
      · have hnext : tallest 1 (n + 1 + 1) = tallest 1 (n + 1) + 1 * (n + 1) + 1 := rfl
        omega

/-- With room for it, a tower is parsed without an error to an item as high as expressions can be. -/
theorem parse_tower {n : Nat} (hn : n < maxNesting) :
    (parse (String.ofList (tower n ++ ['\n']))).errors = [] ∧
      ∃ item ∈ (parse (String.ofList (tower n ++ ['\n']))).items,
        item.height 1 = tallest 1 (n + 1) := by
  obtain ⟨x, ts, e, l, htokens, hx, he, hheight⟩ := expression_tower n .zero ['\n']
  let lineFeed := l.token .newline ['\n']
  have hcut : l.tokens (Lexeme.cut ['\n']) = [lineFeed] := by
    have hnext : Lexeme.next '\n' [] = (.token .newline ['\n'], []) := rfl
    rw [Lexeme.cut_cons, hnext, Lexeme.cut_nil]
    rfl
  have htext : tokensOf (String.ofList (tower n ++ ['\n'])) = x :: ts ++ [lineFeed] := by
    rw [tokensOf, String.toList_ofList, htokens, hcut]
  have hgap : Grammar.Gap 1 [lineFeed] := by
    refine ⟨Nat.le_refl 1, ?_⟩
    rw [List.forall_mem_singleton]
    rfl
  have hprogram : Program 1 (n + 1) (tokensOf (String.ofList (tower n ++ ['\n'])))
      [.statement (.expression () e)] := by
    have hitem : TopLevel 1 (n + 1) (x :: ts) (.statement (.expression () e)) :=
      .statement (.expression hx he)
    have hlines := Lines.cons hitem hgap .nil
    rw [Nat.max_zero, List.append_nil, ← htext] at hlines
    exact @Program.mk 1 [] _ _ _ ⟨Nat.le_refl 0, by simp⟩ hlines
  obtain ⟨herrors, hitems⟩ := parseTokens_complete (fun _ h => ne_eof_of_mem_tokensOf h)
    (eofOf_kind _) hn hprogram
  rw [← tokenize_eq] at herrors hitems
  refine ⟨herrors, ?_⟩
  obtain ⟨item, hitem, hshape⟩ := List.map_eq_singleton_iff.1 hitems
  refine ⟨item, by rw [parse, hitem]; exact List.mem_singleton_self item, ?_⟩
  rw [← hheight, Item.height_of_shape hshape]

/-- Towers are the highest trees: with all the room that there is, one is parsed without an error, and is
    as high as trees can be. -/
theorem exists_height_eq :
    ∃ text, (parse text).errors = [] ∧
      ∃ item ∈ (parse text).items, item.height 1 = maxNesting * (maxNesting + 1) / 2 := by
  obtain ⟨herrors, item, hitem, hheight⟩ := @parse_tower 255 (by simp [maxNesting])
  rw [tallest_one] at hheight
  exact ⟨_, herrors, item, hitem, hheight⟩

/-- Already a tower with 23 levels of nesting is higher than there is room. -/
theorem height_tower_gt :
    (parse (String.ofList (tower 22 ++ ['\n']))).errors = [] ∧
      ∃ item ∈ (parse (String.ofList (tower 22 ++ ['\n']))).items, maxNesting < item.height 1 := by
  obtain ⟨herrors, item, hitem, hheight⟩ := @parse_tower 22 (by simp [maxNesting])
  refine ⟨herrors, item, hitem, ?_⟩
  rw [hheight]
  simp [tallest, maxNesting]

end FourthGen
