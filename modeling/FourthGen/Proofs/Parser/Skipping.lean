import FourthGen.Proofs.Parser.Rendering
import FourthGen.Proofs.Parser.Soundness

set_option autoImplicit false

/-! # Skipping a block agrees with reading it

A block that is nested too deeply is skipped. The skipping does not read statements. It goes by single
words, the block words: it counts those that open and those that close compound statements, and stops at
`ELSE` and the closing words, where it counts none open. So it finds the end of the block if the block
words are balanced (`Balanced.skipBlock_eq`).

In a block that is read cleanly they are balanced as far as they belong to its statements. The skipping
cannot tell other uses from these: words such as `END` are not reserved and can be names, at which it
stops at any depth, and the rest of a line that is not looked at may hold any word. Where no name is such
a word (`Stmt.names`), and no such word stands in the rest of a line (`plainRuns`), the end that the
skipping finds is the end that reading finds. -/

namespace FourthGen

open Grammar

/-! ## Block words -/

/-- A word by which the skipping of a block goes. -/
def Token.isBlockWord (x : Token) : Bool :=
  x.endsBlock || Cursor.opensCompound x.kind || x.kind == .keyword .FUNCTION ||
    x.kind == .keyword .PROCEDURE

namespace Token

variable {x : Token}

theorem isBlockWord_of_kind {k : TokenKind} (h : x.kind = k) (hk : k ≠ .identifier) :
    x.isBlockWord = (spelled k "").isBlockWord := by
  have hends : x.endsBlock = (spelled k "").endsBlock := by
    unfold endsBlock
    rw [h]
    show _ = match k with | _ => _
    split <;> simp_all [spelled]
  rw [isBlockWord, isBlockWord, hends, h]
  rfl

theorem isBlockWord_of_symbol {mark : Punctuation} (h : x.kind = .symbol mark) :
    x.isBlockWord = false := by
  rw [isBlockWord_of_kind h (by simp)]
  rfl

/-- Of the identifiers, the closing words are block words. -/
theorem isBlockWord_of_identifier (h : x.kind = .identifier) :
    x.isBlockWord = Cursor.closingWords.any (Text.sameWord x.text) := by
  have hword : x.isWord = Text.sameWord x.text := by
    funext word
    rw [isWord, h]
    rfl
  rw [isBlockWord, endsBlock, h, hword]
  show (Cursor.closingWords.any (Text.sameWord x.text) || false || false || false) = _
  simp only [Bool.or_false]

theorem isBlockWord_of_isPlainName (h : x.kind = .identifier) (hx : IsPlainName x.text) :
    x.isBlockWord = false := by
  rw [isBlockWord_of_identifier h, List.any_eq_false]
  intro word hword
  rw [hx word hword]
  decide

theorem isBlockWord_of_separator (h : x.kind.isSeparator = true) : x.isBlockWord = false := by
  unfold TokenKind.isSeparator at h
  split at h
  · next hk => rw [isBlockWord_of_kind hk (by decide)]; rfl
  · next hk => rw [isBlockWord_of_kind hk (by decide)]; rfl
  · cases h

theorem isBlockWord_of_binaryOp {op : BinaryOp} (h : x.kind.binaryOp? = some op) :
    x.isBlockWord = false := by
  generalize hk : x.kind = k at h
  unfold TokenKind.binaryOp? at h
  split at h
  all_goals first | (rw [isBlockWord_of_kind hk (by decide)]; rfl) | cases h

theorem isWord_end_of_not_blockWord (h : x.isBlockWord = false) : x.isWord "END" = false := by
  cases hw : x.isWord "END" with
  | false => rfl
  | true =>
      have hk := isWord_kind hw
      rw [isWord, Bool.and_eq_true] at hw
      rw [isBlockWord_of_identifier hk, List.any_eq_false] at h
      exact absurd hw.2 (h "END" (by decide))

end Token

/-- No block words are among the tokens. -/
def Plain (ts : List Token) : Prop := ∀ x ∈ ts, x.isBlockWord = false

theorem plain_cons {x : Token} {ts : List Token} :
    Plain (x :: ts) ↔ x.isBlockWord = false ∧ Plain ts := List.forall_mem_cons

theorem plain_append {ts us : List Token} : Plain (ts ++ us) ↔ Plain ts ∧ Plain us :=
  List.forall_mem_append

theorem plain_singleton {x : Token} : Plain [x] ↔ x.isBlockWord = false := List.forall_mem_singleton

/-! ## Skipping one word -/

namespace Cursor

variable {s t : Cursor} {x : Token}

theorem atBlockEnd_of_atCompoundEnd (h : s.atCompoundEnd = true) : s.atBlockEnd = true := by
  unfold atCompoundEnd at h
  split at h
  · next hk => simp [atBlockEnd, hk]
  · next hk => simp [atBlockEnd, hk]
  · next hk => simp [atBlockEnd, hk]
  · rw [Bool.and_eq_true] at h
    simp [atBlockEnd, kind_of_atWord h.1, closingWords, h.1]

/-- Any other token than a block word is passed. -/
theorem skipBlock_of_plain (hx : s.Takes [x] t) (h : x.isBlockWord = false) (opened : Nat) :
    s.skipBlock opened = t.skipBlock opened := by
  simp only [Token.isBlockWord, Bool.or_eq_false_iff, beq_eq_false_iff_ne] at h
  obtain ⟨⟨⟨hends, hopens⟩, hf⟩, hp⟩ := h
  have hend : s.atBlockEnd = false := by rw [atBlockEnd_eq, hx.peek_eq, hends]
  have hclose : s.atCompoundEnd = false := by
    rw [← Bool.not_eq_true]
    intro hc
    rw [atBlockEnd_of_atCompoundEnd hc] at hend
    cases hend
  have hroutine : s.atRoutine = false := by rw [atRoutine_eq_false, hx.kind_eq]; exact ⟨hf, hp⟩
  rw [skipBlock.eq_def, hx.atEnd_eq, hroutine, hclose, hend, hx.kind_eq, hopens, hx.advance_eq]
  simp

/-- A word that opens a compound statement is counted. -/
theorem skipBlock_of_opener (hx : s.Takes [x] t) (h : opensCompound x.kind = true) (opened : Nat) :
    s.skipBlock opened = t.skipBlock (opened + 1) := by
  have hk : s.kind = x.kind := hx.kind_eq
  have hword : s.atWord "END" = false := by
    rw [hx.atWord_eq, ← Bool.not_eq_true]
    intro hw
    rw [Token.isWord_kind hw] at h
    cases h
  rw [skipBlock.eq_def, hx.atEnd_eq, hk, h, hx.advance_eq]
  unfold opensCompound at h
  split at h
  · next hkx => simp [atRoutine, atCompoundEnd, atBlockEnd, hk, hkx, hword]
  · next hkx => simp [atRoutine, atCompoundEnd, atBlockEnd, hk, hkx, hword]
  · next hkx => simp [atRoutine, atCompoundEnd, atBlockEnd, hk, hkx, hword]
  · cases h

/-- Inside a compound statement, `ELSE` is passed. -/
theorem skipBlock_of_else (hx : s.Takes [x] t) (h : x.kind = .keyword .ELSE) (opened : Nat) :
    s.skipBlock (opened + 1) = t.skipBlock (opened + 1) := by
  have hk : s.kind = .keyword .ELSE := by rw [hx.kind_eq, h]
  have hword : s.atWord "END" = false := by rw [hx.atWord_eq, Token.isWord, h]; rfl
  rw [skipBlock.eq_def, hx.atEnd_eq, hx.check_eq, h, hk, hx.advance_eq]
  simp [atRoutine, atCompoundEnd, atBlockEnd, opensCompound, hk, hword]

/-- The end of a compound statement is counted. -/
theorem skipBlock_of_compoundEnd {c : Compound} {ends : List Token} (h : CompoundEnd c ends)
    (hts : s.Takes ends t) (opened : Nat) : s.skipBlock (opened + 1) = t.skipBlock opened := by
  cases h with
  | @short x h =>
      have hk : s.kind = .keyword c.closer := by rw [hts.kind_eq, h]
      have hword : s.atWord "END" = false := by rw [hts.atWord_eq, Token.isWord, h]; rfl
      rw [skipBlock.eq_def, hts.atEnd_eq, hword, hts.advance_eq]
      cases c <;> simp [atRoutine, atCompoundEnd, hk, Compound.closer]
  | @long x y h hy =>
      obtain ⟨u, hx, hu⟩ := takes_cons.1 hts
      have hk : s.kind = .identifier := by rw [hx.kind_eq, Token.isWord_kind h]
      have hword : s.atWord "END" = true := by rw [hx.atWord_eq, h]
      have hopens : opensCompound (s.peekNth 1).kind = true := by
        rw [hx.peekNth_one, hu.peek_eq, hy]
        cases c <;> rfl
      rw [skipBlock.eq_def, hx.atEnd_eq, hword, hx.advance_eq, hu.advance_eq]
      simp [atRoutine, atCompoundEnd, hk, hword, hopens]

/-- Where nothing is open, skipping stops wherever a block does. -/
theorem skipBlock_of_stop (h : (s.atEnd || Stmt.stopsBlock s) = true) : s.skipBlock 0 = s := by
  rw [skipBlock.eq_def]
  simp only [Stmt.stopsBlock, Bool.or_eq_true] at h
  rcases h with h | h | h
  · simp [h]
  · simp only [h, beq_self_eq_true, Bool.true_or, Bool.and_self, if_true]
    simp
  · simp [h]

end Cursor

/-! ## Balanced tokens -/

/-- Block words stand for compound statements inside each other and one behind the other. -/
inductive Balanced : List Token → Prop
  | plain {ts : List Token} (h : Plain ts) : Balanced ts
  | append {ts us : List Token} (h : Balanced ts) (k : Balanced us) : Balanced (ts ++ us)
  | compound {x : Token} {ts ends : List Token} {c : Compound}
      (ho : Cursor.opensCompound x.kind = true) (h : Balanced ts) (hc : CompoundEnd c ends) :
      Balanced (x :: (ts ++ ends))
  | divided {x else_ : Token} {ts us ends : List Token} {c : Compound}
      (ho : Cursor.opensCompound x.kind = true) (h : Balanced ts) (hl : else_.kind = .keyword .ELSE)
      (k : Balanced us) (hc : CompoundEnd c ends) : Balanced (x :: (ts ++ else_ :: (us ++ ends)))

namespace Balanced

/-- Skipping passes balanced tokens and has as many compound statements open as before. -/
theorem skipBlock_eq {ts : List Token} (h : Balanced ts) {s t : Cursor} (hts : s.Takes ts t)
    (opened : Nat) : s.skipBlock opened = t.skipBlock opened := by
  induction h generalizing s t opened with
  | @plain ts h =>
      induction ts generalizing s with
      | nil => rw [Cursor.takes_nil.1 hts]
      | cons x ts ih =>
          obtain ⟨u, hx, hu⟩ := Cursor.takes_cons.1 hts
          rw [Cursor.skipBlock_of_plain hx (plain_cons.1 h).1]
          exact ih (plain_cons.1 h).2 hu
  | append _ _ ih ih' =>
      obtain ⟨u, hu, hrest⟩ := Cursor.takes_append.1 hts
      rw [ih hu, ih' hrest]
  | compound ho _ hc ih =>
      obtain ⟨u, hx, hrest⟩ := Cursor.takes_cons.1 hts
      obtain ⟨v, hv, hends⟩ := Cursor.takes_append.1 hrest
      rw [Cursor.skipBlock_of_opener hx ho, ih hv, Cursor.skipBlock_of_compoundEnd hc hends]
  | divided ho _ hl _ hc ih ih' =>
      obtain ⟨u, hx, hrest⟩ := Cursor.takes_cons.1 hts
      obtain ⟨v, hv, hrest⟩ := Cursor.takes_append.1 hrest
      obtain ⟨w, hw, hrest⟩ := Cursor.takes_cons.1 hrest
      obtain ⟨y, hy, hends⟩ := Cursor.takes_append.1 hrest
      rw [Cursor.skipBlock_of_opener hx ho, ih hv, Cursor.skipBlock_of_else hw hl, ih' hy,
        Cursor.skipBlock_of_compoundEnd hc hends]

end Balanced

/-- The last of the tokens is not the word `END`, which takes the next word to itself. -/
def Closed (ts : List Token) : Prop := ∀ x ∈ ts.getLast?, x.isWord "END" = false

theorem closed_keyword {x : Token} {k : Keyword} (h : x.kind = .keyword k) (ts : List Token) :
    Closed (ts ++ [x]) := by
  intro y hy
  rw [List.getLast?_concat] at hy
  cases hy
  rw [Token.isWord, h]
  rfl

theorem closed_append {ts us : List Token} (h : Closed ts) (k : Closed us) : Closed (ts ++ us) := by
  intro x hx
  rw [List.getLast?_append] at hx
  cases hu : us.getLast? with
  | none =>
      rw [hu] at hx
      exact h x hx
  | some y =>
      rw [hu] at hx
      cases hx
      exact k x hu

theorem Plain.closed {ts : List Token} (h : Plain ts) : Closed ts := fun x hx =>
  Token.isWord_end_of_not_blockWord (h x (List.mem_of_getLast? hx))

theorem closed_compoundEnd {c : Compound} {ends : List Token} (h : CompoundEnd c ends)
    (ts : List Token) : Closed (ts ++ ends) := by
  cases h with
  | short h => exact closed_keyword h ts
  | @long x y _ hy =>
      rw [← List.singleton_append, ← List.append_assoc]
      exact closed_keyword hy _

theorem Balanced.closed {ts : List Token} (h : Balanced ts) : Closed ts := by
  induction h with
  | plain h => exact h.closed
  | append _ _ ih ih' => exact closed_append ih ih'
  | compound _ _ hc _ =>
      rw [← List.cons_append]
      exact closed_compoundEnd hc _
  | divided _ _ _ _ hc _ _ =>
      rw [← List.cons_append, ← List.cons_append, ← List.append_assoc]
      exact closed_compoundEnd hc _

/-! ## Names -/

mutual

/-- The names in an expression. -/
def Expr.names : Expr Unit → List String
  | .identifier _ name => [name]
  | .literal _ _ => []
  | .binary _ _ left right => left.names ++ right.names
  | .call _ name args => name :: Expr.namesAll args
  | .error _ => []

/-- The names in the expressions of a list. -/
def Expr.namesAll : List (Expr Unit) → List String
  | [] => []
  | e :: es => e.names ++ Expr.namesAll es

end

theorem Expr.namesAll_eq (es : List (Expr Unit)) : Expr.namesAll es = es.flatMap Expr.names := by
  induction es with
  | nil => rfl
  | cons e es ih => rw [Expr.namesAll, List.flatMap_cons, ih]

/-- The word that names the type of a variable, without the sizes behind it. -/
def Variable.typeWord (v : Variable Unit) : String :=
  String.ofList (v.type.toList.takeWhile (· != '('))

mutual

/-- The names in a statement: of variables, types and routines. -/
def Stmt.names : Stmt Unit → List String
  | .define _ vars => vars.flatMap fun v => [v.name, v.typeWord]
  | .assign _ target value => target :: value.names
  | .conditional _ condition thenBlock elseBlock =>
    condition.names ++ (Stmt.namesAll thenBlock ++ Stmt.namesAll elseBlock)
  | .whileLoop _ condition body => condition.names ++ Stmt.namesAll body
  | .forLoop _ body => Stmt.namesAll body
  | .call _ name args => name :: Expr.namesAll args
  | .giveBack _ none => []
  | .giveBack _ (some value) => value.names
  | .sql _ _ => []
  | .expression _ value => value.names

/-- The names in the statements of a block. -/
def Stmt.namesAll : List (Stmt Unit) → List String
  | [] => []
  | s :: ss => s.names ++ Stmt.namesAll ss

end

/-- None of the names is a closing word. -/
def PlainNames (names : List String) : Prop := ∀ name ∈ names, IsPlainName name

theorem plainNames_cons {name : String} {names : List String} :
    PlainNames (name :: names) ↔ IsPlainName name ∧ PlainNames names := List.forall_mem_cons

theorem plainNames_append {names names' : List String} :
    PlainNames (names ++ names') ↔ PlainNames names ∧ PlainNames names' := List.forall_mem_append

/-! ## Tokens of expressions and declared names -/

namespace Grammar

/-- The tokens of an item of a list are plain, where its names are; so are those of the list. -/
theorem CommaList.plain {α : Type} {G : Nat → List Token → α → Prop} {names : α → List String}
    {n : Nat} {ts : List Token} {as : List α} (h : CommaList G n ts as)
    (hG : ∀ ⦃m us a⦄, m ≤ n → G m us a → PlainNames (names a) → Plain us)
    (hnames : PlainNames (as.flatMap names)) : Plain ts := by
  induction h with
  | one h => exact hG (Nat.le_refl _) h (by simpa using hnames)
  | @more n m ts us comma a as h hc _ ih =>
      rw [List.flatMap_cons, plainNames_append] at hnames
      refine plain_append.2 ⟨hG (Nat.le_max_left n m) h hnames.1, ?_⟩
      refine plain_cons.2 ⟨Token.isBlockWord_of_symbol hc, ?_⟩
      exact ih (fun m' us a hle => hG (by omega)) hnames.2

theorem ParenList.plain {α : Type} {G : Nat → List Token → α → Prop} {names : α → List String}
    {n : Nat} {ts : List Token} {as : List α} (h : ParenList G n ts as)
    (hG : ∀ ⦃m us a⦄, m ≤ n → G m us a → PlainNames (names a) → Plain us)
    (hnames : PlainNames (as.flatMap names)) : Plain ts := by
  cases h with
  | none ho hc =>
      refine plain_cons.2 ⟨Token.isBlockWord_of_symbol ho, ?_⟩
      exact plain_singleton.2 (Token.isBlockWord_of_symbol hc)
  | some ho h hc =>
      refine plain_cons.2 ⟨Token.isBlockWord_of_symbol ho, plain_append.2 ⟨h.plain hG hnames, ?_⟩⟩
      exact plain_singleton.2 (Token.isBlockWord_of_symbol hc)

theorem Chain.plain {G : Nat → List Token → Expr Unit → Prop} {least k n : Nat} {ts : List Token}
    {e : Expr Unit} (h : Chain G least k n ts e)
    (hG : ∀ ⦃m us a⦄, m ≤ n → G m us a → PlainNames a.names → Plain us)
    (hnames : PlainNames e.names) : Plain ts := by
  induction h with
  | operand h => exact hG (Nat.le_refl _) h hnames
  | link _ hx _ _ ihl ihr =>
      rw [Expr.names, plainNames_append] at hnames
      refine plain_append.2 ⟨ihl (fun m us a hle => hG (by omega)) hnames.1, ?_⟩
      exact plain_cons.2
        ⟨Token.isBlockWord_of_binaryOp hx, ihr (fun m us a hle => hG (by omega)) hnames.2⟩

theorem Operand.plain {n : Nat} {ts : List Token} {e : Expr Unit} (h : Operand n ts e)
    (hnames : PlainNames e.names) : Plain ts := by
  induction n using Nat.strongRecOn generalizing ts e with
  | ind n ih =>
      have hphrase {m : Nat} (hm : m < n) ⦃us : List Token⦄ ⦃a : Expr Unit⦄ (ha : Expression m us a)
          (hus : PlainNames a.names) : Plain us := by
        obtain ⟨hc⟩ := ha
        exact hc.plain (fun m' us a hle hG hus => ih m' (by omega) hG hus) hus
      cases h with
      | string hk => exact plain_singleton.2 (by rw [Token.isBlockWord_of_kind hk (by decide)]; rfl)
      | number hk => exact plain_singleton.2 (by rw [Token.isBlockWord_of_kind hk (by decide)]; rfl)
      | name hk =>
          exact plain_singleton.2 (Token.isBlockWord_of_isPlainName hk (plainNames_cons.1 hnames).1)
      | call hk hs =>
          rw [Expr.names, plainNames_cons, Expr.namesAll_eq] at hnames
          refine plain_cons.2 ⟨Token.isBlockWord_of_isPlainName hk hnames.1, ?_⟩
          exact hs.plain (fun m us a hle ha hus => hphrase (by omega) ha hus) hnames.2
      | parens ho he hc =>
          refine plain_cons.2 ⟨Token.isBlockWord_of_symbol ho, ?_⟩
          refine plain_append.2 ⟨hphrase (by omega) he hnames, ?_⟩
          exact plain_singleton.2 (Token.isBlockWord_of_symbol hc)

/-- An expression has no block words but its names. -/
theorem Phrase.plain {n : Nat} {ts : List Token} {e : Expr Unit} (h : Expression n ts e)
    (hnames : PlainNames e.names) : Plain ts := by
  obtain ⟨hc⟩ := h
  exact hc.plain (fun _ _ _ _ ho => ho.plain) hnames

/-- A closing word contains no parenthesis, so that it is found again in front of the sizes of a type. -/
theorem isPlainName_of_typeWord {text sizes : String} (hsizes : sizes.toList.takeWhile (· != '(') = [])
    (h : IsPlainName (String.ofList ((text ++ sizes).toList.takeWhile (· != '(')))) :
    IsPlainName text := by
  have hnone : ∀ word ∈ Cursor.closingWords, '(' ∉ word.toList.map Char.toLower := by decide
  intro word hword
  rw [← Bool.not_eq_true]
  intro hsame
  have hparen : ∀ c ∈ text.toList, (c != '(') = true := by
    intro c hc
    rw [bne_iff_ne]
    rintro rfl
    apply hnone word hword
    rw [← eq_of_beq hsame]
    exact List.mem_map_of_mem hc
  rw [String.toList_append, List.takeWhile_append_of_pos hparen, hsizes, List.append_nil,
    String.ofList_toList] at h
  rw [h word hword] at hsame
  cases hsame

theorem TypeName.plain_tokens {ts : List Token} {type name : String} (h : TypeName ts type)
    (hword : IsPlainName (Variable.typeWord ⟨(), name, type⟩)) : Plain ts := by
  have htype {x : Token} (hk : (x.kind.isDataType || x.kind == .identifier) = true)
      (hx : IsPlainName x.text) : x.isBlockWord = false := by
    rw [Bool.or_eq_true, beq_iff_eq] at hk
    rcases hk with hk | hk
    · generalize hkind : x.kind = kind at hk
      unfold TokenKind.isDataType at hk
      split at hk
      · next word =>
        rw [Token.isBlockWord_of_kind hkind (by simp)]
        cases word <;> first | rfl | cases hk
      · cases hk
    · exact Token.isBlockWord_of_isPlainName hk hx
  cases h with
  | @plain x hk =>
      rw [Variable.typeWord, ← @String.append_empty x.text] at hword
      exact plain_singleton.2 (htype hk (isPlainName_of_typeWord rfl hword))
  | @sized x opening closing n us sizes hk ho hs hc =>
      rw [Variable.typeWord, String.append_assoc, String.append_assoc] at hword
      have hx := isPlainName_of_typeWord (by simp) hword
      have hsizes : Plain us := by
        refine @CommaList.plain _ _ (fun _ => []) _ _ _ hs ?_ ?_
        · rintro m vs size - ⟨hnumber⟩ -
          exact plain_singleton.2 (by rw [Token.isBlockWord_of_kind hnumber (by decide)]; rfl)
        · simp [PlainNames]
      refine plain_cons.2 ⟨htype hk hx, plain_cons.2 ⟨Token.isBlockWord_of_symbol ho, ?_⟩⟩
      exact plain_append.2 ⟨hsizes, plain_singleton.2 (Token.isBlockWord_of_symbol hc)⟩

theorem Declared.plain {n : Nat} {ts : List Token} {v : Variable Unit} (h : Declared n ts v)
    (hnames : PlainNames [v.name, v.typeWord]) : Plain ts := by
  obtain ⟨hk, htype⟩ := h
  rw [plainNames_cons, plainNames_cons] at hnames
  exact plain_cons.2 ⟨Token.isBlockWord_of_isPlainName hk hnames.1, htype.plain_tokens hnames.2.1⟩

end Grammar

/-! ## Parts of a line that are not looked at -/

/-- Whether the rest of the line behind a token is not looked at: the token opens a database statement,
    or it is a `FOR` that does not belong to `END FOR`. -/
def Token.opensRun (afterEnd : Bool) (x : Token) : Bool :=
  x.kind.isSqlStart || (!afterEnd && x.kind == .keyword .FOR)

/-- Whether no block word stands where tokens are not looked at. `afterEnd` tells whether the word `END`
    stands before the tokens. -/
def plainRuns : (afterEnd : Bool) → List Token → Bool
  | _, [] => true
  | afterEnd, x :: ts =>
    (!x.opensRun afterEnd || (ts.takeWhile (!·.kind.isSeparator)).all (!·.isBlockWord)) &&
      plainRuns (x.isWord "END") ts

theorem plainRuns_cons {b : Bool} {x : Token} {ts : List Token} :
    plainRuns b (x :: ts) = true ↔
      (x.opensRun b = true → Plain (ts.takeWhile (!·.kind.isSeparator))) ∧
        plainRuns (x.isWord "END") ts = true := by
  rw [plainRuns, Bool.and_eq_true]
  cases x.opensRun b <;> simp [Plain]

theorem plainRuns_append_left {b : Bool} {ts us : List Token} (h : plainRuns b (ts ++ us) = true) :
    plainRuns b ts = true := by
  induction ts generalizing b with
  | nil => rfl
  | cons x ts ih =>
      rw [List.cons_append, plainRuns_cons] at h
      refine plainRuns_cons.2 ⟨fun hx y hy => h.1 hx y ?_, ih h.2⟩
      rw [List.takeWhile_append]
      split
      · exact List.mem_append_left _ ((List.takeWhile_sublist _).mem hy)
      · exact hy

theorem plainRuns_append_right {b : Bool} {ts us : List Token} (h : plainRuns b (ts ++ us) = true)
    (hts : Closed ts) (hb : ts = [] → b = false) : plainRuns false us = true := by
  induction ts generalizing b with
  | nil => rwa [hb rfl] at h
  | cons x ts ih =>
      rw [List.cons_append, plainRuns_cons] at h
      refine ih h.2 ?_ ?_
      · intro y hy
        exact hts y (by rw [List.getLast?_cons, hy]; rfl)
      · rintro rfl
        exact hts x rfl

/-- Part of the tokens, behind others that do not end with `END`. -/
theorem plainRuns_middle {ts us vs : List Token} (h : plainRuns false (ts ++ (us ++ vs)) = true)
    (hts : Closed ts) : plainRuns false us = true :=
  plainRuns_append_left (plainRuns_append_right h hts fun _ => rfl)

theorem plain_of_opensRun {x : Token} {run ts : List Token}
    (h : plainRuns false (x :: (run ++ ts)) = true) (hx : x.opensRun false = true)
    (hrun : InLine run) : Plain run := by
  intro y hy
  have hline : ∀ z ∈ run, (!z.kind.isSeparator) = true := by
    intro z hz
    rw [hrun z hz]
    rfl
  apply (plainRuns_cons.1 h).1 hx
  rw [List.takeWhile_append_of_pos hline]
  exact List.mem_append_left _ hy

/-! ## Statements and blocks are balanced -/

namespace Grammar

variable {gap : Nat}

theorem Gap.plain {least : Nat} {g : List Token} (h : Gap least g) : Plain g :=
  fun x hx => Token.isBlockWord_of_separator (h.2 x hx)

theorem Lines.balanced {n : Nat} {ts : List Token} {body : List (Stmt Unit)}
    (h : Lines gap (Statement gap) n ts body)
    (hstmt : ∀ ⦃m us stmt⦄, m ≤ n → Statement gap m us stmt → PlainNames stmt.names →
      plainRuns false us = true → Balanced us)
    (hnames : PlainNames (Stmt.namesAll body)) (hruns : plainRuns false ts = true) : Balanced ts := by
  induction h with
  | nil => exact .plain (by simp [Plain])
  | @cons n m ts g us stmt body h hg _ ih =>
      rw [Stmt.namesAll, plainNames_append] at hnames
      have hfirst : Balanced ts :=
        hstmt (Nat.le_max_left n m) h hnames.1 (plainRuns_append_left hruns)
      have hgap := hg.plain
      rw [← List.append_assoc] at hruns
      have hrest : plainRuns false us = true :=
        plainRuns_append_right hruns (closed_append hfirst.closed hgap.closed) fun _ => rfl
      have hbody := ih (fun m' us stmt hle => hstmt (by omega)) hnames.2 hrest
      exact hfirst.append (.append (.plain hgap) hbody)

/-- A compound statement with one block is balanced if its header has no block words and its block is
    balanced. -/
theorem CompoundEnd.balanced {c : Compound} {ends : List Token} (hc : CompoundEnd c ends) {x : Token}
    (hx : Cursor.opensCompound x.kind = true) {header us : List Token} (hheader : Plain header)
    (hus : Balanced us) : Balanced (x :: (header ++ (us ++ ends))) := by
  have h := Balanced.compound hx (.append (.plain hheader) hus) hc
  rwa [List.append_assoc] at h

/-- A block is balanced if its statements, which have a level less, are. -/
theorem Block.balanced {n : Nat} {ts : List Token} {body : List (Stmt Unit)}
    (h : Block gap (Statement gap) n ts body)
    (hstmt : ∀ ⦃m us stmt⦄, m < n → Statement gap m us stmt → PlainNames stmt.names →
      plainRuns false us = true → Balanced us)
    (hnames : PlainNames (Stmt.namesAll body)) (hruns : plainRuns false ts = true) : Balanced ts := by
  obtain ⟨hg, hl⟩ := h
  have hgap := hg.plain
  refine .append (.plain hgap) (hl.balanced (fun m us stmt hle => hstmt (by omega)) hnames ?_)
  exact plainRuns_append_right hruns hgap.closed fun _ => rfl

theorem closed_header {x : Token} {k : Keyword} (hx : x.kind = .keyword k) {ts : List Token}
    (hts : Plain ts) : Closed (x :: ts) :=
  closed_append (closed_keyword hx []) hts.closed

/-- A statement whose block words are its own is balanced. -/
theorem Statement.balanced {n : Nat} {ts : List Token} {stmt : Stmt Unit} (h : Statement gap n ts stmt)
    (hnames : PlainNames stmt.names) (hruns : plainRuns false ts = true) : Balanced ts := by
  induction n using Nat.strongRecOn generalizing ts stmt with
  | ind n ih =>
      have hblock {m : Nat} (hm : m ≤ n) {us : List Token} {body : List (Stmt Unit)}
          (hb : Block gap (Statement gap) m us body) (hbody : PlainNames (Stmt.namesAll body))
          (hus : plainRuns false us = true) : Balanced us := by
        exact hb.balanced (fun m' us stmt hle hstmt => ih m' (by omega) hstmt) hbody hus
      have hkeyword {x : Token} {k : Keyword} (hk : x.kind = .keyword k)
          (hplain : (Token.spelled (.keyword k) "").isBlockWord = false) : x.isBlockWord = false := by
        rw [Token.isBlockWord_of_kind hk (by simp), hplain]
      cases h with
      | define hk hs =>
          exact .plain (plain_cons.2 ⟨hkeyword hk rfl, hs.plain (fun _ _ _ _ h => h.plain) hnames⟩)
      | assign hk ht ha he =>
          rw [Stmt.names, plainNames_cons] at hnames
          refine .plain (plain_cons.2 ⟨hkeyword hk rfl, plain_cons.2 ⟨?_, plain_cons.2 ⟨?_, ?_⟩⟩⟩)
          · exact Token.isBlockWord_of_isPlainName ht hnames.1
          · exact Token.isBlockWord_of_symbol ha
          · exact he.plain hnames.2
      | ifThen hk he ht hb hc =>
          rw [Stmt.names, plainNames_append, plainNames_append] at hnames
          have hheader := plain_append.2 ⟨he.plain hnames.1, plain_singleton.2 (hkeyword ht rfl)⟩
          rw [List.append_cons] at hruns ⊢
          have hthen := hblock (by omega) hb hnames.2.1
            (plainRuns_middle hruns (closed_header hk hheader))
          exact hc.balanced (by rw [hk]; rfl) hheader hthen
      | @ifThenElse n m k x then_ else_ ts us vs ends e thenBlock elseBlock hk he ht hb hl hd hc =>
          rw [Stmt.names, plainNames_append, plainNames_append] at hnames
          have hheader := plain_append.2 ⟨he.plain hnames.1, plain_singleton.2 (hkeyword ht rfl)⟩
          rw [List.append_cons] at hruns ⊢
          have hthen := hblock (by omega) hb hnames.2.1
            (plainRuns_middle hruns (closed_header hk hheader))
          rw [← List.append_assoc] at hruns ⊢
          have helse : Balanced vs := by
            rw [List.append_cons, ← List.cons_append] at hruns
            have hclosed := closed_keyword hl (x :: (ts ++ [then_] ++ us))
            exact hblock (by omega) hd hnames.2.2 (plainRuns_middle hruns hclosed)
          exact .divided (by rw [hk]; rfl) (.append (.plain hheader) hthen) hl helse hc
      | whileLoop hk he hb hc =>
          rw [Stmt.names, plainNames_append] at hnames
          have hcondition := he.plain hnames.1
          have hbody := hblock (by omega) hb hnames.2
            (plainRuns_middle hruns (closed_header hk hcondition))
          exact hc.balanced (by rw [hk]; rfl) hcondition hbody
      | forLoop hk hline hb hc =>
          have hheader := plain_of_opensRun hruns (by rw [Token.opensRun, hk]; rfl) hline
          have hbody := hblock (Nat.le_refl _) hb hnames
            (plainRuns_middle hruns (closed_header hk hheader))
          exact hc.balanced (by rw [hk]; rfl) hheader hbody
      | callName hk hn =>
          rw [Stmt.names, plainNames_cons] at hnames
          exact .plain (plain_cons.2
            ⟨hkeyword hk rfl, plain_singleton.2 (Token.isBlockWord_of_isPlainName hn hnames.1)⟩)
      | call hk hn hs =>
          rw [Stmt.names, plainNames_cons, Expr.namesAll_eq] at hnames
          refine .plain (plain_cons.2 ⟨hkeyword hk rfl, plain_cons.2 ⟨?_, ?_⟩⟩)
          · exact Token.isBlockWord_of_isPlainName hn hnames.1
          · exact hs.plain (fun _ _ _ _ h => h.plain) hnames.2
      | giveBackNothing hk => exact .plain (plain_singleton.2 (hkeyword hk rfl))
      | giveBack hk _ he => exact .plain (plain_cons.2 ⟨hkeyword hk rfl, he.plain hnames⟩)
      | @sql x ts kind hk hline =>
          have hopens : x.opensRun false = true := by
            rw [Token.opensRun, hk]
            cases kind <;> rfl
          rw [← List.append_nil ts] at hruns
          refine .plain (plain_cons.2 ⟨hkeyword hk ?_, plain_of_opensRun hruns hopens hline⟩)
          cases kind <;> rfl
      | expression _ he => exact .plain (he.plain hnames)

end Grammar

/-! ## Blocks -/

/-- Rounds go on up to the end or to where they are to stop. -/
theorem Rule.rounds_stops {α : Type} (stop : Cursor → Bool) (round : Rule (Option α)) (s : Cursor) :
    (((rounds stop round).run s).rest.atEnd || stop ((rounds stop round).run s).rest) = true := by
  show ((runRounds stop round s).rest.atEnd || stop (runRounds stop round s).rest) = true
  fun_induction runRounds stop round s with
  | case1 s start h => exact h
  | case2 s start _ r t ih => exact ih

/-- Tokens up to a cursor where the block stops, with balanced block words, are what is skipped. -/
theorem Balanced.skipBlock_zero {ts : List Token} (h : Balanced ts) {s t : Cursor} (hts : s.Takes ts t)
    (ht : (t.atEnd || Stmt.stopsBlock t) = true) : s.skipBlock 0 = t := by
  rw [h.skipBlock_eq hts, Cursor.skipBlock_of_stop ht]

/-- A clean reading of a block stops where a block ends. -/
theorem Stmt.readBlock_stops {room : Nat} {s t : Cursor} {body : List (Stmt Range)}
    (h : (Stmt.readBlock room).Clean s body t) : (t.atEnd || Stmt.stopsBlock t) = true := by
  cases room with
  | zero =>
      obtain ⟨_, _, hcomplain, -⟩ := Rule.clean_bind.1 h
      exact absurd hcomplain Rule.not_clean_complain
  | succ room =>
      have hstops := Rule.rounds_stops Stmt.stopsBlock
        (Attempt.recovering (Stmt.read room (Rule.defer fun _ => Stmt.readBlock room))) s
      rwa [show (Rule.rounds _ _).run s = ⟨body, [], t⟩ from h] at hstops

theorem Cursor.Reaches.eq_or_advance {s v : Cursor} (h : s.Reaches v) :
    v = s ∨ s.advance.Reaches v := by
  obtain ⟨ts, hts⟩ := Cursor.reaches_iff_takes.1 h
  cases ts with
  | nil => exact .inl (Cursor.takes_nil.1 hts)
  | cons x ts =>
      obtain ⟨u, hx, hu⟩ := Cursor.takes_cons.1 hts
      rw [hx.advance_eq]
      exact .inr (Cursor.reaches_iff_takes.2 ⟨ts, hu⟩)

/-- A closing word is a name, and blocks end at it. -/
theorem Cursor.ends_of_closingWord {v : Cursor} (hword : Cursor.closingWords.any v.atWord = true) :
    v.kind = .identifier ∧ v.atBlockEnd = true ∧ v.check (.keyword .ELSE) = false := by
  have hkind : v.kind = .identifier := by
    obtain ⟨word, -, hw⟩ := List.any_eq_true.1 hword
    exact Cursor.kind_of_atWord hw
  refine ⟨hkind, ?_, ?_⟩
  · rw [Cursor.atBlockEnd, hkind]
    exact hword
  · apply Cursor.check_eq_false
    rw [← Cursor.kind, hkind]
    decide

/-- A closing word that does not close a compound statement stops the skipping, however many of these are
    open. -/
theorem Cursor.skipBlock_reaches {v : Cursor} (hword : Cursor.closingWords.any v.atWord = true)
    (hv : v.atCompoundEnd = false) (opened : Nat) (s : Cursor) (h : s.Reaches v) :
    (s.skipBlock opened).Reaches v := by
  obtain ⟨hkind, hend, helse⟩ := Cursor.ends_of_closingWord hword
  fun_induction Cursor.skipBlock opened s with
  | case1 s _ => exact h
  | case2 s _ _ => exact h
  | case3 s hgo hclose opened ih =>
      apply ih
      obtain rfl | h := h.eq_or_advance
      · rw [hclose] at hv
        cases hv
      · split
        · next hfirst =>
          obtain rfl | h := h.eq_or_advance
          · -- the second word of `END IF` and the like is reserved
            simp only [Bool.or_eq_true, not_or, Bool.not_eq_true] at hgo
            obtain ⟨x, -, hx⟩ := Cursor.exists_takes_of_atEnd hgo.1
            have hopens : Cursor.opensCompound (s.peekNth 1).kind = true := by
              simpa [Cursor.atCompoundEnd, Cursor.kind_of_atWord hfirst, hfirst] using hclose
            rw [hx.peekNth_one, ← Cursor.kind, hkind] at hopens
            cases hopens
          · exact h
        · exact h
  | case4 opened s _ _ _ => exact h
  | case5 opened s _ _ hpass ih =>
      apply ih
      obtain rfl | h := h.eq_or_advance
      · simp [hend, helse] at hpass
      · exact h

/-- Skipping does not leave such a word. -/
theorem Cursor.skipBlock_eq_self {v : Cursor} (hword : Cursor.closingWords.any v.atWord = true)
    (hv : v.atCompoundEnd = false) (opened : Nat) : v.skipBlock opened = v := by
  obtain ⟨-, hend, helse⟩ := Cursor.ends_of_closingWord hword
  unfold Cursor.skipBlock
  simp [hv, hend, helse]

/-- A block that is read cleanly is skipped to the same place, if its names are no closing words and no
    block word stands in a part of a line that is not looked at. -/
theorem Stmt.skipBlock_of_clean {room : Nat} {s t : Cursor} {ts : List Token}
    {body : List (Stmt Range)} (he : s.eof.kind = .eof) (h : (Stmt.readBlock room).Clean s body t)
    (hts : s.Takes ts t) (hnames : PlainNames (Stmt.namesAll (body.map Stmt.shape)))
    (hruns : plainRuns false ts = true) : s.skipBlock 0 = t := by
  obtain ⟨n, us, -, hus, hblock⟩ := Stmt.readBlock_sound room he h
  obtain rfl : us = ts := List.append_cancel_right (hus.ahead.symm.trans hts.ahead)
  have hbalanced : Balanced us := hblock.balanced (fun _ _ _ _ hstmt => hstmt.balanced) hnames hruns
  exact hbalanced.skipBlock_zero hts (Stmt.readBlock_stops h)

/-- A block that is read cleanly is skipped to the same place, if its names are no closing words and no
    block word stands in a part of a line that is not looked at. So a block for which there is no room
    leaves the cursor where it would be left with room. In every block, the closing words stop the
    skipping, however many compound statements are open, except for the first word of `END IF`,
    `END WHILE` and `END FOR`. -/
theorem skipBlock_of_readBlock :
    (∀ (room : Nat) (s t : Cursor) (ts : List Token) (body : List (Stmt Range)),
      s.eof.kind = .eof → (Stmt.readBlock room).Clean s body t → s.Takes ts t →
      PlainNames (Stmt.namesAll (body.map Stmt.shape)) → plainRuns false ts = true →
        s.skipBlock 0 = t ∧ (Stmt.readBlock 0).run s = ⟨[], [s.errorHere .nestingTooDeep], t⟩) ∧
      ∀ v : Cursor, Cursor.closingWords.any v.atWord = true → v.atCompoundEnd = false →
        ∀ opened, v.skipBlock opened = v ∧ ∀ s : Cursor, s.Reaches v → (s.skipBlock opened).Reaches v := by
  constructor
  · intro room s t ts body he h hts hnames hruns
    have hskip := Stmt.skipBlock_of_clean he h hts hnames hruns
    refine ⟨hskip, ?_⟩
    rw [Stmt.readBlock, ← hskip]
    rfl
  · intro v hword hv opened
    exact ⟨Cursor.skipBlock_eq_self hword hv opened, Cursor.skipBlock_reaches hword hv opened⟩

/-- Statements inside each other, with one and with two closing words, with lines that are not looked at
    and with a second branch; the last `ELSE` ends the block. In the other text the skipping stops at
    the name. -/
theorem skipBlock_of_readBlock_nested :
    let s := Cursor.ofText
      "DEFINE a CHAR(9)\nIF f(a) THEN FOR i TO 9\nSELECT x\nEND FOR ELSE RETURN ENDIF ELSE"
    let t := ((Stmt.readBlock 4).run s).rest
    let v := (Cursor.ofText "LET END = 1\nENDIF").advance
    (s.Takes s.ahead.dropLast t ∧ t.kind = .keyword .ELSE ∧ s.skipBlock 0 = t ∧
      (Stmt.readBlock 0).run s = ⟨[], [s.errorHere .nestingTooDeep], t⟩) ∧
      v.peek.text = "END" ∧ v.skipBlock 3 = v := by
  intro s t v
  have hread : ((Stmt.readBlock 4).run s).recorded = [] ∧ s.ahead = s.ahead.dropLast ++ t.ahead ∧
      t.before = s.ahead.dropLast.reverse ++ s.before ∧ t.eof = s.eof ∧ s.eof.kind = .eof ∧
      t.kind = .keyword .ELSE ∧ plainRuns false s.ahead.dropLast = true ∧
      ∀ name ∈ Stmt.namesAll (((Stmt.readBlock 4).run s).value.map Stmt.shape),
        ∀ word ∈ Cursor.closingWords, Text.sameWord name word = false := by decide +kernel
  obtain ⟨hrecorded, hahead, hbefore, heof, he, hkind, hruns, hnames⟩ := hread
  have hclean : (Stmt.readBlock 4).Clean s ((Stmt.readBlock 4).run s).value t := by
    unfold Rule.Clean
    rw [← hrecorded]
  have htakes : s.Takes s.ahead.dropLast t := ⟨hahead, hbefore, heof⟩
  have hskip := skipBlock_of_readBlock.1 4 s t _ _ he hclean htakes hnames hruns
  have hname : v.peek.text = "END" ∧ Cursor.closingWords.any v.atWord = true ∧
      v.atCompoundEnd = false := by decide +kernel
  have hstop := skipBlock_of_readBlock.2 v hname.2.1 hname.2.2 3
  exact ⟨⟨htakes, hkind, hskip⟩, hname.1, hstop.1⟩

/-- A name that is a closing word: the block is read cleanly up to `ENDIF`, and skipped only up to the
    name. -/
theorem skipBlock_stops_at_name :
    let s := Cursor.ofText "LET END = 1\nENDIF"
    let t := ((Stmt.readBlock maxNesting).run s).rest
    s.eof.kind = .eof ∧ (∃ body, (Stmt.readBlock maxNesting).Clean s body t) ∧
      t.kind = .keyword .ENDIF ∧ s.skipBlock 0 ≠ t ∧ (s.skipBlock 0).atWord "END" = true := by
  intro s t
  have hread : ((Stmt.readBlock maxNesting).run s).recorded = [] ∧ s.eof.kind = .eof ∧
      t.kind = .keyword .ENDIF ∧ s.skipBlock 0 ≠ t ∧ (s.skipBlock 0).atWord "END" = true := by
    decide +kernel
  obtain ⟨hrecorded, heof, hkind, hskip⟩ := hread
  refine ⟨heof, ⟨((Stmt.readBlock maxNesting).run s).value, ?_⟩, hkind, hskip⟩
  unfold Rule.Clean
  rw [← hrecorded]

end FourthGen
