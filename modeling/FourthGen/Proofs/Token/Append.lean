import FourthGen.Proofs.Token.Munch

set_option autoImplicit false

/-! # Texts put together

Only a string literal runs past the end of a line. So at a line feed outside of string literals the lexer
cuts what stands before it and what follows as if each stood alone (`Lexeme.cut_lineFeed`), and what
follows a text that ends with such a line feed is cut as if it stood alone (`Lexeme.cut_append`). The
tokens of what follows are then the same tokens, moved down by the lines of the first text
(`tokensOf_append`). -/

namespace FourthGen

/-! ## Lexemes -/

namespace Lexeme

/-- Whether the text behind an opening quote has the quote that closes the literal. -/
def closes (quote : Char) : List Char → Bool
  | [] => false
  | c :: cs =>
    if c = quote then true
    else if c = '\\' then
      match cs with
      | [] => false
      | _ :: ds => closes quote ds
    else closes quote cs

/-- Whether a lexeme is a string literal without its closing quote. -/
def isOpen : Lexeme → Bool
  | token .stringLiteral (quote :: body) => !closes quote body
  | _ => false

/-- Whether the lexer is still within a string literal at the end of a text. -/
def endsInString (cs : List Char) : Bool := (cut cs).getLast?.any isOpen

theorem closes_quote (quote : Char) (cs : List Char) : closes quote (quote :: cs) = true := by
  rw [closes.eq_def]
  simp

theorem closes_escape {quote : Char} (h : '\\' ≠ quote) (d : Char) (ds : List Char) :
    closes quote ('\\' :: d :: ds) = closes quote ds := by
  rw [closes.eq_def]
  simp [h]

theorem closes_other {quote c : Char} (h : c ≠ quote) (h' : c ≠ '\\') (cs : List Char) :
    closes quote (c :: cs) = closes quote cs := by
  rw [closes.eq_def]
  simp [h, h']

theorem closes_stringBody (quote : Char) (cs : List Char) :
    closes quote (stringBody quote cs).1 = closes quote cs := by
  fun_induction stringBody quote cs with
  | case1 => rfl
  | case2 => rw [closes_quote, closes_quote]
  | case3 => rfl
  | case4 d ds body h ih => rw [closes_escape h, closes_escape h, ih]
  | case5 c cs h h' body ih => rw [closes_other h h', closes_other h h', ih]

/-- A literal without a closing quote takes the whole text. -/
theorem stringBody_of_not_closes {quote : Char} {cs : List Char} (h : closes quote cs = false) :
    (stringBody quote cs).2 = [] := by
  fun_induction stringBody quote cs with
  | case1 => rfl
  | case2 =>
    rw [closes_quote] at h
    cases h
  | case3 => rfl
  | case4 d ds body hq ih =>
    rw [closes_escape hq] at h
    exact ih h
  | case5 c cs hq hb body ih =>
    rw [closes_other hq hb] at h
    exact ih h

/-- A literal with its closing quote does not depend on what follows. -/
theorem stringBody_append_of_closes {quote : Char} {cs : List Char} (h : closes quote cs = true)
    (b : List Char) :
    stringBody quote (cs ++ b) = ((stringBody quote cs).1, (stringBody quote cs).2 ++ b) := by
  fun_induction stringBody quote cs with
  | case1 => cases h
  | case2 => rw [List.cons_append, stringBody_quote]
  | case3 hq =>
    rw [closes.eq_def] at h
    simp [hq] at h
  | case4 d ds body hq ih =>
    rw [closes_escape hq] at h
    rw [List.cons_append, List.cons_append, stringBody_escape hq, ih h]
  | case5 c cs hq hb body ih =>
    rw [closes_other hq hb] at h
    rw [List.cons_append, stringBody_plain hq hb, ih h]

/-! ### Before a line feed -/

/-- A run of characters none of which is a line feed ends at the next one. -/
theorem span_lineFeed {p : Char → Bool} (hp : p '\n' = false) (cs b : List Char) :
    (cs ++ '\n' :: b).takeWhile p = cs.takeWhile p ∧
      (cs ++ '\n' :: b).dropWhile p = cs.dropWhile p ++ '\n' :: b := by
  induction cs with
  | nil => simp [hp]
  | cons c cs ih =>
      cases hc : p c with
      | false => simp [hc]
      | true => simpa [hc] using ih

theorem startsComment_lineFeed (c : Char) (cs b : List Char) :
    startsComment c (cs ++ '\n' :: b) = startsComment c cs := by
  unfold startsComment
  cases cs <;> simp

theorem ofPair_lineFeed (c : Char) : Punctuation.ofPair? c '\n' = none := by
  unfold Punctuation.ofPair?
  split <;> simp_all

theorem symbol_lineFeed (c : Char) (cs b : List Char) :
    symbol c (cs ++ '\n' :: b) = ((symbol c cs).1, (symbol c cs).2 ++ '\n' :: b) := by
  cases cs with
  | nil => simp [symbol, ofPair_lineFeed]
  | cons d ds =>
      rw [List.cons_append, symbol, symbol]
      cases Punctuation.ofPair? c d <;> rfl

theorem next_lineFeed (cs : List Char) : next '\n' cs = (token .newline ['\n'], cs) := rfl

theorem isOpen_of_kind {x : Lexeme} (h : x.kind? ≠ some .stringLiteral) : x.isOpen = false := by
  unfold isOpen
  split
  · exact absurd rfl h
  · rfl

/-- The lexeme at the head of a text is an open literal if a quote stands there that nothing closes. -/
theorem isOpen_next (c : Char) (cs : List Char) :
    (next c cs).1.isOpen = (isQuote c && !closes c cs) := by
  cases hquote : isQuote c with
  | true => simp [next_of_quote (isQuote_iff.1 hquote), isOpen, closes_stringBody]
  | false =>
      apply isOpen_of_kind
      unfold next
      rw [hquote]
      split
      · simp [kind?]
      split
      · simp [kind?]
      split
      · next h => cases h
      split
      · simp [kind?]
      split
      · obtain hk | ⟨k, hk⟩ := wordKind_cases (c :: cs.takeWhile Text.isNameRest) <;>
          simp [kind?, hk]
      split
      · simp [kind?]
      · obtain hk | ⟨m, hk⟩ := symbol_kind_cases c cs <;> simp [hk]

/-- Unless it is an open literal, the lexeme at the head of a text ends at the next line feed. -/
theorem next_before_lineFeed {c : Char} {cs : List Char} (ho : (next c cs).1.isOpen = false)
    (b : List Char) :
    next c (cs ++ '\n' :: b) = ((next c cs).1, (next c cs).2 ++ '\n' :: b) := by
  cases hquote : isQuote c with
  | true =>
      have hcloses : closes c cs = true := by simpa [isOpen_next, hquote] using ho
      have hopens := next_of_quote (isQuote_iff.1 hquote)
      rw [hopens, hopens, stringBody_append_of_closes hcloses]
  | false =>
      obtain ⟨hblanks, hbehindBlanks⟩ := @span_lineFeed isBlank rfl cs b
      obtain ⟨hcomment, hbehindComment⟩ := @span_lineFeed (· != '\n') rfl cs b
      obtain ⟨hnumber, hbehindNumber⟩ := @span_lineFeed isNumberRest rfl cs b
      obtain ⟨hname, hbehindName⟩ := @span_lineFeed Text.isNameRest rfl cs b
      unfold next
      rw [startsComment_lineFeed, hquote, hblanks, hbehindBlanks, hcomment, hbehindComment, hnumber,
        hbehindNumber, hname, hbehindName, symbol_lineFeed]
      split
      · rfl
      split
      · rfl
      split
      · next h => cases h
      split
      · rfl
      split
      · rfl
      split
      · rfl
      · rfl

/-- Nothing follows an open literal. -/
theorem next_of_isOpen {c : Char} {cs : List Char} (h : (next c cs).1.isOpen = true) :
    (next c cs).2 = [] := by
  rw [isOpen_next, Bool.and_eq_true, Bool.not_eq_true'] at h
  rw [next_of_quote (isQuote_iff.1 h.1)]
  exact stringBody_of_not_closes h.2

theorem endsInString_cons (c : Char) (cs : List Char) :
    endsInString (c :: cs) = ((next c cs).1.isOpen || endsInString (next c cs).2) := by
  unfold endsInString
  rw [cut_cons, List.getLast?_cons]
  cases hrest : (next c cs).2 with
  | nil => simp [cut_nil]
  | cons d ds =>
      have hclosed : (next c cs).1.isOpen = false := by
        rw [Bool.eq_false_iff]
        intro hopen
        rw [next_of_isOpen hopen] at hrest
        cases hrest
      rw [hclosed, cut_cons, List.getLast?_cons]
      rfl

/-- Outside of string literals, a text is cut at a line feed as its two parts are. -/
theorem cut_lineFeed {a : List Char} (hs : endsInString a = false) (b : List Char) :
    cut (a ++ '\n' :: b) = cut a ++ token .newline ['\n'] :: cut b := by
  fun_induction cut a with
  | case1 => rw [List.nil_append, List.nil_append, cut_cons, next_lineFeed]
  | case2 c cs ih =>
    rw [endsInString_cons, Bool.or_eq_false_iff] at hs
    rw [List.cons_append, cut_cons, next_before_lineFeed hs.1, ih hs.2, List.cons_append]

theorem closes_lineFeed {quote : Char} (hq : quote ≠ '\n') (cs : List Char) :
    closes quote (cs ++ ['\n']) = closes quote cs := by
  fun_induction closes quote cs with
  | case1 => rw [List.nil_append, closes_other (Ne.symm hq) (by decide), closes]
  | case2 cs => rw [List.cons_append, closes_quote]
  | case3 h => rw [List.cons_append, List.nil_append, closes_escape h, closes]
  | case4 d ds h ih => rw [List.cons_append, List.cons_append, closes_escape h, ih]
  | case5 c cs h h' ih => rw [List.cons_append, closes_other h h', ih]

/-- A line feed neither opens nor closes a literal. -/
theorem endsInString_lineFeed (a : List Char) : endsInString (a ++ ['\n']) = endsInString a := by
  fun_induction cut a with
  | case1 =>
    rw [List.nil_append, endsInString_cons, next_lineFeed]
    rfl
  | case2 c cs ih =>
    rw [List.cons_append, endsInString_cons, endsInString_cons]
    cases hopen : (next c cs).1.isOpen with
    | false => rw [next_before_lineFeed hopen, hopen, ih]
    | true =>
        rw [isOpen_next, Bool.and_eq_true] at hopen
        have hne : c ≠ '\n' := by
          rintro rfl
          cases hopen.1
        rw [isOpen_next, closes_lineFeed hne, hopen.1, hopen.2]
        rfl

example : endsInString "LET a = 'b\n".toList = true := by decide +kernel

-- a quote in a comment opens nothing
example : endsInString "LET a = 'b' # it's\n".toList = false := by decide +kernel

/-! ### Behind a line feed -/

/-- Texts that are empty or end with a line feed. -/
def EndsLine (cs : List Char) : Prop := cs = [] ∨ cs.getLast? = some '\n'

/-- The last lexeme of a text that ends with a line feed, and not within a literal. -/
theorem cut_of_getLast? {a : List Char} (ha : a.getLast? = some '\n') (hs : endsInString a = false) :
    ∃ front, a = front ++ ['\n'] ∧ endsInString front = false ∧
      cut a = cut front ++ [token .newline ['\n']] := by
  obtain ⟨front, rfl⟩ := List.getLast?_eq_some_iff.1 ha
  rw [endsInString_lineFeed] at hs
  exact ⟨front, rfl, hs, by rw [cut_lineFeed hs, cut_nil]⟩

/-- What follows a text that ends with a line feed, and not within a literal, is cut as if it stood
    alone. -/
theorem cut_append {a : List Char} (ha : EndsLine a) (hs : endsInString a = false) (b : List Char) :
    cut (a ++ b) = cut a ++ cut b := by
  rcases ha with rfl | ha
  · rw [cut_nil, List.nil_append, List.nil_append]
  · obtain ⟨front, rfl, hfront, hcut⟩ := cut_of_getLast? ha hs
    rw [hcut, List.append_assoc, List.append_assoc, List.singleton_append, List.singleton_append,
      cut_lineFeed hfront]

end Lexeme

/-! ## Places further down -/

namespace Position

/-- The place `lines` lines further down. -/
def down (lines : Nat) (p : Position) : Position := ⟨p.line + lines, p.character⟩

theorem advance_down (lines : Nat) (p : Position) (c : Char) :
    (p.down lines).advance c = (p.advance c).down lines := by
  unfold advance
  split
  · simp only [down, mk.injEq, and_true]
    omega
  · rfl

theorem after_down (lines : Nat) (p : Position) (cs : List Char) :
    (p.down lines).after cs = (p.after cs).down lines := by
  induction cs generalizing p with
  | nil => rfl
  | cons c cs ih => rw [after_cons, after_cons, advance_down, ih]

theorem down_le_down {lines : Nat} {p q : Position} : p.down lines ≤ q.down lines ↔ p ≤ q := by
  simp only [le_def, down]
  omega

theorem down_inj {lines : Nat} {p q : Position} : p.down lines = q.down lines ↔ p = q := by
  obtain ⟨a, b⟩ := p
  obtain ⟨c, d⟩ := q
  simp [down]

/-- A line feed opens the next line, at its first column. -/
theorem after_of_getLast {cs : List Char} (h : cs.getLast? = some '\n') (p : Position) :
    p.after cs = ⟨p.line + cs.count '\n', 0⟩ := by
  have hline (q : Position) (ds : List Char) : (q.after ds).line = q.line + ds.count '\n' := by
    induction ds generalizing q with
    | nil => rfl
    | cons d ds ih =>
        rw [after_cons, ih, List.count_cons]
        unfold advance
        split
        · next hd =>
          simp only [hd, beq_self_eq_true, if_true]
          omega
        · next hd => simp [hd]
  obtain ⟨ds, rfl⟩ := List.getLast?_eq_some_iff.1 h
  rw [after_append, List.count_append, after_cons, after_nil, advance, if_pos rfl, hline]
  rfl

end Position

namespace Range

/-- The range `lines` lines further down. -/
def down (lines : Nat) (r : Range) : Range := ⟨r.start.down lines, r.stop.down lines⟩

theorem between_down (lines : Nat) (p q : Position) :
    between (p.down lines) (q.down lines) = (between p q).down lines := by
  unfold between
  simp only [Position.down_le_down]
  split <;> rfl

theorem cover_down (lines : Nat) (r s : Range) :
    (r.down lines).cover (s.down lines) = (r.cover s).down lines := by
  have hmin (p q : Position) : min (p.down lines) (q.down lines) = (min p q).down lines := by
    show (if p.down lines ≤ q.down lines then _ else _) = Position.down lines (if p ≤ q then p else q)
    simp only [Position.down_le_down]
    split <;> rfl
  have hmax (p q : Position) : max (p.down lines) (q.down lines) = (max p q).down lines := by
    show (if p.down lines ≤ q.down lines then _ else _) = Position.down lines (if p ≤ q then q else p)
    simp only [Position.down_le_down]
    split <;> rfl
  rw [cover, down, down, hmin, hmax]
  rfl

end Range

namespace Token

/-- The token `lines` lines and `bytes` bytes further down. -/
def down (lines bytes : Nat) (t : Token) : Token where
  kind := t.kind
  text := t.text
  span := ⟨t.span.start + bytes, t.span.stop + bytes⟩
  start := t.start.down lines
  stop := t.stop.down lines

theorem range_down (lines bytes : Nat) (t : Token) : (t.down lines bytes).range = t.range.down lines :=
  Range.between_down lines t.start t.stop

theorem errorRange_down (lines bytes : Nat) (t : Token) :
    (t.down lines bytes).errorRange = t.errorRange.down lines := by
  unfold errorRange
  rw [range_down]
  simp only [down, Position.down_inj]
  split
  · exact Range.between_down lines t.start ⟨t.start.line, t.start.character + 1⟩
  · rfl

end Token

namespace Location

/-- The place `lines` lines and `bytes` bytes further down. -/
def down (lines bytes : Nat) (l : Location) : Location := ⟨l.offset + bytes, l.position.down lines⟩

theorem after_down (lines bytes : Nat) (l : Location) (cs : List Char) :
    (l.down lines bytes).after cs = (l.after cs).down lines bytes := by
  unfold after down
  simp only [Position.after_down, mk.injEq, and_true]
  omega

theorem token_down (lines bytes : Nat) (l : Location) (kind : TokenKind) (text : List Char) :
    (l.down lines bytes).token kind text = (l.token kind text).down lines bytes := by
  unfold token
  rw [after_down]
  rfl

/-- Tokens that start further down are the same tokens further down. -/
theorem tokens_down (lines bytes : Nat) (l : Location) (xs : List Lexeme) :
    (l.down lines bytes).tokens xs = (l.tokens xs).map (Token.down lines bytes) := by
  induction xs generalizing l with
  | nil => rfl
  | cons x xs ih =>
      cases x with
      | layout text => rw [tokens, tokens, after_down, ih]
      | token kind text => rw [tokens, tokens, after_down, token_down, ih, List.map_cons]

theorem tokens_append (l : Location) (xs ys : List Lexeme) :
    l.tokens (xs ++ ys) = l.tokens xs ++ (l.after (xs.flatMap Lexeme.text)).tokens ys := by
  induction xs generalizing l with
  | nil => rfl
  | cons x xs ih =>
      rw [List.flatMap_cons, after_append]
      cases x with
      | layout text =>
          rw [List.cons_append, tokens, tokens, ih]
          rfl
      | token kind text =>
          rw [List.cons_append, tokens, tokens, ih]
          rfl

/-- A text that ends with a line feed only moves what follows further down. -/
theorem zero_after {cs : List Char} (h : Lexeme.EndsLine cs) :
    zero.after cs = zero.down (cs.count '\n') (Text.utf8Length cs) := by
  rcases h with rfl | h
  · rfl
  · simp only [after, Position.after_of_getLast h]
    rfl

end Location

/-! ## Texts -/

/-- A text that is empty or ends with a line feed, where the lexer is not within a string literal. -/
structure IsWhole (text : String) : Prop where
  endsLine : Lexeme.EndsLine text.toList
  closed : Lexeme.endsInString text.toList = false

/-- The number of line feeds in a text. -/
def lineFeeds (text : String) : Nat := text.toList.count '\n'

/-- The tokens of a text behind another one are its own tokens, moved down. -/
theorem tokensOf_append {a : String} (ha : IsWhole a) (b : String) :
    tokensOf (a ++ b) =
      tokensOf a ++ (tokensOf b).map (Token.down (lineFeeds a) (Text.utf8Length a.toList)) := by
  unfold tokensOf
  rw [String.toList_append, Lexeme.cut_append ha.endsLine ha.closed, Location.tokens_append,
    Lexeme.flatMap_text_cut, Location.zero_after ha.endsLine, Location.tokens_down]
  rfl

theorem eofOf_append {a : String} (ha : IsWhole a) (b : String) :
    eofOf (a ++ b) = (eofOf b).down (lineFeeds a) (Text.utf8Length a.toList) := by
  unfold eofOf
  rw [String.toList_append, Location.after_append, Location.zero_after ha.endsLine,
    Location.after_down, Location.token_down]
  rfl

/-- The tokens of such a text are none, or end with a line feed. -/
theorem tokensOf_eq_concat {a : String} (ha : IsWhole a) :
    tokensOf a = [] ∨ ∃ ts x, tokensOf a = ts ++ [x] ∧ x.kind = .newline := by
  obtain ⟨hline, hclosed⟩ := ha
  unfold tokensOf
  rcases hline with hline | hline
  · rw [hline, Lexeme.cut_nil]
    exact .inl rfl
  · obtain ⟨front, -, -, hcut⟩ := Lexeme.cut_of_getLast? hline hclosed
    rw [hcut, Location.tokens_append]
    exact .inr ⟨_, _, rfl, rfl⟩

end FourthGen
