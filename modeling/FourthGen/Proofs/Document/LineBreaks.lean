import FourthGen.Lint.Rules
import FourthGen.Proofs.Document.Lines
import FourthGen.Proofs.Parser.Isolation
import FourthGen.Proofs.Token.Spacing
import FourthGen.Symbol.OfSyntax

set_option autoImplicit false

/-! # How line breaks are written does not matter

A line break is a line feed, or a carriage return and a line feed. A text means the same either way
(`crlf_alike`): tokens, trees, errors, symbols, line rules and the words of a document.

To the lexer a carriage return before a line feed is one more blank, or the last character of a
comment, or part of a string literal; it ends the tokens that a line feed ends. So the text with
carriage returns is cut as the text without them, and only the line feeds themselves stand one column
further on. To everything that goes by lines it is part of the line break. -/

namespace FourthGen

/-! ## Texts -/

namespace Text

/-- The characters with a carriage return put before every line feed. -/
def withReturns (cs : List Char) : List Char :=
  cs.flatMap fun c => if c = '\n' then ['\r', '\n'] else [c]

/-- The text with a carriage return put before every line feed. -/
def crlf (s : String) : String := String.ofList (withReturns s.toList)

theorem toList_crlf (s : String) : (crlf s).toList = withReturns s.toList := String.toList_ofList

@[simp] theorem withReturns_nil : withReturns [] = [] := rfl

@[simp] theorem withReturns_lineFeed (cs : List Char) :
    withReturns ('\n' :: cs) = '\r' :: '\n' :: withReturns cs := rfl

theorem withReturns_cons {c : Char} (hc : c ≠ '\n') (cs : List Char) :
    withReturns (c :: cs) = c :: withReturns cs := by
  simp [withReturns, hc]

/-! ### Lines -/

theorem dropReturn_cons {c : Char} (hc : c ≠ '\r') (line : List Char) :
    dropReturn (c :: line) = c :: dropReturn line := by
  cases line with
  | nil => simp [dropReturn, hc]
  | cons d line =>
      simp only [dropReturn, List.getLast?_cons_cons, List.dropLast_cons_cons]
      split <;> rfl

theorem lines_lineFeed (cs : List Char) : lines ('\n' :: cs) = [] :: lines cs := rfl

/-- A character that belongs to no line break belongs to the first line. -/
theorem lines_cons {c : Char} (hn : c ≠ '\n') (hr : c ≠ '\r') {cs line : List Char}
    {rest : List (List Char)} (h : lines cs = line :: rest) :
    lines (c :: cs) = (c :: line) :: rest := by
  obtain ⟨piece, pieces', hpieces⟩ := List.exists_cons_of_ne_nil (divide_ne_nil (· == '\n') cs)
  rw [lines, pieces, hpieces, List.map_cons, List.cons.injEq] at h
  rw [lines, pieces_cons hn hpieces, List.map_cons, dropReturn_cons hr, h.1, h.2]

theorem lines_return_lineFeed (cs : List Char) : lines ('\r' :: '\n' :: cs) = [] :: lines cs := by
  rw [lines, pieces_cons (by decide) (pieces_lineFeed cs), List.map_cons]
  rfl

/-- The lines of a text are the same with either way to write line breaks. -/
theorem lines_withReturns {cs : List Char} (h : '\r' ∉ cs) : lines (withReturns cs) = lines cs := by
  induction cs with
  | nil => rfl
  | cons c cs ih =>
      rw [List.mem_cons, not_or] at h
      by_cases hc : c = '\n'
      · subst hc
        rw [withReturns_lineFeed, lines_return_lineFeed, ih h.2, lines_lineFeed]
      · obtain ⟨line, rest, hlines⟩ := List.exists_cons_of_ne_nil
          (mt List.map_eq_nil_iff.1 (divide_ne_nil (· == '\n') cs) : lines cs ≠ [])
        rw [withReturns_cons hc, lines_cons hc (Ne.symm h.1) (ih h.2 ▸ hlines),
          lines_cons hc (Ne.symm h.1) hlines]

end Text

theorem Position.after_withReturns (p : Position) (cs : List Char) :
    p.after (Text.withReturns cs) = p.after cs := by
  induction cs generalizing p with
  | nil => rfl
  | cons c cs ih =>
      by_cases hc : c = '\n'
      · subst hc
        rw [Text.withReturns_lineFeed, after_cons, after_cons, after_cons, ih]
        rfl
      · rw [Text.withReturns_cons hc, after_cons, after_cons, ih]

/-! ## Lexemes -/

namespace Lexeme

/-- The lexeme as it is cut from the text with carriage returns. -/
def withReturns : Lexeme → Lexeme
  | layout text => layout text
  | token kind text => token kind (if kind = .stringLiteral then Text.withReturns text else text)

/-- A run that neither a line feed nor a carriage return continues. -/
theorem takeWhile_withReturns {p : Char → Bool} (hn : p '\n' = false) (hr : p '\r' = false)
    (cs : List Char) :
    (Text.withReturns cs).takeWhile p = cs.takeWhile p ∧
      (Text.withReturns cs).dropWhile p = Text.withReturns (cs.dropWhile p) := by
  induction cs with
  | nil => exact ⟨rfl, rfl⟩
  | cons c cs ih =>
      by_cases hc : c = '\n'
      · subst hc
        simp [hn, hr]
      · by_cases hp : p c = true
        · simp [Text.withReturns_cons hc, hp, ih]
        · simp [Text.withReturns_cons hc, hp]

theorem stringBody_withReturns {quote : Char} (hq : isQuote quote = true) (cs : List Char) :
    stringBody quote (Text.withReturns cs) =
      (Text.withReturns (stringBody quote cs).1, Text.withReturns (stringBody quote cs).2) := by
  have hn : '\n' ≠ quote := by rintro rfl; cases hq
  have hr : '\r' ≠ quote := by rintro rfl; cases hq
  have hb : '\\' ≠ quote := by rintro rfl; cases hq
  fun_induction stringBody quote cs with
  | case1 => rfl
  | case2 cs =>
      rw [Text.withReturns_cons hn.symm, stringBody_quote, Text.withReturns_cons hn.symm,
        Text.withReturns_nil]
  | case3 hne => simp [stringBody, Text.withReturns, hb]
  | case4 d ds body hne ih =>
      have hback (cs : List Char) : Text.withReturns ('\\' :: cs) = '\\' :: Text.withReturns cs :=
        Text.withReturns_cons (by decide) cs
      simp only [hback]
      by_cases hd : d = '\n'
      · -- the backslash takes the carriage return with it, and leaves the line feed
        subst hd
        rw [Text.withReturns_lineFeed, stringBody_escape hb, stringBody_plain hn (by decide), ih,
          Text.withReturns_lineFeed]
      · rw [Text.withReturns_cons hd, stringBody_escape hb, ih, Text.withReturns_cons hd]
  | case5 c cs hne hc body ih =>
      by_cases hd : c = '\n'
      · subst hd
        rw [Text.withReturns_lineFeed, stringBody_plain hr (by decide), stringBody_plain hn hc, ih,
          Text.withReturns_lineFeed]
      · rw [Text.withReturns_cons hd, stringBody_plain hne hc, ih, Text.withReturns_cons hd]

theorem ofPair_return (c : Char) : Punctuation.ofPair? c '\r' = none := by
  unfold Punctuation.ofPair?
  split <;> simp_all

theorem symbol_withReturns (c : Char) (cs : List Char) :
    symbol c (Text.withReturns cs) = ((symbol c cs).1, Text.withReturns (symbol c cs).2) := by
  cases cs with
  | nil => rfl
  | cons d ds =>
      by_cases hd : d = '\n'
      · subst hd
        rw [Text.withReturns_lineFeed, symbol, symbol, ofPair_return, ofPair_lineFeed]
        rfl
      · rw [Text.withReturns_cons hd, symbol, symbol]
        cases Punctuation.ofPair? c d with
        | some mark => rfl
        | none => simp [Text.withReturns_cons hd]

theorem startsComment_withReturns (c : Char) (cs : List Char) :
    startsComment c (Text.withReturns cs) = startsComment c cs := by
  cases cs with
  | nil => rfl
  | cons d ds =>
      by_cases hd : d = '\n'
      · subst hd
        rfl
      · rw [Text.withReturns_cons hd]
        rfl

/-- Whatever is no layout is cut as if there were no carriage returns, but for those within it. -/
theorem next_withReturns {c : Char} {cs : List Char} (hblank : isBlank c = false)
    (hcomment : startsComment c cs = false) :
    next c (Text.withReturns cs) =
      ((next c cs).1.withReturns, Text.withReturns (next c cs).2) := by
  unfold next
  simp only [hblank, startsComment_withReturns, hcomment, Bool.false_eq_true, if_false]
  split
  · next hq =>
    have hc : c ≠ '\n' := by rintro rfl; cases hq
    simp [stringBody_withReturns hq, withReturns, Text.withReturns_cons hc]
  split
  · obtain ⟨htake, hdrop⟩ := @takeWhile_withReturns isNumberRest rfl rfl cs
    rw [htake, hdrop]
    rfl
  split
  · obtain ⟨htake, hdrop⟩ := @takeWhile_withReturns Text.isNameRest rfl rfl cs
    obtain hk | ⟨k, hk⟩ := wordKind_cases (c :: cs.takeWhile Text.isNameRest) <;>
      simp [htake, hdrop, hk, withReturns]
  split
  · rfl
  · have hkind : (symbol c cs).1.withReturns = (symbol c cs).1 := by
      have hcases := symbol_kind_cases c cs
      generalize (symbol c cs).1 = x at hcases
      cases x with
      | layout text => rfl
      | token kind text =>
          refine congrArg (token kind) (if_neg ?_)
          rintro rfl
          obtain hk | ⟨m, hk⟩ := hcases <;> cases hk
    rw [symbol_withReturns, hkind]

end Lexeme

/-- Only a line feed is the token of a line break. -/
theorem Lexeme.eq_lineFeed_of_next {c : Char} {cs text rest : List Char}
    (h : next c cs = (token .newline text, rest)) : c = '\n' := by
  obtain ⟨hform, happ⟩ := next_eq_token_iff.1 h
  generalize hkind : TokenKind.newline = kind at hform
  cases hform with
  | newline =>
      cases happ
      rfl
  | word _ _ _ hk => cases hk <;> cases hkind
  | string | openString | openEscape | number | symbol | unknown => cases hkind

/-! ## Tokens -/

/-- A token, and the one that stands for it where line breaks are written with carriage returns: these
    are found within string literals, and a line feed stands behind one. -/
structure Token.Returned (t t' : Token) : Prop where
  kind : t'.kind = t.kind
  text : t'.text = if t.kind = .stringLiteral then Text.crlf t.text else t.text
  start : t'.start =
    if t.kind = .newline then ⟨t.start.line, t.start.character + 1⟩ else t.start
  stop : t'.stop = t.stop

namespace Location

/-- A blank leaves no token. -/
theorem tokens_blank (l : Location) {c : Char} (h : Lexeme.isBlank c = true) (cs : List Char) :
    l.tokens (Lexeme.cut (c :: cs)) = (l.after [c]).tokens (Lexeme.cut cs) := by
  rw [Lexeme.cut_cons, Lexeme.next_of_blank h, tokens]
  cases cs with
  | nil => rfl
  | cons d ds =>
      by_cases hd : Lexeme.isBlank d = true
      · rw [List.takeWhile_cons_of_pos hd, List.dropWhile_cons_of_pos hd, Lexeme.cut_cons,
          Lexeme.next_of_blank hd, tokens, ← after_append, List.singleton_append]
      · rw [List.takeWhile_cons_of_neg hd, List.dropWhile_cons_of_neg hd]

theorem tokens_comment (l : Location) {c : Char} {cs : List Char}
    (hblank : Lexeme.isBlank c = false) (hcomment : Lexeme.startsComment c cs = true) :
    l.tokens (Lexeme.cut (c :: cs)) = ((l.after [c]).after (cs.takeWhile (· != '\n'))).tokens
      (Lexeme.cut (cs.dropWhile (· != '\n'))) := by
  rw [Lexeme.cut_cons, Lexeme.next, if_neg (Bool.eq_false_iff.1 hblank), if_pos hcomment, tokens,
    ← after_append, List.singleton_append]

/-- The carriage return at the end of a comment could as well stand behind it. -/
theorem tokens_comment_withReturns (l : Location) (cs : List Char) :
    (l.after ((Text.withReturns cs).takeWhile (· != '\n'))).tokens
        (Lexeme.cut ((Text.withReturns cs).dropWhile (· != '\n'))) =
      (l.after (cs.takeWhile (· != '\n'))).tokens
        (Lexeme.cut (Text.withReturns (cs.dropWhile (· != '\n')))) := by
  induction cs generalizing l with
  | nil => rfl
  | cons c cs ih =>
      by_cases hc : c = '\n'
      · subst hc
        exact (tokens_blank l rfl ('\n' :: Text.withReturns cs)).symm
      · have hafter (xs : List Char) : l.after (c :: xs) = (l.after [c]).after xs :=
          l.after_append [c] xs
        have hp : (c != '\n') = true := by simpa using hc
        simp only [Text.withReturns_cons hc, List.takeWhile_cons, List.dropWhile_cons, hp, if_true]
        rw [hafter, ih, ← hafter]

theorem position_after (l : Location) (cs : List Char) :
    (l.after cs).position = l.position.after cs := rfl

theorem returned_token {l l' : Location} (h : l'.position = l.position) {kind : TokenKind}
    (hk : kind ≠ .newline) (text : List Char) :
    (l.token kind text).Returned
      (l'.token kind (if kind = .stringLiteral then Text.withReturns text else text)) := by
  refine ⟨rfl, ?_, ?_, ?_⟩
  · by_cases hs : kind = .stringLiteral
    · simp [token, hs, Text.crlf]
    · simp [token, hs]
  · simp [token, hk, h]
  · by_cases hs : kind = .stringLiteral
    · simp [token, hs, position_after, Position.after_withReturns, h]
    · simp [token, hs, position_after, h]

/-- Texts that start at the same position have the same tokens with either way to write line
    breaks. -/
theorem returned_tokens {l l' : Location} (h : l'.position = l.position) (cs : List Char) :
    List.Forall₂ Token.Returned (l.tokens (Lexeme.cut cs))
      (l'.tokens (Lexeme.cut (Text.withReturns cs))) := by
  obtain ⟨n, hn⟩ : ∃ n, cs.length = n := ⟨_, rfl⟩
  induction n using Nat.strongRecOn generalizing cs l l' with
  | ind n ih =>
    have hafter (xs : List Char) : (l'.after xs).position = (l.after xs).position := by
      rw [position_after, position_after, h]
    cases cs with
    | nil =>
      rw [Text.withReturns_nil, Lexeme.cut_nil]
      exact .nil
    | cons c cs =>
      rw [List.length_cons] at hn
      by_cases hc : c = '\n'
      · -- the carriage return is a blank, behind which the line feed stands
        subst hc
        rw [Text.withReturns_lineFeed, tokens_blank l' rfl, Lexeme.cut_cons, Lexeme.cut_cons,
          Lexeme.next_lineFeed, Lexeme.next_lineFeed, tokens, tokens, ← after_append]
        have hstop : (l'.after ['\r', '\n']).position = (l.after ['\n']).position := by
          rw [position_after, position_after, h]
          rfl
        refine .cons ⟨rfl, rfl, ?_, hstop⟩ (ih _ (by omega) hstop cs rfl)
        show (l'.after ['\r']).position = _
        rw [position_after, h]
        rfl
      rw [Text.withReturns_cons hc]
      by_cases hblank : Lexeme.isBlank c = true
      · rw [tokens_blank l hblank, tokens_blank l' hblank]
        exact ih _ (by omega) (hafter [c]) cs rfl
      rw [Bool.not_eq_true] at hblank
      by_cases hcomment : Lexeme.startsComment c cs = true
      · have hcomment' : Lexeme.startsComment c (Text.withReturns cs) = true := by
          rw [Lexeme.startsComment_withReturns, hcomment]
        rw [tokens_comment l hblank hcomment, tokens_comment l' hblank hcomment',
          tokens_comment_withReturns]
        have hlength : (cs.dropWhile (· != '\n')).length ≤ cs.length :=
          (List.dropWhile_sublist _).length_le
        refine ih _ (by omega) ?_ (cs.dropWhile (· != '\n')) rfl
        rw [← after_append, ← after_append, hafter]
      · rw [Bool.not_eq_true] at hcomment
        have hlength : (Lexeme.next c cs).2.length < cs.length + 1 := Lexeme.next_length c cs
        have hline : ∀ text rest, Lexeme.next c cs ≠ (.token .newline text, rest) :=
          fun text rest hnext => hc (Lexeme.eq_lineFeed_of_next hnext)
        rw [Lexeme.cut_cons, Lexeme.cut_cons, Lexeme.next_withReturns hblank hcomment]
        generalize Lexeme.next c cs = r at hlength hline
        obtain ⟨x, rest⟩ := r
        rw [hn] at hlength
        cases x with
        | layout text => exact ih _ hlength (hafter text) rest rfl
        | token kind text =>
            have hk : kind ≠ .newline := by
              rintro rfl
              exact hline text rest rfl
            have htoken := returned_token h hk text
            exact .cons htoken (ih _ hlength htoken.stop rest rfl)

end Location

/-- The tokens of a text with either way to write line breaks. -/
theorem returned_tokensOf (text : String) :
    List.Forall₂ Token.Returned (tokensOf text) (tokensOf (Text.crlf text)) := by
  rw [tokensOf, tokensOf, Text.toList_crlf]
  exact Location.returned_tokens rfl _

theorem returned_eofOf (text : String) : (eofOf text).Returned (eofOf (Text.crlf text)) := by
  have hposition : (Location.zero.after (Text.crlf text).toList).position =
      (Location.zero.after text.toList).position := by
    rw [Location.position_after, Location.position_after, Text.toList_crlf,
      Position.after_withReturns]
  exact Location.returned_token hposition (by decide) []

theorem returned_tokenize (text : String) :
    List.Forall₂ Token.Returned (tokenize text) (tokenize (Text.crlf text)) := by
  rw [tokenize_eq, tokenize_eq]
  exact List.rel_append (returned_tokensOf text) (.cons (returned_eofOf text) .nil)

/-! ## Trees -/

namespace Token.Returned

variable {t t' : Token}

theorem start_eq (h : t.Returned t') (hk : t.kind ≠ .newline) : t'.start = t.start := by
  rw [h.start, if_neg hk]

theorem text_eq (h : t.Returned t') (hk : t.kind ≠ .stringLiteral) : t'.text = t.text := by
  rw [h.text, if_neg hk]

theorem range_eq (h : t.Returned t') (hk : t.kind ≠ .newline) : t'.range = t.range := by
  rw [Token.range, Token.range, h.start_eq hk, h.stop]

theorem errorRange_eq (h : t.Returned t') (hk : t.kind ≠ .newline) :
    t'.errorRange = t.errorRange := by
  rw [Token.errorRange, Token.errorRange, h.start_eq hk, h.stop, h.range_eq hk]

theorem isWord_eq (h : t.Returned t') (word : String) : t'.isWord word = t.isWord word := by
  rw [Token.isWord, Token.isWord, h.kind]
  by_cases hk : t.kind = .identifier
  · rw [h.text_eq (by rw [hk]; decide)]
  · rw [beq_eq_false_iff_ne.2 hk, Bool.false_and, Bool.false_and]

end Token.Returned

/-- Errors that say the same, and at the same place unless a line break was found. -/
structure SyntaxError.Returned (e e' : SyntaxError) : Prop where
  message : e'.message = e.message
  found : e'.found = e.found
  range : e.found ≠ .newline → e'.range = e.range

namespace Likeness

/-- A text with line feeds, and the same text with carriage returns before them. -/
def returned : Likeness where
  token := Token.Returned
  range := Eq
  hole _ _ := True
  text := Eq
  quoted t t' := t' = Text.crlf t
  error := SyntaxError.Returned
  stop _ _ := False
  kind_eq h := h.kind
  isWord_eq h := h.isWord_eq
  token_text h hk := (h.text_eq hk).symm
  token_quoted h hk := h.text.trans (if_pos hk)
  token_range {x x'} h hs := by
    refine (h.range_eq ?_).symm
    intro hk
    rw [hk] at hs
    cases hs
  token_hole _ := trivial
  token_error h _ := ⟨rfl, h.kind, h.errorRange_eq⟩
  token_stray {x x'} h hk := by
    refine ⟨?_, h.kind, h.errorRange_eq⟩
    rw [SyntaxError.message, SyntaxError.about, h.text_eq hk]
    rfl
  cover := cover_eq
  text_empty := rfl
  text_unknown := rfl
  text_sized := text_sized_eq
  stop_routine := routine_of_false
  stop_error := False.elim

end Likeness

/-- Rewrites the string literals of a tree, and forgets where its placeholders stand. -/
def Rewriting.ofString (f : String → String) : Rewriting Range Range :=
  ⟨id, fun _ => default, id, f⟩

theorem Likeness.rewrites_returned : returned.Rewrites (.ofString Text.crlf) (.ofString id) where
  range := Eq.symm
  hole _ := rfl
  word := Eq.symm
  string := id

/-! ## Symbols -/

theorem Stmt.rewriteAll_eq_map {ρ σ : Type} (w : Rewriting ρ σ) (ss : List (Stmt ρ)) :
    Stmt.rewriteAll w ss = ss.map (Stmt.rewrite w) := by
  induction ss with
  | nil => rfl
  | cons s ss ih => rw [Stmt.rewriteAll, ih, List.map_cons]

mutual

theorem Stmt.definedVariables_rewrite {ρ σ : Type} (w : Rewriting ρ σ) (s : Stmt ρ) :
    (s.rewrite w).definedVariables = s.definedVariables.map (Variable.rewrite w) := by
  cases s with
  | conditional range condition thenBlock elseBlock =>
      rw [Stmt.rewrite, Stmt.definedVariables, Stmt.definedVariables,
        Stmt.variablesOfBlock_rewriteAll w thenBlock, Stmt.variablesOfBlock_rewriteAll w elseBlock,
        List.map_append]
  | whileLoop range condition body =>
      rw [Stmt.rewrite, Stmt.definedVariables, Stmt.definedVariables,
        Stmt.variablesOfBlock_rewriteAll w body]
  | forLoop range body =>
      rw [Stmt.rewrite, Stmt.definedVariables, Stmt.definedVariables,
        Stmt.variablesOfBlock_rewriteAll w body]
  | define | assign | call | giveBack | sql | expression => rfl

theorem Stmt.variablesOfBlock_rewriteAll {ρ σ : Type} (w : Rewriting ρ σ) (ss : List (Stmt ρ)) :
    Stmt.variablesOfBlock (Stmt.rewriteAll w ss) =
      (Stmt.variablesOfBlock ss).map (Variable.rewrite w) := by
  cases ss with
  | nil => rfl
  | cons s ss =>
      rw [Stmt.rewriteAll, Stmt.variablesOfBlock, Stmt.variablesOfBlock,
        Stmt.definedVariables_rewrite w s, Stmt.variablesOfBlock_rewriteAll w ss, List.map_append]

end

theorem Symbol.ofItem_rewrite_ofString (document : DocumentId) (f : String → String)
    (i : Item Range) : ofItem document (i.rewrite (.ofString f)) = ofItem document i := by
  have hvariable : Variable.rewrite (.ofString f) = id := rfl
  have hbody (ss : List (Stmt Range)) :
      Stmt.variablesOfBlock (ss.map (Stmt.rewrite (.ofString f))) = Stmt.variablesOfBlock ss := by
    rw [← Stmt.rewriteAll_eq_map, Stmt.variablesOfBlock_rewriteAll, hvariable, List.map_id]
  cases i with
  | function range name params returns body =>
      rw [Item.rewrite, ofItem, ofItem, ofInside, ofInside, hvariable, List.map_id, hbody]
      cases returns <;> rfl
  | procedure range name params body =>
      rw [Item.rewrite, ofItem, ofItem, ofInside, ofInside, hvariable, List.map_id, hbody]
      rfl
  | statement stmt =>
      rw [Item.rewrite, ofItem, ofItem, Stmt.definedVariables_rewrite, hvariable, List.map_id]

/-- String literals and placeholders declare nothing. -/
theorem Symbol.ofItems_rewrite_ofString (document : DocumentId) (f : String → String)
    (items : List (Item Range)) :
    ofItems document (items.map (Item.rewrite (.ofString f))) = ofItems document items := by
  rw [ofItems, ofItems, List.flatMap_map]
  simp only [ofItem_rewrite_ofString]

/-! ## Documents -/

theorem Document.line?_crlf {d d' : Document} (h : '\r' ∉ d.text.toList)
    (hd : d'.text = Text.crlf d.text) (n : Nat) : d'.line? n = d.line? n := by
  rw [line?_eq, line?_eq, hd, Text.toList_crlf, Text.lines_withReturns h]

/-- A text means the same with either way to write its line breaks. Its tokens are of the same kinds,
    at the same places but for the line feeds; its tree and its errors are the same but for string
    literals and for what stands at a line break; and so are its symbols, what the line rules find in
    it, and the lines and words of a document. -/
theorem crlf_alike {text : String} (h : '\r' ∉ text.toList) :
    List.Forall₂ Token.Returned (tokenize text) (tokenize (Text.crlf text)) ∧
      (parse (Text.crlf text)).items.map (Item.rewrite (.ofString id)) =
        (parse text).items.map (Item.rewrite (.ofString Text.crlf)) ∧
      List.Forall₂ SyntaxError.Returned (parse text).errors (parse (Text.crlf text)).errors ∧
      (∀ document, Symbol.ofItems document (parse (Text.crlf text)).items =
        Symbol.ofItems document (parse text).items) ∧
      lint (Text.crlf text) = lint text ∧
      ∀ d d' : Document, d.text = text → d'.text = Text.crlf text →
        (∀ n, d'.lineText? n = d.lineText? n) ∧
          ∀ p, d'.wordAt? p = d.wordAt? p ∧ d'.stemAt? p = d.stemAt? p := by
  obtain ⟨hitems, herrors⟩ := Likeness.parse_of_tokens (L := .returned)
    (s := ⟨[], tokensOf (Text.crlf text), eofOf (Text.crlf text)⟩) (fun _ _ => id)
    (returned_tokensOf text) (returned_eofOf text)
  rw [← parse_eq] at hitems herrors
  have hrewrite := Likeness.map_eq_of_forall₂
    (fun _ _ hi => hi.rewrite_eq Likeness.rewrites_returned) hitems
  refine ⟨returned_tokenize text, hrewrite, herrors, ?_, ?_, ?_⟩
  · intro document
    rw [← Symbol.ofItems_rewrite_ofString document id, hrewrite, Symbol.ofItems_rewrite_ofString]
  · rw [lint, lint, Text.toList_crlf, Text.lines_withReturns h]
  · rintro d d' rfl hd
    have hline := Document.line?_crlf h hd
    refine ⟨fun n => ?_, fun p => ⟨?_, ?_⟩⟩
    · rw [Document.lineText?, Document.lineText?, hline]
    · rw [Document.wordAt?, Document.wordAt?, hline]
    · rw [Document.stemAt?, Document.stemAt?, hline]

/-- A backslash before a line break within a literal, and an error that is found at a line break. -/
theorem crlf_alike_escaped :
    '\r' ∉ "DEFINE s CHAR\nLET s = 'a\\\n' # b\nLET n =\n".toList ∧
      (parse (Text.crlf "DEFINE s CHAR\nLET s = 'a\\\n' # b\nLET n =\n")).items.map
          (Item.rewrite (.ofString id)) =
        (parse "DEFINE s CHAR\nLET s = 'a\\\n' # b\nLET n =\n").items.map
          (Item.rewrite (.ofString Text.crlf)) ∧
      Symbol.ofItems ⟨1⟩
          (parse (Text.crlf "DEFINE s CHAR\nLET s = 'a\\\n' # b\nLET n =\n")).items =
        [⟨"s", .var, some "CHAR", ⟨⟨0, 7⟩, ⟨0, 13⟩⟩, ⟨1⟩, "variable s: CHAR"⟩] := by
  have h : '\r' ∉ "DEFINE s CHAR\nLET s = 'a\\\n' # b\nLET n =\n".toList := by decide
  refine ⟨h, (crlf_alike h).2.1, ?_⟩
  rw [(crlf_alike h).2.2.2.1]
  decide +kernel

end FourthGen
