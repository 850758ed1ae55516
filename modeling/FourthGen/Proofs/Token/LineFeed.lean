import FourthGen.Proofs.Document.Offsets
import FourthGen.Proofs.Token.Append

set_option autoImplicit false

/-! # Texts joined by a line feed

Two texts with a line feed between them have the tokens of the first, a token for the line feed, and the
tokens of the second, further down (`tokenize_lineFeed_iff`). Nothing stands in the way of this but a
string literal of the first text that nothing closes: it would take the line feed and all that follows. -/

namespace FourthGen

/-! ## Open literals -/

theorem Lexeme.closes_of_quoted {quote : Char} {body : List Char} (h : Quoted quote body) :
    closes quote (body ++ [quote]) = true := by
  induction h with
  | nil => rw [List.nil_append, closes_quote]
  | plain hq hb _ ih => rw [List.cons_append, closes_other hq hb, ih]
  | escaped _ ih =>
      by_cases hq : '\\' = quote
      · rw [List.cons_append, ← hq, closes_quote]
      · rw [List.cons_append, List.cons_append, closes_escape hq, ih]

/-- A lexeme that is an open literal has no closing quote. -/
theorem Lexeme.exists_of_isOpen {x : Lexeme} (h : x.isOpen = true) :
    ∃ part, x = token .stringLiteral part ∧ ¬ ClosedLiteral part := by
  unfold isOpen at h
  split at h
  · next quote body =>
    refine ⟨quote :: body, rfl, ?_⟩
    rintro ⟨quote', body', hquoted, heq⟩
    cases heq
    rw [closes_of_quoted hquoted] at h
    cases h
  · cases h

/-- A string literal without its closing quote runs to the end of the text. -/
theorem TokenForm.eq_nil_of_not_closed {part rest : List Char}
    (h : TokenForm .stringLiteral part rest) (hclosed : ¬ ClosedLiteral part) : rest = [] := by
  generalize hkind : TokenKind.stringLiteral = kind at h
  cases h with
  | string _ hquoted => exact absurd ⟨_, _, hquoted, rfl⟩ hclosed
  | openString => rfl
  | openEscape => rfl
  | word _ _ _ hk => cases hk <;> cases hkind
  | number | newline | symbol | unknown => cases hkind

/-- Every lexeme that is a token leaves it. -/
theorem Location.exists_mem_tokens {l : Location} {xs : List Lexeme} {kind : TokenKind}
    {part : List Char} (h : Lexeme.token kind part ∈ xs) :
    ∃ m : Location, m.token kind part ∈ l.tokens xs := by
  induction xs generalizing l with
  | nil => cases h
  | cons x xs ih =>
      rcases List.mem_cons.1 h with rfl | hrest
      · exact ⟨l, List.mem_cons_self⟩
      · cases x with
        | layout text => exact ih hrest
        | token _ text =>
            obtain ⟨m, hm⟩ := @ih (l.after text) hrest
            exact ⟨m, List.mem_cons_of_mem _ hm⟩

/-- A text that ends within a string literal has it as a token. -/
theorem exists_isOpenString {text : String} (h : Lexeme.endsInString text.toList = true) :
    ∃ t ∈ tokenize text, t.IsOpenString := by
  unfold Lexeme.endsInString at h
  cases hlast : (Lexeme.cut text.toList).getLast? with
  | none =>
      rw [hlast] at h
      cases h
  | some x =>
      rw [hlast] at h
      obtain ⟨part, rfl, hopen⟩ := Lexeme.exists_of_isOpen h
      obtain ⟨m, hm⟩ := @Location.exists_mem_tokens .zero _ _ _ (List.mem_of_getLast? hlast)
      refine ⟨m.token .stringLiteral part, ?_, rfl, ?_⟩
      · rw [tokenize_eq]
        exact List.mem_append_left _ hm
      · rwa [show (m.token .stringLiteral part).text.toList = part from String.toList_ofList]

/-- A string literal that nothing closes ends with its text. -/
theorem stop_of_isOpenString {text : String} {t : Token} (ht : t ∈ tokenize text)
    (hopen : t.IsOpenString) : t.span.stop = Text.utf8Length text.toList := by
  obtain ⟨left, part, right, htext, hlocation, hform⟩ := exists_split_of_mem_tokenize ht
  obtain ⟨hkind, hclosed⟩ := hopen
  have hpart : t.text.toList = part := by
    rw [hlocation]
    exact String.toList_ofList
  rw [hpart] at hclosed
  rw [hkind] at hform
  have hright : right = [] := by
    obtain hform | ⟨hk, -⟩ := hform
    · exact hform.eq_nil_of_not_closed hclosed
    · cases hk
  rw [hlocation, htext, hright, List.append_nil, ← Location.offset_after_zero, Location.after_append]
  rfl

/-! ## Texts joined by a line feed -/

/-- The token of a line feed behind a text. -/
def lineFeedBehind (text : String) : Token where
  kind := .newline
  text := "\n"
  span := ⟨Text.utf8Length text.toList, Text.utf8Length text.toList + 1⟩
  start := Position.zero.after text.toList
  stop := ⟨lineFeeds text + 1, 0⟩

theorem token_lineFeed (text : String) :
    (Location.zero.after text.toList).token .newline ['\n'] = lineFeedBehind text := by
  have hstop : (Location.zero.after (text.toList ++ ['\n'])).position = ⟨lineFeeds text + 1, 0⟩ := by
    show Position.zero.after (text.toList ++ ['\n']) = _
    rw [Position.after_zero, Text.lastLine_lineFeed, List.count_append]
    rfl
  rw [Location.token, ← Location.after_append, hstop, Location.offset_after_zero,
    Location.offset_after_zero, Text.utf8Length_append]
  rfl

theorem toList_lineFeed (a : String) : (a ++ "\n").toList = a.toList ++ ['\n'] :=
  String.toList_append

theorem isWhole_lineFeed {a : String} (h : Lexeme.endsInString a.toList = false) :
    IsWhole (a ++ "\n") := by
  constructor
  · rw [toList_lineFeed]
    exact .inr List.getLast?_concat
  · rw [toList_lineFeed, Lexeme.endsInString_lineFeed, h]

theorem tokensOf_lineFeed {a : String} (h : Lexeme.endsInString a.toList = false) :
    tokensOf (a ++ "\n") = tokensOf a ++ [lineFeedBehind a] := by
  rw [tokensOf, toList_lineFeed, Lexeme.cut_lineFeed h, Lexeme.cut_nil, Location.tokens_append,
    Lexeme.flatMap_text_cut, ← token_lineFeed]
  rfl

/-- Outside of string literals, the lexer reads two texts with a line feed between them on their own. -/
theorem tokenize_append_lineFeed {a : String} (h : Lexeme.endsInString a.toList = false) (b : String) :
    tokenize (a ++ "\n" ++ b) = tokensOf a ++ lineFeedBehind a ::
      (tokenize b).map (Token.down (lineFeeds a + 1) (Text.utf8Length a.toList + 1)) := by
  have hwhole := isWhole_lineFeed h
  have hlines : lineFeeds (a ++ "\n") = lineFeeds a + 1 := by
    rw [lineFeeds, toList_lineFeed, List.count_append]
    rfl
  have hbytes : Text.utf8Length (a ++ "\n").toList = Text.utf8Length a.toList + 1 := by
    rw [toList_lineFeed, Text.utf8Length_append]
    rfl
  rw [tokenize_eq, tokensOf_append hwhole, eofOf_append hwhole, tokensOf_lineFeed h, hlines, hbytes,
    tokenize_eq b, List.map_append]
  simp

theorem dropLast_tokenize (text : String) : (tokenize text).dropLast = tokensOf text := by
  rw [tokenize_eq, List.dropLast_concat]

/-- The tokens of two texts with a line feed between them are those of the first without its end, the
    line feed, and those of the second, moved down by the bytes and lines before them. This is so
    exactly if no token of the first text is a string literal without its closing quote. -/
theorem tokenize_lineFeed_iff (a b : String) :
    tokenize (a ++ "\n" ++ b) =
        (tokenize a).dropLast ++ lineFeedBehind a ::
          (tokenize b).map (Token.down (lineFeeds a + 1) (Text.utf8Length a.toList + 1)) ↔
      ∀ t ∈ tokenize a, ¬ t.IsOpenString := by
  rw [dropLast_tokenize]
  constructor
  · intro heq t ht hopen
    have hmem : t ∈ tokensOf a := by
      rw [tokenize_eq] at ht
      rcases List.mem_append.1 ht with hmem | hend
      · exact hmem
      · obtain rfl := List.mem_singleton.1 hend
        cases hopen.1
    -- the literal would end with the first text, and with the whole
    have hwhole : t ∈ tokenize (a ++ "\n" ++ b) := by
      rw [heq]
      exact List.mem_append_left _ hmem
    have hstop := stop_of_isOpenString hwhole hopen
    rw [stop_of_isOpenString ht hopen] at hstop
    simp only [String.toList_append, Text.utf8Length_append] at hstop
    have hbreak : 0 < Text.utf8Length "\n".toList := by decide
    omega
  · intro hclosed
    have h : Lexeme.endsInString a.toList = false := by
      rw [Bool.eq_false_iff]
      intro hends
      obtain ⟨t, ht, hopen⟩ := exists_isOpenString hends
      exact hclosed t ht hopen
    exact tokenize_append_lineFeed h b

end FourthGen
