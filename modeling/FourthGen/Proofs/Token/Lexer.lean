import FourthGen.Token.Lexer

set_option autoImplicit false

/-! # The tokens of a text

The list of tokens that the lexer makes of a text ends with a token of kind `eof`, and no other token
is of that kind: no lexeme is one (`Lexeme.kind_ne_eof`). -/

namespace FourthGen

/-! ## Kinds -/

namespace Lexeme

/-- The kind of the token that a lexeme leaves, if it leaves one. -/
def kind? : Lexeme → Option TokenKind
  | layout _ => none
  | token kind _ => some kind

/-- A word is an identifier or a reserved word. -/
theorem wordKind_cases (word : List Char) :
    wordKind word = .identifier ∨ ∃ k, wordKind word = .keyword k := by
  unfold wordKind TokenKind.ofWord?
  cases Keyword.ofText? (String.ofList word) with
  | none => exact .inl rfl
  | some k => exact .inr ⟨k, rfl⟩

theorem charKind_cases (c : Char) : charKind c = .unknown ∨ ∃ m, charKind c = .symbol m := by
  unfold charKind
  cases Punctuation.ofChar? c with
  | none => exact .inl rfl
  | some m => exact .inr ⟨m, rfl⟩

/-- A lexeme that is none of the others is a symbol or unknown. -/
theorem symbol_kind_cases (c : Char) (cs : List Char) :
    (symbol c cs).1.kind? = some .unknown ∨ ∃ m, (symbol c cs).1.kind? = some (.symbol m) := by
  have hchar : some (charKind c) = some .unknown ∨ ∃ m, some (charKind c) = some (.symbol m) := by
    simpa using charKind_cases c
  unfold symbol
  split
  · exact hchar
  · split
    · next m _ => exact .inr ⟨m, rfl⟩
    · exact hchar

theorem next_kind_ne_eof (c : Char) (cs : List Char) : (next c cs).1.kind? ≠ some .eof := by
  unfold next
  split
  · simp [kind?]
  split
  · simp [kind?]
  split
  · simp [kind?]
  split
  · simp [kind?]
  split
  · obtain hk | ⟨k, hk⟩ := wordKind_cases (c :: cs.takeWhile Text.isNameRest) <;> simp [kind?, hk]
  split
  · simp [kind?]
  · obtain hk | ⟨m, hk⟩ := symbol_kind_cases c cs <;> simp [hk]

/-- No lexeme of a text stands for its end. -/
theorem kind_ne_eof {cs : List Char} {x : Lexeme} (h : x ∈ cut cs) : x.kind? ≠ some .eof := by
  fun_induction cut cs with
  | case1 => simp at h
  | case2 c cs ih =>
    rcases List.mem_cons.1 h with rfl | h
    · exact next_kind_ne_eof c cs
    · exact ih h

theorem text_ne_nil {cs : List Char} {x : Lexeme} (h : x ∈ cut cs) : x.text ≠ [] := by
  fun_induction cut cs with
  | case1 => simp at h
  | case2 c cs ih =>
    rcases List.mem_cons.1 h with rfl | h
    · exact next_text_ne_nil c cs
    · exact ih h

/-! ## String literals -/

theorem stringBody_quote (quote : Char) (cs : List Char) :
    stringBody quote (quote :: cs) = ([quote], cs) := by
  rw [stringBody.eq_def]
  simp

theorem stringBody_escape {quote : Char} (hq : '\\' ≠ quote) (d : Char) (ds : List Char) :
    stringBody quote ('\\' :: d :: ds) =
      ('\\' :: d :: (stringBody quote ds).1, (stringBody quote ds).2) := by
  rw [stringBody.eq_def]
  simp [hq]

theorem stringBody_plain {quote c : Char} (hq : c ≠ quote) (hb : c ≠ '\\') (cs : List Char) :
    stringBody quote (c :: cs) = (c :: (stringBody quote cs).1, (stringBody quote cs).2) := by
  rw [stringBody.eq_def]
  simp [hq, hb]

end Lexeme

/-! ## Places -/

namespace Position

theorem lt_advance (p : Position) (c : Char) : p < p.advance c := by
  unfold advance
  split
  · exact .inl (Nat.lt_succ_self p.line)
  · exact .inr ⟨rfl, Nat.lt_add_of_pos_right (Text.utf16Width_pos c)⟩

theorem le_after (p : Position) (cs : List Char) : p ≤ p.after cs := by
  induction cs generalizing p with
  | nil => exact le_refl p
  | cons c cs ih =>
      have hlt := p.lt_advance c
      have hle := ih (p.advance c)
      rw [after_cons, le_def] at *
      rw [lt_def] at hlt
      omega

theorem lt_after (p : Position) {cs : List Char} (h : cs ≠ []) : p < p.after cs := by
  cases cs with
  | nil => exact absurd rfl h
  | cons c cs =>
      have hlt := p.lt_advance c
      have hle := (p.advance c).le_after cs
      rw [after_cons, lt_def]
      rw [lt_def] at hlt
      rw [le_def] at hle
      omega

end Position

namespace Location

/-- The tokens of a list of lexemes that starts at `l`, without the one for the end of the text. -/
def tokens (l : Location) : List Lexeme → List Token
  | [] => []
  | .layout text :: rest => tokens (l.after text) rest
  | .token kind text :: rest => l.token kind text :: tokens (l.after text) rest

theorem place_eq (l : Location) (xs : List Lexeme) :
    l.place xs = l.tokens xs ++ [(l.after (xs.flatMap Lexeme.text)).token .eof []] := by
  induction xs generalizing l with
  | nil => rfl
  | cons x xs ih =>
      cases x with
      | layout text =>
          rw [place, tokens, ih, List.flatMap_cons, after_append]
          rfl
      | token kind text =>
          rw [place, tokens, ih, List.flatMap_cons, after_append]
          rfl

/-- No token starts before the place from which the text is read, nor ends before it starts. -/
theorem le_of_mem_place {l : Location} {xs : List Lexeme} {t : Token} (h : t ∈ l.place xs) :
    l.position ≤ t.start ∧ t.start ≤ t.stop := by
  induction xs generalizing l with
  | nil =>
      obtain rfl := List.mem_singleton.1 h
      exact ⟨Position.le_refl _, Position.le_refl _⟩
  | cons x xs ih =>
      have hnext (text : List Char) (ht : t ∈ (l.after text).place xs) :
          l.position ≤ t.start ∧ t.start ≤ t.stop :=
        ⟨Position.le_trans (l.position.le_after text) (ih ht).1, (ih ht).2⟩
      cases x with
      | layout text => exact hnext text h
      | token kind text =>
          rcases List.mem_cons.1 h with rfl | h
          · exact ⟨Position.le_refl _, l.position.le_after text⟩
          · exact hnext text h

/-- Tokens stand one behind the other, the end behind all others. -/
theorem inTurn_place (l : Location) (xs : List Lexeme) :
    (l.place xs).Pairwise (·.stop ≤ ·.start) := by
  induction xs generalizing l with
  | nil => exact List.pairwise_singleton _ _
  | cons x xs ih =>
      cases x with
      | layout text => exact ih (l.after text)
      | token kind text => exact .cons (fun t ht => (le_of_mem_place ht).1) (ih (l.after text))

/-- Every token stands for a lexeme. -/
theorem exists_of_mem_tokens {l : Location} {xs : List Lexeme} {t : Token} (h : t ∈ l.tokens xs) :
    ∃ (m : Location) (kind : TokenKind) (text : List Char), Lexeme.token kind text ∈ xs ∧
      t = m.token kind text := by
  induction xs generalizing l with
  | nil => cases h
  | cons x xs ih =>
      cases x with
      | layout text =>
          obtain ⟨m, kind, text, hmem, ht⟩ := ih h
          exact ⟨m, kind, text, List.mem_cons_of_mem _ hmem, ht⟩
      | token kind text =>
          rcases List.mem_cons.1 h with ht | h
          · exact ⟨l, kind, text, List.mem_cons_self, ht⟩
          · obtain ⟨m, kind, text, hmem, ht⟩ := ih h
            exact ⟨m, kind, text, List.mem_cons_of_mem _ hmem, ht⟩

end Location

/-! ## Texts -/

/-- The tokens of a text without the one for its end. -/
def tokensOf (text : String) : List Token := Location.zero.tokens (Lexeme.cut text.toList)

/-- The token for the end of a text. -/
def eofOf (text : String) : Token := (Location.zero.after text.toList).token .eof []

theorem tokenize_eq (text : String) : tokenize text = tokensOf text ++ [eofOf text] := by
  rw [tokenize, Location.place_eq, Lexeme.flatMap_text_cut]
  rfl

@[simp] theorem eofOf_kind (text : String) : (eofOf text).kind = .eof := rfl

theorem ne_eof_of_mem_tokensOf {text : String} {t : Token} (h : t ∈ tokensOf text) :
    t.kind ≠ .eof := by
  intro hk
  obtain ⟨m, kind, text, hmem, rfl⟩ := Location.exists_of_mem_tokens h
  exact Lexeme.kind_ne_eof hmem (congrArg some hk)

/-- A token of a text ends behind where it starts. -/
theorem start_lt_stop_of_mem_tokensOf {text : String} {t : Token} (h : t ∈ tokensOf text) :
    t.start < t.stop := by
  obtain ⟨m, kind, cs, hmem, rfl⟩ := Location.exists_of_mem_tokens h
  exact m.position.lt_after (Lexeme.text_ne_nil hmem)

end FourthGen
