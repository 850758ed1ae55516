import FourthGen.Proofs.Token.Munch

set_option autoImplicit false

/-! # The spacing of a text

What the tokens of a text are does not depend on how they are spaced. Put down one behind the other with
a single blank between them, they are read as the same tokens again (`face_tokenize_normalForm`): a
blank ends any token, joins to none, and starts no comment. The one token that a blank would not end
is a string literal without its closing quote, and that token is the last one of its text. -/

namespace FourthGen

/-- What a token is, without where it stands. -/
def Token.face (t : Token) : TokenKind × String := (t.kind, t.text)

/-! ## Tokens before a blank -/

theorem Punctuation.ofPair_blank (c : Char) : Punctuation.ofPair? c ' ' = none := by
  unfold Punctuation.ofPair?
  split <;> simp_all

/-- A token keeps its form if what follows it starts with a blank, or is nothing where nothing more
    follows. -/
theorem TokenForm.before_blank {kind : TokenKind} {text rest rest' : List Char}
    (h : TokenForm kind text rest) (hrest : rest = [] → rest' = [])
    (hblank : ∀ d, rest'.head? = some d → d = ' ') : TokenForm kind text rest' := by
  have hpair (c d : Char) (hd : rest'.head? = some d) : Punctuation.ofPair? c d = none := by
    rw [hblank d hd, Punctuation.ofPair_blank]
  cases h with
  | string hq hbody => exact .string hq hbody
  | openString hq hbody =>
      rw [hrest rfl]
      exact .openString hq hbody
  | openEscape hq hbody =>
      rw [hrest rfl]
      exact .openEscape hq hbody
  | number hc hcs hend =>
      refine .number hc hcs ?_
      intro d hd
      rw [hblank d hd]
      decide
  | word hc hcs hend hk =>
      refine .word hc hcs ?_ hk
      intro d hd
      rw [hblank d hd]
      decide
  | newline => exact .newline
  | @symbol mark rest hmax =>
      obtain ⟨c, hc⟩ | ⟨c, d, hc⟩ := Lexeme.spelling_cases mark
      · rw [hc]
        exact Lexeme.form_of_char (Lexeme.ofChar_eq_some_iff.2 hc) (hpair c)
      · rw [hc]
        exact Lexeme.form_of_pair (Lexeme.ofPair_eq_some_iff.2 hc)
  | @unknown c rest hblank' hcomment hquote hdigit hname hline hsymbol =>
      refine .unknown hblank' ?_ hquote hdigit hname hline ?_
      · -- a single dash starts no comment before a blank
        rw [← Lexeme.startsComment_iff] at hcomment ⊢
        unfold Lexeme.startsComment at hcomment ⊢
        cases rest' with
        | nil => simp_all
        | cons d rest' => simp_all
      · intro mark hmark
        obtain hchar | ⟨d, hd, hmark⟩ := Lexeme.spelling_isPrefix_iff.1 hmark
        · exact hsymbol mark (Lexeme.spelling_isPrefix_iff.2 (.inl hchar))
        · rw [hpair c d hd] at hmark
          cases hmark

/-! ## Faces -/

namespace Lexeme

/-- What the token of a lexeme is, if it leaves one. -/
def face? : Lexeme → Option (TokenKind × String)
  | layout _ => none
  | token kind text => some (kind, String.ofList text)

/-- What the tokens of a text are. -/
def faces (cs : List Char) : List (TokenKind × String) := (cut cs).filterMap face?

theorem faces_nil : faces [] = [] := by rw [faces, cut_nil, List.filterMap_nil]

theorem faces_of_layout {c : Char} {cs text rest : List Char} (h : next c cs = (layout text, rest)) :
    faces (c :: cs) = faces rest := by
  rw [faces, cut_cons, h]
  rfl

theorem faces_of_token {c : Char} {cs text rest : List Char} {kind : TokenKind}
    (h : next c cs = (token kind text, rest)) :
    faces (c :: cs) = (kind, String.ofList text) :: faces rest := by
  rw [faces, cut_cons, h]
  rfl

/-- A token that has its form is read where it stands. -/
theorem faces_of_form {kind : TokenKind} {text rest : List Char} (h : TokenForm kind text rest) :
    faces (text ++ rest) = (kind, String.ofList text) :: faces rest := by
  obtain ⟨c, cs, happ, hnext⟩ := next_of_form h
  rw [happ, faces_of_token hnext]

theorem next_of_blank {c : Char} (h : isBlank c = true) (cs : List Char) :
    next c cs = (layout (c :: cs.takeWhile isBlank), cs.dropWhile isBlank) := if_pos h

/-- Blanks leave no token. -/
theorem faces_blank {c : Char} (h : isBlank c = true) (cs : List Char) :
    faces (c :: cs) = faces cs := by
  rw [faces_of_layout (next_of_blank h cs)]
  cases cs with
  | nil => rfl
  | cons d ds =>
      by_cases hd : isBlank d = true
      · rw [List.dropWhile_cons_of_pos hd, faces_of_layout (next_of_blank hd ds)]
      · rw [List.dropWhile_cons_of_neg hd]

/-- The texts of tokens, with a single blank between them. -/
def spaced (faces : List (TokenKind × String)) : String := " ".intercalate (faces.map (·.2))

/-- The tokens of a text, spaced evenly, are read as the same tokens. -/
theorem faces_spaced (cs : List Char) : faces (spaced (faces cs)).toList = faces cs := by
  fun_induction cut cs with
  | case1 =>
      rw [faces_nil, spaced, List.map_nil, String.intercalate_nil]
      exact faces_nil
  | case2 c cs ih =>
      have hfits := next_fits c cs
      generalize hnext : next c cs = r at hfits ih
      obtain ⟨x, rest⟩ := r
      cases x with
      | layout text =>
          rw [faces_of_layout hnext]
          exact ih
      | token kind text =>
          rw [faces_of_token hnext]
          by_cases hmore : faces rest = []
          · -- the last token, behind which nothing stands any more
            have hform : TokenForm kind text [] := hfits.before_blank (fun _ => rfl) (by simp)
            have hread := faces_of_form hform
            rw [List.append_nil, faces_nil] at hread
            rw [hmore, spaced, List.map_singleton, String.intercalate_singleton, String.toList_ofList]
            exact hread
          · have hrest : rest ≠ [] := by
              rintro rfl
              exact hmore faces_nil
            have hform : TokenForm kind text (' ' :: (spaced (faces rest)).toList) :=
              hfits.before_blank (fun h => absurd h hrest) (by simp)
            have htext : (spaced ((kind, String.ofList text) :: faces rest)).toList =
                text ++ ' ' :: (spaced (faces rest)).toList := by
              rw [spaced, List.map_cons, String.intercalate_cons_of_ne_nil (by simpa using hmore)]
              simp [spaced]
            rw [htext, faces_of_form hform, faces_blank rfl, ih]

end Lexeme

theorem Location.face_tokens (l : Location) (xs : List Lexeme) :
    (l.tokens xs).map Token.face = xs.filterMap Lexeme.face? := by
  induction xs generalizing l with
  | nil => rfl
  | cons x xs ih =>
      cases x with
      | layout text =>
          rw [tokens, ih]
          rfl
      | token kind text =>
          rw [tokens, List.map_cons, ih]
          rfl

theorem face_tokensOf (text : String) : (tokensOf text).map Token.face = Lexeme.faces text.toList :=
  Location.face_tokens _ _

/-! ## The normal form of a text -/

/-- The text with a single blank between its tokens, and no other layout. -/
def normalForm (text : String) : String :=
  " ".intercalate (((tokenize text).filter (·.kind != .eof)).map (·.text))

theorem filter_tokenize (text : String) : (tokenize text).filter (·.kind != .eof) = tokensOf text := by
  rw [tokenize_eq, List.filter_append, List.filter_eq_self.2, List.filter_cons_of_neg (by simp),
    List.filter_nil, List.append_nil]
  intro t ht
  simpa using ne_eof_of_mem_tokensOf ht

theorem normalForm_eq (text : String) : normalForm text = Lexeme.spaced (Lexeme.faces text.toList) := by
  rw [normalForm, filter_tokenize, Lexeme.spaced, ← face_tokensOf, List.map_map]
  rfl

theorem face_tokenize (text : String) :
    (tokenize text).map Token.face = Lexeme.faces text.toList ++ [(.eof, "")] := by
  rw [tokenize_eq, List.map_append, face_tokensOf]
  rfl

/-- A text and its normal form are read as the same tokens. -/
theorem face_tokenize_normalForm (text : String) :
    (tokenize (normalForm text)).map Token.face = (tokenize text).map Token.face := by
  rw [face_tokenize, face_tokenize, normalForm_eq, Lexeme.faces_spaced]

end FourthGen
