import FourthGen.Token.Basic

set_option autoImplicit false

/-! # The lexer

The lexer works in two steps. `Lexeme.cut` divides a text into lexemes without losing a character:
layout (blanks and comments) or the text of one token. `Location.place` then walks over the lexemes,
drops the layout, and gives every token the place where it stands. No text is refused: a character
that starts nothing else becomes a token of kind `unknown`. -/

namespace FourthGen

/-! ## Lexemes -/

/-- A piece of the source as the lexer cuts it: layout, which leaves no token, or a token. -/
inductive Lexeme where
  | layout (text : List Char)
  | token (kind : TokenKind) (text : List Char)
  deriving DecidableEq, Repr

namespace Lexeme

/-- The characters of a lexeme. -/
def text : Lexeme → List Char
  | layout text => text
  | token _ text => text

/-- Blanks within a line. A carriage return is one of them; a line feed is not. -/
def isBlank (c : Char) : Bool := c == ' ' || c == '\t' || c == '\r'

/-- Characters that open, and close, a string literal. -/
def isQuote (c : Char) : Bool := c == '"' || c == '\''

/-- Characters of a number after its first digit: digits and dots in any mixture. -/
def isNumberRest (c : Char) : Bool := c.isDigit || c == '.'

/-- Whether a comment starts at `c` followed by `cs`. -/
def startsComment (c : Char) (cs : List Char) : Bool :=
  c == '#' || (c == '-' && cs.head? == some '-')

/-- What belongs to a string literal after its opening quote, and what follows it. A backslash
    takes the next character with it; without a closing quote the literal runs to the end. -/
def stringBody (quote : Char) : List Char → List Char × List Char
  | [] => ([], [])
  | c :: cs =>
    if c = quote then ([c], cs)
    else if c = '\\' then
      match cs with
      | [] => ([c], [])
      | d :: ds =>
        let body := stringBody quote ds
        (c :: d :: body.1, body.2)
    else
      let body := stringBody quote cs
      (c :: body.1, body.2)

/-- The kind of a word: a reserved word if it spells one, an identifier otherwise. -/
def wordKind (word : List Char) : TokenKind :=
  (TokenKind.ofWord? (String.ofList word)).getD .identifier

/-- The kind of a single character that is no part of a longer token. -/
def charKind (c : Char) : TokenKind := (Punctuation.ofChar? c).elim .unknown .symbol

/-- A symbol of two characters if there is one, else a token of one character. -/
def symbol (c : Char) (cs : List Char) : Lexeme × List Char :=
  match cs with
  | [] => (token (charKind c) [c], [])
  | d :: ds =>
    match Punctuation.ofPair? c d with
    | some mark => (token (.symbol mark) [c, d], ds)
    | none => (token (charKind c) [c], d :: ds)

/-- The lexeme at the head of a text that starts with `c`, and the text after it. -/
def next (c : Char) (cs : List Char) : Lexeme × List Char :=
  if isBlank c then (layout (c :: cs.takeWhile isBlank), cs.dropWhile isBlank)
  else if startsComment c cs then (layout (c :: cs.takeWhile (· != '\n')), cs.dropWhile (· != '\n'))
  else if isQuote c then
    let body := stringBody c cs
    (token .stringLiteral (c :: body.1), body.2)
  else if c.isDigit then
    (token .numberLiteral (c :: cs.takeWhile isNumberRest), cs.dropWhile isNumberRest)
  else if Text.isNameStart c then
    let word := c :: cs.takeWhile Text.isNameRest
    (token (wordKind word) word, cs.dropWhile Text.isNameRest)
  else if c = '\n' then (token .newline [c], cs)
  else symbol c cs

/-! ### Nothing is lost -/

theorem stringBody_append (quote : Char) (cs : List Char) :
    (stringBody quote cs).1 ++ (stringBody quote cs).2 = cs := by
  fun_induction stringBody quote cs with
  | case1 => rfl
  | case2 => rfl
  | case3 => rfl
  | case4 d ds _ _ ih => simpa using ih
  | case5 c cs _ _ _ ih => simpa using ih

theorem symbol_append (c : Char) (cs : List Char) :
    (symbol c cs).1.text ++ (symbol c cs).2 = c :: cs := by
  unfold symbol
  split
  · rfl
  · split <;> rfl

/-- Cutting a lexeme off a text loses nothing. -/
theorem next_append (c : Char) (cs : List Char) : (next c cs).1.text ++ (next c cs).2 = c :: cs := by
  unfold next
  split
  · simp [text]
  · split
    · simp [text]
    · split
      · simp [text, stringBody_append]
      · split
        · simp [text]
        · split
          · simp [text]
          · split
            · rfl
            · exact symbol_append c cs

theorem symbol_text_ne_nil (c : Char) (cs : List Char) : (symbol c cs).1.text ≠ [] := by
  unfold symbol
  split
  · simp [text]
  · split <;> simp [text]

/-- A lexeme is never empty. -/
theorem next_text_ne_nil (c : Char) (cs : List Char) : (next c cs).1.text ≠ [] := by
  unfold next
  split
  · simp [text]
  · split
    · simp [text]
    · split
      · simp [text]
      · split
        · simp [text]
        · split
          · simp [text]
          · split
            · simp [text]
            · exact symbol_text_ne_nil c cs

theorem next_length (c : Char) (cs : List Char) : (next c cs).2.length < (c :: cs).length := by
  have h := congrArg List.length (next_append c cs)
  have := List.length_pos_iff.2 (next_text_ne_nil c cs)
  simp only [List.length_append] at h
  omega

/-- The lexemes of a text, in order. -/
def cut : List Char → List Lexeme
  | [] => []
  | c :: cs => (next c cs).1 :: cut (next c cs).2
termination_by cs => cs.length
decreasing_by exact next_length c cs

theorem cut_nil : cut [] = [] := by rw [cut]

theorem cut_cons (c : Char) (cs : List Char) :
    cut (c :: cs) = (next c cs).1 :: cut (next c cs).2 := by rw [cut]

/-- The lexemes of a text, put together again, are the text. -/
theorem flatMap_text_cut (cs : List Char) : (cut cs).flatMap text = cs := by
  fun_induction cut cs with
  | case1 => rfl
  | case2 c cs ih => simp [ih, next_append]

end Lexeme

/-! ## Locations -/

/-- A place in a text, both as a byte offset and as a position. -/
structure Location where
  offset : Nat
  position : Position
  deriving DecidableEq, Repr, Inhabited

namespace Location

/-- Where a text begins. -/
def zero : Location := ⟨0, .zero⟩

/-- The place after a text that starts at `l`. -/
def after (l : Location) (cs : List Char) : Location :=
  ⟨l.offset + Text.utf8Length cs, l.position.after cs⟩

@[simp] theorem after_nil (l : Location) : l.after [] = l := rfl

@[simp] theorem after_append (l : Location) (a b : List Char) :
    l.after (a ++ b) = (l.after a).after b := by
  simp [after, Nat.add_assoc]

/-- The token of the given kind and text that starts at `l`. -/
def token (l : Location) (kind : TokenKind) (text : List Char) : Token where
  kind := kind
  text := String.ofList text
  span := ⟨l.offset, (l.after text).offset⟩
  start := l.position
  stop := (l.after text).position

/-- The tokens of a list of lexemes that starts at `l`, the token for the end of the text last. -/
def place (l : Location) : List Lexeme → List Token
  | [] => [l.token .eof []]
  | .layout text :: rest => place (l.after text) rest
  | .token kind text :: rest => l.token kind text :: place (l.after text) rest

end Location

/-! ## Tokens of a text -/

/-- The tokens of a text. The last one, and only that one, is of kind `eof`. -/
def tokenize (text : String) : List Token := Location.zero.place (Lexeme.cut text.toList)

/-- The first `count` tokens of a text that is read on past its end: the token for the end is then
    repeated. -/
def firstTokens (text : String) (count : Nat) : List Token :=
  let tokens := tokenize text
  (tokens ++ List.replicate count (tokens.getLastD default)).take count

end FourthGen
