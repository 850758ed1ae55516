import FourthGen.Text.Position
import FourthGen.Token.Kind

set_option autoImplicit false

/-! # Tokens

A token is a kind, its text as written, and where it stands: by byte offsets and by positions. -/

namespace FourthGen

/-- A token of the source text. -/
structure Token where
  kind : TokenKind
  text : String
  span : Span
  start : Position
  stop : Position
  deriving DecidableEq, Repr, Inhabited

namespace Token

/-- The line of the token as shown to people, counted from one. -/
def line (t : Token) : Nat := t.start.line + 1

/-- The column of the token as shown to people, counted from one. -/
def column (t : Token) : Nat := t.start.character + 1

/-- The range that the token covers. -/
def range (t : Token) : Range := .between t.start t.stop

/-- The range that an error at this token marks: at least one column wide, so that the end of
    the text can be marked too. -/
def errorRange (t : Token) : Range :=
  if t.start = t.stop then .between t.start ⟨t.start.line, t.start.character + 1⟩ else t.range

/-- Whether the token is an identifier that spells `word`, in any mixture of cases. -/
def isWord (t : Token) (word : String) : Bool :=
  t.kind == .identifier && Text.sameWord t.text word

end Token

end FourthGen
