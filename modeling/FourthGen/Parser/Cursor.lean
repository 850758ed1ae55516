import FourthGen.Syntax.Error
import FourthGen.Token.Lexer

set_option autoImplicit false

/-! # The parser's cursor

A cursor stands between the tokens already consumed and the tokens still ahead. It only ever moves
forward (`Cursor.Reaches`), and it never moves past the token for the end of the text, which is kept
apart from the others. -/

namespace FourthGen

/-- A place in a list of tokens. `before` holds the consumed tokens, the latest first; `ahead` the
    others without the token for the end of the text, which is `eof`. -/
structure Cursor where
  before : List Token
  ahead : List Token
  eof : Token
  deriving DecidableEq, Repr, Inhabited

namespace Cursor

/-- The token for the end of a list of tokens that has none: it stands behind the last token. -/
def endOf (tokens : List Token) : Token :=
  match tokens.getLast? with
  | some last => ⟨.eof, "", last.span, last.stop, last.stop⟩
  | none => ⟨.eof, "", ⟨0, 0⟩, .zero, .zero⟩

/-- The cursor at the start of a list of tokens, which ends at its first `eof` token, or, without
    one, behind its last token. -/
def ofTokens (tokens : List Token) : Cursor where
  before := []
  ahead := tokens.takeWhile (·.kind != .eof)
  eof := (tokens.find? (·.kind == .eof)).getD (endOf tokens)

/-- The cursor at the start of a text. -/
def ofText (text : String) : Cursor := ofTokens (tokenize text)

/-! ## Looking around -/

/-- The token `n` places ahead, counted from zero; behind the end it is always the end. -/
def peekNth (s : Cursor) (n : Nat) : Token := s.ahead.getD n s.eof

/-- The token at the cursor. -/
def peek (s : Cursor) : Token := s.ahead.headD s.eof

theorem peekNth_zero (s : Cursor) : s.peekNth 0 = s.peek := by
  unfold peekNth peek
  cases s.ahead <;> rfl

/-- The kind of the token at the cursor. -/
def kind (s : Cursor) : TokenKind := s.peek.kind

/-- Whether all tokens are consumed. -/
def atEnd (s : Cursor) : Bool := s.ahead.isEmpty

/-- Whether the next token is of the given kind; nothing is, at the end. -/
def check (s : Cursor) (kind : TokenKind) : Bool := s.ahead.head?.any (·.kind == kind)

/-- Whether the next token is an identifier that spells `word`, in any mixture of cases. -/
def atWord (s : Cursor) (word : String) : Bool := s.peek.isWord word

/-- The token last consumed; before any was consumed, the first one. -/
def previous (s : Cursor) : Token := s.before.headD s.peek

/-- The first token of the whole list. -/
def first (s : Cursor) : Token := s.before.getLast?.getD s.peek

/-- The range of the token last consumed that is no separator; without one, of the first token. A
    node that is complete at this cursor ends where this range ends. -/
def previousRange (s : Cursor) : Range :=
  ((s.before.find? (!·.kind.isSeparator)).getD s.first).range

/-- The words that, though not reserved, close a declaration or the first half of `END IF`. -/
def closingWords : List String := ["END", "ENDFUNCTION", "ENDPROCEDURE"]

/-- Whether a block of statements stops at the next token: at a closing word or at `ELSE`. What
    closes which block is for the enclosing construct to say. -/
def atBlockEnd (s : Cursor) : Bool :=
  match s.kind with
  | .keyword .ENDIF | .keyword .ENDWHILE | .keyword .ENDFOR | .keyword .ELSE => true
  | .identifier => closingWords.any s.atWord
  | _ => false

/-- Whether a declaration starts at the next token. -/
def atRoutine (s : Cursor) : Bool :=
  match s.kind with
  | .keyword .FUNCTION | .keyword .PROCEDURE => true
  | _ => false

/-- The kinds that open a statement with a block of its own. -/
def opensCompound : TokenKind → Bool
  | .keyword .IF | .keyword .WHILE | .keyword .FOR => true
  | _ => false

/-- Whether a compound statement is closed here, by one word or by `END` and its opening word. -/
def atCompoundEnd (s : Cursor) : Bool :=
  match s.kind with
  | .keyword .ENDIF | .keyword .ENDWHILE | .keyword .ENDFOR => true
  | _ => s.atWord "END" && opensCompound (s.peekNth 1).kind

/-- The error that complains about the token at the cursor. -/
def errorHere (s : Cursor) (complaint : Complaint) : SyntaxError := .about s.peek complaint

/-! ## Moving forward -/

/-- `t` lies ahead of `s`, or is `s`, in the same list of tokens. -/
def Reaches (s t : Cursor) : Prop :=
  ∃ consumed, s.ahead = consumed ++ t.ahead ∧ t.before = consumed.reverse ++ s.before ∧
    t.eof = s.eof

namespace Reaches

theorem refl (s : Cursor) : s.Reaches s := ⟨[], by simp⟩

theorem trans {s t u : Cursor} (h : s.Reaches t) (k : t.Reaches u) : s.Reaches u := by
  obtain ⟨a, ha, ha', ha''⟩ := h
  obtain ⟨b, hb, hb', hb''⟩ := k
  exact ⟨a ++ b, by simp [ha, hb], by simp [ha', hb'], by simp [ha'', hb'']⟩

theorem length_le {s t : Cursor} (h : s.Reaches t) : t.ahead.length ≤ s.ahead.length := by
  obtain ⟨a, ha, -⟩ := h
  simp [ha]

end Reaches

/-- The cursor behind the next token; at the end it stays. -/
def advance (s : Cursor) : Cursor :=
  match s.ahead with
  | [] => s
  | t :: rest => ⟨t :: s.before, rest, s.eof⟩

theorem reaches_advance (s : Cursor) : s.Reaches s.advance := by
  unfold advance
  split
  · exact .refl s
  · next t rest h => exact ⟨[t], by simp [h]⟩

theorem length_advance_le (s : Cursor) : s.advance.ahead.length ≤ s.ahead.length :=
  s.reaches_advance.length_le

theorem length_advance_lt {s : Cursor} (h : s.atEnd = false) :
    s.advance.ahead.length < s.ahead.length := by
  unfold advance
  split
  · next hs => simp [atEnd, hs] at h
  · next hs => simp [hs]

theorem atEnd_eq_false_of_check {s : Cursor} {kind : TokenKind} (h : s.check kind = true) :
    s.atEnd = false := by
  unfold check at h
  unfold atEnd
  cases hs : s.ahead with
  | nil => simp [hs] at h
  | cons t rest => rfl

/-- The first cursor, from `s` on, that is at the end or where `stop` holds. -/
def skipUntil (stop : Cursor → Bool) (s : Cursor) : Cursor :=
  if s.atEnd || stop s then s else skipUntil stop s.advance
termination_by s.ahead.length
decreasing_by exact length_advance_lt (by simp_all)

theorem reaches_skipUntil (stop : Cursor → Bool) (s : Cursor) : s.Reaches (s.skipUntil stop) := by
  fun_induction skipUntil stop s with
  | case1 s h => exact .refl s
  | case2 s h ih => exact s.reaches_advance.trans ih

/-- Skips the separators between statements. -/
def skipSeparators (s : Cursor) : Cursor := s.skipUntil (!·.kind.isSeparator)

/-- Skips what is left of a line: everything up to the next separator. -/
def skipLine (s : Cursor) : Cursor := s.skipUntil (·.kind.isSeparator)

/-- The kinds at which reading can start again after an error. -/
def restartsAt : TokenKind → Bool
  | .keyword .FUNCTION | .keyword .PROCEDURE | .keyword .IF | .keyword .WHILE | .keyword .FOR
  | .keyword .RETURN => true
  | _ => false

/-- Recovers after an error: drops at least one token, and stops behind a separator, before a token
    at which reading can start again, or before the end of a block. -/
def synchronize (s : Cursor) : Cursor :=
  s.advance.skipUntil fun t => t.previous.kind.isSeparator || restartsAt t.kind || t.atBlockEnd

/-- Skips the statements of a block together with the compound statements among them, of which
    `opened` are still open. Stops before the token that closes the block itself, before a
    declaration, or at the end. A word that closes a declaration stops the skipping at any depth. -/
def skipBlock (opened : Nat) (s : Cursor) : Cursor :=
  if s.atEnd || s.atRoutine then s
  else if s.atCompoundEnd then
    match opened with
    | 0 => s
    | opened + 1 => skipBlock opened (if s.atWord "END" then s.advance.advance else s.advance)
  else if s.atBlockEnd && (opened == 0 || !s.check (.keyword .ELSE)) then s
  else skipBlock (if opensCompound s.kind then opened + 1 else opened) s.advance
termination_by s.ahead.length
decreasing_by
  · have h := length_advance_lt (s := s) (by simp_all)
    split
    · exact Nat.lt_of_le_of_lt s.advance.length_advance_le h
    · exact h
  · exact length_advance_lt (by simp_all)

theorem reaches_skipSeparators (s : Cursor) : s.Reaches s.skipSeparators := s.reaches_skipUntil _

theorem reaches_skipLine (s : Cursor) : s.Reaches s.skipLine := s.reaches_skipUntil _

theorem reaches_synchronize (s : Cursor) : s.Reaches s.synchronize :=
  s.reaches_advance.trans (s.advance.reaches_skipUntil _)

theorem reaches_skipBlock (opened : Nat) (s : Cursor) : s.Reaches (s.skipBlock opened) := by
  fun_induction skipBlock opened s with
  | case1 | case2 | case4 => exact .refl _
  | case3 s _ _ opened ih =>
    refine Reaches.trans ?_ ih
    split
    · exact s.reaches_advance.trans s.advance.reaches_advance
    · exact s.reaches_advance
  | case5 opened s _ _ _ ih => exact s.reaches_advance.trans ih

/-- The cursor moved on by one token if it has not moved since `start`. -/
def ensureProgress (start s : Cursor) : Cursor :=
  if s.ahead.length = start.ahead.length then s.advance else s

theorem reaches_ensureProgress (start s : Cursor) : s.Reaches (ensureProgress start s) := by
  unfold ensureProgress
  split
  · exact s.reaches_advance
  · exact .refl s

theorem length_ensureProgress_lt {start s : Cursor} (h : start.Reaches s)
    (hs : start.atEnd = false) : (ensureProgress start s).ahead.length < start.ahead.length := by
  have hle := h.length_le
  unfold ensureProgress
  split
  · next heq =>
    have hne : s.atEnd = false := by
      simp only [atEnd, List.isEmpty_eq_false_iff_exists_mem] at hs ⊢
      obtain ⟨t, ht⟩ := hs
      cases hsa : s.ahead with
      | nil =>
        rw [hsa] at heq
        have hnil := List.length_eq_zero_iff.1 heq.symm
        simp [hnil] at ht
      | cons u rest => exact ⟨u, by simp⟩
    have := length_advance_lt hne
    omega
  · omega

end Cursor

end FourthGen
