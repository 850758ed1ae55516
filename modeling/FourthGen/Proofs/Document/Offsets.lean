import FourthGen.Proofs.Document.Lines
import FourthGen.Proofs.Token.Places

set_option autoImplicit false

/-! # Positions and byte offsets

The lexer counts lines and columns as it goes; a document finds the offset of a position by its table of
lines. Both are told here by dividing a text in two: the line on which the first half ends is what
follows its last line feed, together with the second half up to its first one
(`Text.line_of_split`). So the offset of the position where the first half ends is the length of that
half in bytes (`Document.offsetAt?_of_split`), unless it ends behind a carriage return that belongs to
the end of the line. No token starts there, and only a string literal without its closing quote can end
there. -/

namespace FourthGen

/-! ## Lines of a divided text -/

namespace Text

/-- The rest of a line. -/
def restOfLine (cs : List Char) : List Char := cs.takeWhile (· != '\n')

theorem exists_pieces (cs : List Char) : ∃ rest, pieces cs = restOfLine cs :: rest := by
  induction cs with
  | nil => exact ⟨[], rfl⟩
  | cons c cs ih =>
      by_cases hc : c = '\n'
      · subst hc
        exact ⟨pieces cs, rfl⟩
      · obtain ⟨rest, hrest⟩ := ih
        exact ⟨rest, by rw [pieces_cons hc hrest]; simp [restOfLine, hc]⟩

theorem lastLine_cons (c : Char) (cs : List Char) :
    lastLine (c :: cs) = if c = '\n' ∨ '\n' ∈ cs then lastLine cs else c :: lastLine cs := by
  induction cs using List.reverseRecOn with
  | nil =>
      by_cases hc : c = '\n'
      · simp [lastLine, hc]
      · simp [lastLine, hc]
  | append_singleton cs d ih =>
      rw [← List.cons_append]
      by_cases hd : d = '\n'
      · subst hd
        rw [lastLine_lineFeed, lastLine_lineFeed, if_pos (by simp)]
      · have hmem : '\n' ∈ cs ++ [d] ↔ '\n' ∈ cs := by simp [Ne.symm hd]
        rw [lastLine_concat hd, lastLine_concat hd, ih]
        simp only [hmem]
        split
        · rfl
        · rw [List.cons_append]

/-- The line on which the first half of a text ends, and what stands before that line. -/
theorem line_of_split (left right : List Char) :
    (pieces (left ++ right))[left.count '\n']? = some (lastLine left ++ restOfLine right) ∧
      upTo (left.count '\n') (left ++ right) ++ lastLine left = left := by
  unfold upTo
  induction left with
  | nil =>
      obtain ⟨rest, hrest⟩ := exists_pieces right
      simp [hrest]
  | cons c left ih =>
      obtain ⟨hline, hbefore⟩ := ih
      by_cases hc : c = '\n'
      · subst hc
        rw [List.cons_append, pieces_lineFeed, List.count_cons_self, lastLine_cons, if_pos (.inl rfl)]
        exact ⟨hline, by simpa using hbefore⟩
      · obtain ⟨rest, hpieces⟩ := exists_pieces (left ++ right)
        rw [List.cons_append, pieces_cons hc hpieces, List.count_cons_of_ne hc, lastLine_cons]
        rw [hpieces] at hline hbefore
        cases hcount : left.count '\n' with
        | zero =>
            -- the first half has no line feed, so its line is the first one
            rw [hcount] at hline hbefore
            have hnot : '\n' ∉ left := List.count_eq_zero.1 hcount
            rw [if_neg (by simp [hc, hnot])]
            simp only [List.getElem?_cons_zero, Option.some.injEq] at hline
            simp only [List.take_zero, List.flatMap_nil, List.nil_append] at hbefore
            simp [hline, hbefore]
        | succ n =>
            rw [hcount] at hline hbefore
            have hmem : '\n' ∈ left := List.count_pos_iff.1 (by omega)
            rw [if_pos (.inr hmem)]
            exact ⟨hline, by simpa using hbefore⟩

/-- Dividing a line where its first half ends gives the halves. -/
theorem splitAtColumn_utf16Length (a b : List Char) :
    splitAtColumn (utf16Length a) (a ++ b) = (a, b) :=
  splitAtMeasure_total utf16Width_pos a b

theorem dropReturn_append {b : List Char} (hb : b ≠ []) (a : List Char) :
    dropReturn (a ++ b) = a ++ dropReturn b := by
  obtain ⟨d, hd⟩ : ∃ d, b.getLast? = some d := ⟨_, List.getLast?_eq_some_getLast hb⟩
  have hlast : (a ++ b).getLast? = some d := by rw [List.getLast?_append, hd]; rfl
  unfold dropReturn
  rw [hlast, hd]
  split
  · exact List.dropLast_append_of_ne_nil hb
  · rfl

/-- A place behind a carriage return that belongs to the end of a line. -/
def BehindReturn (left right : List Char) : Prop :=
  left.getLast? = some '\r' ∧ ∀ c, right.head? = some c → c = '\n'

/-- The end of a line loses its carriage return without what stands before it. -/
theorem dropReturn_of_split {left right : List Char} (h : ¬ BehindReturn left right) :
    dropReturn (lastLine left ++ restOfLine right) =
      lastLine left ++ dropReturn (restOfLine right) := by
  by_cases hright : restOfLine right = []
  · have hhead : ∀ c, right.head? = some c → c = '\n' := by
      intro c hc
      obtain ⟨rest, rfl⟩ := List.head?_eq_some_iff.1 hc
      by_contra hne
      simp [restOfLine, hne] at hright
    have hlast : (lastLine left).getLast? ≠ some '\r' := by
      intro hreturn
      refine h ⟨?_, hhead⟩
      obtain ⟨front, hfront⟩ := List.getLast?_eq_some_iff.1 hreturn
      have hleft := (line_of_split left right).2
      rw [hfront, ← List.append_assoc] at hleft
      rw [← hleft, List.getLast?_concat]
    have hnil : dropReturn [] = [] := rfl
    rw [hright, hnil, List.append_nil, dropReturn, if_neg hlast]
  · exact dropReturn_append hright (lastLine left)

end Text

/-! ## Offsets of positions -/

namespace Document

open Text

theorem line?_of_split {d : Document} {left right : List Char} (hd : d.text.toList = left ++ right)
    (h : ¬ BehindReturn left right) :
    d.line? (left.count '\n') = some (lastLine left ++ dropReturn (restOfLine right)) := by
  rw [line?_eq, hd, lines, List.getElem?_map, (line_of_split left right).1, Option.map_some,
    dropReturn_of_split h]

theorem lineStart_of_split {d : Document} {left right : List Char}
    (hd : d.text.toList = left ++ right) :
    d.lineStart (left.count '\n') + utf8Length (lastLine left) = utf8Length left := by
  have hlt : left.count '\n' < d.lineCount := by
    rw [lineCount_eq_length, hd]
    exact (List.getElem?_eq_some_iff.1 (line_of_split left right).1).1
  rw [lineStart_eq d hlt, hd, ← utf8Length_append, (line_of_split left right).2]

/-- The offset of the position where the first half of a text ends is the length of that half. -/
theorem offsetAt?_of_split {d : Document} {left right : List Char}
    (hd : d.text.toList = left ++ right) (h : ¬ BehindReturn left right) :
    d.offsetAt? (Position.zero.after left) = some (utf8Length left) := by
  rw [Position.after_zero, offsetAt?, line?_of_split hd h, Option.map_some, splitAtColumn_utf16Length,
    lineStart_of_split hd]

end Document

/-! ## Where tokens start and end -/

/-- A string literal with its closing quote. -/
def ClosedLiteral (part : List Char) : Prop :=
  ∃ quote body, Quoted quote body ∧ part = quote :: (body ++ [quote])

/-- A string literal that runs to the end of the text because nothing closes it. -/
def Token.IsOpenString (t : Token) : Prop :=
  t.kind = .stringLiteral ∧ ¬ ClosedLiteral t.text.toList

namespace TokenForm

variable {kind : TokenKind} {part rest : List Char}

theorem ne_nil (h : TokenForm kind part rest) : part ≠ [] := by
  cases h with
  | @symbol mark rest hmax => cases mark <;> simp [Punctuation.spelling]
  | _ => simp

/-- Only a line feed starts with a line feed. -/
theorem head_ne_lineFeed (h : TokenForm kind part rest) (hk : kind ≠ .newline) :
    part.head? ≠ some '\n' := by
  cases h with
  | string hq _ => rcases hq with rfl | rfl <;> simp
  | openString hq _ => rcases hq with rfl | rfl <;> simp
  | openEscape hq _ => rcases hq with rfl | rfl <;> simp
  | number hc _ _ =>
      rintro ⟨rfl⟩
      cases hc
  | word hc _ _ _ =>
      rintro ⟨rfl⟩
      cases hc
  | newline => exact absurd rfl hk
  | @symbol mark rest hmax => cases mark <;> simp [Punctuation.spelling]
  | unknown _ _ _ _ _ hline _ =>
      rintro ⟨rfl⟩
      exact hline rfl

/-- Only a string literal without its closing quote ends with a carriage return. -/
theorem getLast_ne_return (h : TokenForm kind part rest)
    (hclosed : kind = .stringLiteral → ClosedLiteral part) : part.getLast? ≠ some '\r' := by
  -- a closed literal ends with the quote with which it starts
  have hstring {quote : Char} {body : List Char} (hq : quote = '"' ∨ quote = '\'')
      (hc : ClosedLiteral (quote :: body)) : (quote :: body).getLast? ≠ some '\r' := by
    obtain ⟨quote', body', -, heq⟩ := hc
    cases heq
    rw [← List.cons_append, List.getLast?_concat]
    rcases hq with rfl | rfl <;> simp
  -- a run of characters none of which is a carriage return
  have hrun {p : Char → Bool} {c : Char} {cs : List Char} (hp : p '\r' = false) (hc : p c = true)
      (hcs : ∀ d ∈ cs, p d = true) : (c :: cs).getLast? ≠ some '\r' := by
    intro hlast
    rcases List.mem_cons.1 (List.mem_of_getLast? hlast) with rfl | hmem
    · rw [hp] at hc
      cases hc
    · have := hcs _ hmem
      rw [hp] at this
      cases this
  cases h with
  | string hq _ => exact hstring hq (hclosed rfl)
  | openString hq _ => exact hstring hq (hclosed rfl)
  | openEscape hq _ => exact hstring hq (hclosed rfl)
  | @number c cs _ hc hcs _ =>
      refine @hrun Lexeme.isNumberRest c cs rfl ?_ fun d hd => Lexeme.isNumberRest_iff.2 (hcs d hd)
      exact Lexeme.isNumberRest_iff.2 (.inl hc)
  | @word kind c cs _ hc hcs _ _ =>
      refine @hrun Text.isNameRest c cs rfl ?_ hcs
      exact Text.isNameRest_of_isNameStart hc
  | newline => simp
  | @symbol mark rest hmax => cases mark <;> simp [Punctuation.spelling]
  | @unknown c _ hblank _ _ _ _ _ _ => simpa using hblank.2.2

end TokenForm

/-- The offset at which the first half of a text ends. -/
theorem Location.offset_after_zero (left : List Char) :
    (zero.after left).offset = Text.utf8Length left := by
  simp [after, zero]

/-- A document finds the offsets of a token. -/
theorem Document.offsetAt?_token {d : Document} {left part right : List Char} {kind : TokenKind}
    (hd : d.text.toList = left ++ (part ++ right)) (hf : TokenForm kind part right)
    (hk : kind ≠ .newline) :
    let t := (Location.zero.after left).token kind part
    d.offsetAt? t.start = some t.span.start ∧
      ((kind = .stringLiteral → ClosedLiteral part) → d.offsetAt? t.stop = some t.span.stop) := by
  intro t
  constructor
  · show d.offsetAt? (Position.zero.after left) = some (Location.zero.after left).offset
    rw [Location.offset_after_zero]
    refine offsetAt?_of_split hd ?_
    rintro ⟨-, hhead⟩
    obtain ⟨c, cs, rfl⟩ := List.exists_cons_of_ne_nil hf.ne_nil
    have hc : c = '\n' := hhead c rfl
    exact hf.head_ne_lineFeed hk (by rw [hc]; rfl)
  · intro hclosed
    show d.offsetAt? ((Position.zero.after left).after part) =
      some ((Location.zero.after left).after part).offset
    rw [← Position.after_append, ← Location.after_append, Location.offset_after_zero]
    refine offsetAt?_of_split (by rw [hd, List.append_assoc]) ?_
    rintro ⟨hlast, -⟩
    obtain ⟨c, hc⟩ : ∃ c, part.getLast? = some c := ⟨_, List.getLast?_eq_some_getLast hf.ne_nil⟩
    rw [List.getLast?_append, hc] at hlast
    exact hf.getLast_ne_return hclosed (hc.trans hlast)

/-- The place of a byte offset: the number of line feeds before it, and the number of UTF-16 code units
    between the last of them and the offset. -/
def IsPlace (text : List Char) (offset : Nat) (p : Position) : Prop :=
  ∃ left right, text = left ++ right ∧ Text.utf8Length left = offset ∧
    p.line = left.count '\n' ∧ p.character = Text.utf16Length (Text.lastLine left)

theorem isPlace_after {text left right : List Char} (h : text = left ++ right) :
    IsPlace text (Location.zero.after left).offset (Location.zero.after left).position := by
  refine ⟨left, right, h, ?_, ?_, ?_⟩
  · simp [Location.after, Location.zero]
  · show (Position.zero.after left).line = _
    rw [Position.after_zero]
  · show (Position.zero.after left).character = _
    rw [Position.after_zero]

/-- The tokens of a text stand at the places of their spans, one behind the other, and the end stands on
    the last line. A document with this text finds the offset where a token starts, unless the token is
    a line feed or the end, and the offset where it ends, unless it is also a string literal without its
    closing quote. -/
theorem tokenize_places (text : String) :
    (∀ t ∈ tokenize text, IsPlace text.toList t.span.start t.start ∧
      IsPlace text.toList t.span.stop t.stop) ∧
    (tokenize text).Pairwise (·.stop ≤ ·.start) ∧
    (∀ t ∈ tokenize text, t.kind = .eof → t.line = 1 + text.toList.count '\n') ∧
    ∀ d : Document, d.text = text → ∀ t ∈ tokenize text, t.kind ≠ .newline → t.kind ≠ .eof →
      d.offsetAt? t.start = some t.span.start ∧
        (¬ t.IsOpenString → d.offsetAt? t.stop = some t.span.stop) := by
  refine ⟨?_, ?_, ?_, ?_⟩
  · intro t ht
    obtain ⟨left, part, right, htext, hlocation, -⟩ := exists_split_of_mem_tokenize ht
    rw [hlocation]
    refine ⟨isPlace_after htext, ?_⟩
    show IsPlace _ ((Location.zero.after left).after part).offset
      ((Location.zero.after left).after part).position
    rw [← Location.after_append]
    exact isPlace_after (by rw [htext, List.append_assoc])
  · exact Location.zero.inTurn_place _
  · intro t ht hk
    rw [tokenize_eq] at ht
    rcases List.mem_append.1 ht with ht | ht
    · exact absurd hk (ne_eof_of_mem_tokensOf ht)
    · rw [List.mem_singleton.1 ht]
      show (Position.zero.after text.toList).line + 1 = _
      rw [Position.after_zero, Nat.add_comm]
  · rintro d rfl t ht hnewline heof
    obtain ⟨left, part, right, htext, hlocation, hform⟩ := exists_split_of_mem_tokenize ht
    rcases hform with hform | ⟨hk, -⟩
    · obtain ⟨hstart, hstop⟩ := Document.offsetAt?_token htext hform hnewline
      rw [← hlocation] at hstart hstop
      refine ⟨hstart, ?_⟩
      intro hopen
      refine hstop ?_
      intro hk
      have hpart : t.text.toList = part := by
        rw [hlocation]
        exact String.toList_ofList
      by_contra hclosed
      exact hopen ⟨hk, by rwa [hpart]⟩
    · exact absurd hk heof

end FourthGen
