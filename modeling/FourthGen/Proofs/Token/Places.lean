import FourthGen.Proofs.Token.Munch
import Mathlib.Data.List.Induction

set_option autoImplicit false

/-! # Where tokens stand

A position says how many line feeds stand before a place of the text, and how many UTF-16 code units
stand between the last of them and the place (`Position.after_zero`). So the position of a token does
not depend on how the lexer came there: a token stands where the text before it ends. This is told token
by token. `Location.Heads` takes the first token off a text, with the gap before it, and leaves the
tokens of what follows (`Location.heads_of_place`). -/

namespace FourthGen

/-! ## Positions -/

namespace Text

/-- The part of a text behind its last line feed. -/
def lastLine (cs : List Char) : List Char := (cs.reverse.takeWhile (· != '\n')).reverse

@[simp] theorem lastLine_nil : lastLine [] = [] := rfl

theorem lastLine_lineFeed (cs : List Char) : lastLine (cs ++ ['\n']) = [] := by
  simp [lastLine]

theorem lastLine_concat {c : Char} (hc : c ≠ '\n') (cs : List Char) :
    lastLine (cs ++ [c]) = lastLine cs ++ [c] := by
  simp [lastLine, hc]

theorem lastLine_append {cs : List Char} (hcs : '\n' ∉ cs) (left : List Char) :
    lastLine (left ++ cs) = lastLine left ++ cs := by
  induction cs using List.reverseRecOn with
  | nil => simp
  | append_singleton cs c ih =>
      simp only [List.mem_append, List.mem_singleton, not_or] at hcs
      rw [← List.append_assoc, lastLine_concat (Ne.symm hcs.2), ih hcs.1, List.append_assoc]

end Text

/-- The position after a text: the number of its line feeds, and the width of what follows the last. -/
theorem Position.after_zero (cs : List Char) :
    zero.after cs = ⟨cs.count '\n', Text.utf16Length (Text.lastLine cs)⟩ := by
  induction cs using List.reverseRecOn with
  | nil => rfl
  | append_singleton cs c ih =>
      rw [after_append, ih, after_cons, after_nil, advance]
      split
      · next hc =>
        subst hc
        simp [Text.lastLine_lineFeed]
      · next hc => simp [Text.lastLine_concat hc, hc]

/-! ## Tokens one by one -/

/-- What stands in front of a text that starts at a place: a gap and a token, with the tokens of what
    follows, or a gap and the end. -/
inductive Location.Heads (l : Location) : List Char → Token → List Token → Prop
  | token {gap part rest : List Char} {kind : TokenKind} (hg : Gap gap (part ++ rest))
      (hf : TokenForm kind part rest) :
      Heads l (gap ++ (part ++ rest)) ((l.after gap).token kind part)
        ((l.after (gap ++ part)).place (Lexeme.cut rest))
  | done {gap : List Char} (hg : Gap gap []) : Heads l gap ((l.after gap).token .eof []) []

namespace Location

/-- Layout belongs to the gap before the next token. -/
theorem Heads.layout {l : Location} {text cs : List Char} {t : Token} {ts : List Token}
    (ht : (Lexeme.layout text).Fits cs) (h : Heads (l.after text) cs t ts) :
    Heads l (text ++ cs) t ts := by
  cases h with
  | @token gap part rest kind hg hf =>
      have hhead := @Heads.token l _ _ _ _ (hg.layout ht) hf
      simpa only [List.append_assoc, after_append] using hhead
  | done hg =>
      have hend := @Heads.done l _ (hg.layout (by rwa [List.append_nil]))
      simpa only [after_append] using hend

theorem heads_of_place {l : Location} {cs : List Char} {t : Token} {ts : List Token}
    (h : l.place (Lexeme.cut cs) = t :: ts) : Heads l cs t ts := by
  fun_induction Lexeme.cut cs generalizing l with
  | case1 =>
      cases h
      exact .done .nil
  | case2 c cs ih =>
      have hfits := Lexeme.next_fits c cs
      have happ := Lexeme.next_append c cs
      generalize Lexeme.next c cs = r at hfits happ ih h
      obtain ⟨x, rest⟩ := r
      cases x with
      | layout text =>
          rw [← happ]
          exact (ih h).layout hfits
      | token kind text =>
          cases h
          rw [← happ]
          exact @Heads.token l [] text rest kind .nil hfits

/-- The tokens behind some tokens are those of the rest of the text. -/
theorem place_behind {l : Location} {cs : List Char} {us : List Token} {t : Token} {ts : List Token}
    (h : l.place (Lexeme.cut cs) = us ++ t :: ts) :
    ∃ left rest, cs = left ++ rest ∧ (l.after left).place (Lexeme.cut rest) = t :: ts := by
  induction us generalizing l cs with
  | nil => exact ⟨[], cs, rfl, h⟩
  | cons u us ih =>
      rw [List.cons_append] at h
      generalize hus : us ++ t :: ts = vs at h
      cases heads_of_place h with
      | @token gap part rest kind hg hf =>
          obtain ⟨left, tail, rfl, htail⟩ := ih hus.symm
          exact ⟨gap ++ part ++ left, tail, by simp, by simpa using htail⟩
      | done hg => simp at hus

end Location

/-- The tokens of a text from one of them on, with the text before it. -/
theorem tokenize_behind {text : String} {us ts : List Token} {t : Token}
    (h : tokenize text = us ++ t :: ts) :
    ∃ left rest, text.toList = left ++ rest ∧ (Location.zero.after left).Heads rest t ts := by
  obtain ⟨left, rest, hsplit, hrest⟩ := Location.place_behind h
  exact ⟨left, rest, hsplit, Location.heads_of_place hrest⟩

/-- Every token of a text stands where the text before it ends. A token that is not the end is of its
    form. -/
theorem exists_split_of_mem_tokenize {text : String} {t : Token} (h : t ∈ tokenize text) :
    ∃ left part right, text.toList = left ++ (part ++ right) ∧
      t = (Location.zero.after left).token t.kind part ∧
      (TokenForm t.kind part right ∨ (t.kind = .eof ∧ part = [] ∧ right = [])) := by
  obtain ⟨us, ts, hsplit⟩ := List.append_of_mem h
  obtain ⟨left, rest, htext, hheads⟩ := tokenize_behind hsplit
  cases hheads with
  | @token gap part right kind hg hf =>
      refine ⟨left ++ gap, part, right, by rw [htext, List.append_assoc], ?_, .inl hf⟩
      rw [Location.after_append]
      rfl
  | @done hg =>
      refine ⟨left ++ rest, [], [], by simpa using htext, ?_, .inr ⟨rfl, rfl, rfl⟩⟩
      rw [Location.after_append]
      rfl

end FourthGen
