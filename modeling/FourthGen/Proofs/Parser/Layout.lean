import FourthGen.Proofs.Parser.Grammar
import FourthGen.Proofs.Parser.Isolation
import FourthGen.Proofs.Token.Spacing

set_option autoImplicit false

/-! # Layout does not change what a text means

Blanks and comments leave no token, so that texts which differ in them alone are parsed alike. Empty
lines do leave tokens, line feeds that follow each other; but wherever the parser takes one separator it
takes all that follow, and where it looks at the token before, any separator will do. So two texts are
parsed alike if their tokens are the same once every run of line feeds is made one
(`parse_alike`). The parses then differ in ranges alone. -/

namespace FourthGen

/-! ## Runs of line feeds -/

/-- The tokens with every run of line feeds made one; `after` tells whether a line feed stands before. -/
def collapseLines (after : Bool) : List (TokenKind × String) → List (TokenKind × String)
  | [] => []
  | x :: xs =>
    if after && x.1 == .newline then collapseLines true xs
    else x :: collapseLines (x.1 == .newline) xs

/-- What the tokens of a text are, without empty lines. -/
def linesOf (text : String) : List (TokenKind × String) :=
  collapseLines false ((tokenize text).map Token.face)

/-- Whether a token is a line feed. -/
def Token.isNewline (t : Token) : Bool := t.kind == .newline

/-- Behind a line feed, line feeds are passed over. -/
theorem collapseLines_after (ts : List Token) :
    collapseLines true (ts.map Token.face) =
      collapseLines false ((ts.dropWhile Token.isNewline).map Token.face) := by
  induction ts with
  | nil => rfl
  | cons t ts ih =>
      by_cases ht : t.isNewline = true
      · have hface : (t.face.1 == .newline) = true := ht
        rw [List.dropWhile_cons_of_pos ht, ← ih, List.map_cons, collapseLines, hface]
        rfl
      · have hface : (t.face.1 == .newline) = false := Bool.eq_false_iff.2 ht
        rw [List.dropWhile_cons_of_neg ht, List.map_cons, collapseLines, collapseLines, hface]
        rfl

/-- The first token stays, and so does what follows it but for the line feeds behind a line feed. -/
theorem collapseLines_cons (t : Token) (ts : List Token) :
    collapseLines false ((t :: ts).map Token.face) =
      t.face :: collapseLines false
        ((if t.isNewline then ts.dropWhile Token.isNewline else ts).map Token.face) := by
  rw [List.map_cons, collapseLines, Bool.false_and, if_neg Bool.false_ne_true]
  by_cases ht : t.isNewline = true
  · have hface : (t.face.1 == .newline) = true := ht
    rw [hface, if_pos ht, collapseLines_after]
  · have hface : (t.face.1 == .newline) = false := Bool.eq_false_iff.2 ht
    rw [hface, if_neg ht]

theorem collapseLines_concat {after : Bool} {e : TokenKind × String} (he : e.1 ≠ .newline)
    (xs : List (TokenKind × String)) :
    collapseLines after (xs ++ [e]) = collapseLines after xs ++ [e] := by
  induction xs generalizing after with
  | nil =>
      have hface : (after && e.1 == .newline) = false := by
        rw [beq_eq_false_iff_ne.2 he, Bool.and_false]
      simp [collapseLines, hface]
  | cons x xs ih =>
      rw [List.cons_append, collapseLines, collapseLines]
      split
      · exact ih
      · rw [ih, List.cons_append]

/-! ## The likeness of two layouts -/

namespace Likeness

/-- A text in two layouts: the tokens are the same, at other places. -/
def relaid : Likeness where
  token x x' := x'.face = x.face
  range _ _ := True
  hole _ _ := True
  text := Eq
  quoted := Eq
  error e e' := e'.complaint = e.complaint ∧ e'.found = e.found
  stop _ _ := False
  kind_eq h := congrArg Prod.fst h
  isWord_eq {x x'} h word := by
    have hkind : x'.kind = x.kind := congrArg Prod.fst h
    have htext : x'.text = x.text := congrArg Prod.snd h
    rw [Token.isWord, Token.isWord, hkind, htext]
  token_text h _ := (congrArg Prod.snd h).symm
  token_quoted h _ := (congrArg Prod.snd h).symm
  token_range _ _ := trivial
  token_hole _ := trivial
  token_error h _ := ⟨rfl, congrArg Prod.fst h⟩
  token_stray {x x'} h _ := by
    have htext : x'.text = x.text := congrArg Prod.snd h
    exact ⟨congrArg Complaint.strayBlockEnd htext, congrArg Prod.fst h⟩
  cover _ _ := trivial
  text_empty := rfl
  text_unknown := rfl
  text_sized := text_sized_eq
  stop_routine := routine_of_false
  stop_error := False.elim

theorem moves_relaid : relaid.Moves (fun _ => ()) (fun _ => ()) where
  range _ := rfl
  hole _ := rfl
  text := Eq.symm
  quoted := Eq.symm

theorem isSeparator_of_mem_takeWhile {ts : List Token} :
    ∀ t ∈ ts.takeWhile Token.isNewline, t.kind.isSeparator = true := by
  intro t ht
  have hkind : t.kind = .newline := beq_iff_eq.1 (List.all_eq_true.1 List.all_takeWhile t ht)
  rw [hkind]
  rfl

/-- Tokens that are the same up to runs of line feeds lead the parser along the same way. -/
theorem line_of_collapseLines {e e' : Token} (he : relaid.token e e')
    (hs : e.kind.isSeparator = false) {ts ts' : List Token}
    (h : collapseLines false (ts.map Token.face) = collapseLines false (ts'.map Token.face)) :
    relaid.Line e e' ts ts' := by
  match ts, ts' with
  | [], [] => exact .done he
  | [], t' :: ts' =>
      rw [collapseLines_cons t' ts'] at h
      cases h
  | t :: ts, [] =>
      rw [collapseLines_cons t ts] at h
      cases h
  | t :: ts, t' :: ts' =>
      rw [collapseLines_cons, collapseLines_cons, List.cons.injEq] at h
      have htoken : relaid.token t t' := h.1.symm
      have hnewline : t'.isNewline = t.isNewline := by
        rw [Token.isNewline, Token.isNewline, relaid.kind_eq htoken]
      rw [hnewline] at h
      by_cases ht : t.isNewline = true
      · rw [if_pos ht, if_pos ht] at h
        have hsep : t.kind.isSeparator = true := by
          rw [beq_iff_eq.1 ht]
          rfl
        have hrest := line_of_collapseLines he hs h.2
        have hline := Line.run htoken hsep (@isSeparator_of_mem_takeWhile ts)
          (@isSeparator_of_mem_takeWhile ts') hs hrest
        rwa [List.takeWhile_append_dropWhile, List.takeWhile_append_dropWhile] at hline
      · rw [if_neg ht, if_neg ht] at h
        exact (line_of_collapseLines he hs h.2).cons htoken hs
termination_by ts.length
decreasing_by
  · exact Nat.lt_succ_of_le (List.dropWhile_sublist _).length_le
  · exact Nat.lt_succ_self _

end Likeness

/-! ## Texts -/

/-- What an error says, without where it stands. -/
def SyntaxError.wording (e : SyntaxError) : String × TokenKind := (e.message, e.found)

theorem linesOf_eq (text : String) :
    linesOf text = collapseLines false ((tokensOf text).map Token.face) ++ [(.eof, "")] := by
  have hend : [eofOf text].map Token.face = [(.eof, "")] := rfl
  rw [linesOf, tokenize_eq, List.map_append, hend]
  exact collapseLines_concat (by decide) _

/-- The parses of two texts with the same tokens up to empty lines differ in ranges alone. -/
theorem parse_alike {a b : String} (h : linesOf a = linesOf b) :
    (parse a).items.map Item.shape = (parse b).items.map Item.shape ∧
      (parse a).errors.map SyntaxError.wording = (parse b).errors.map SyntaxError.wording := by
  rw [linesOf_eq, linesOf_eq] at h
  have heof : Likeness.relaid.token (eofOf b) (eofOf a) := rfl
  have hline := Likeness.line_of_collapseLines heof rfl (List.append_cancel_right h.symm)
  have hal : Likeness.relaid.Aligned ⟨[], tokensOf b, eofOf b⟩ ⟨[], tokensOf a, eofOf a⟩ :=
    ⟨hline, rfl, rfl⟩
  obtain ⟨hitems, herrors⟩ := hal.parse fun _ _ => id
  rw [parse_eq a, parse_eq b]
  constructor
  · exact Likeness.map_eq_of_forall₂ (fun _ _ hi => hi.map_eq Likeness.moves_relaid) hitems
  · refine Likeness.map_eq_of_forall₂ ?_ herrors
    intro e e' he
    rw [SyntaxError.wording, SyntaxError.wording, SyntaxError.message, SyntaxError.message, he.1, he.2]

/-- Layout does not change what a text means: blanks, comments and empty lines can be put in or left
    out, and all blanks and comments be replaced by single blanks between the tokens, with no other
    effect than that ranges change. -/
theorem parse_same_layout :
    (∀ a b : String, linesOf a = linesOf b →
      (parse a).items.map Item.shape = (parse b).items.map Item.shape ∧
        (parse a).errors.map SyntaxError.wording = (parse b).errors.map SyntaxError.wording) ∧
    ∀ text : String,
      (tokenize (normalForm text)).map Token.face = (tokenize text).map Token.face ∧
        (parse (normalForm text)).items.map Item.shape = (parse text).items.map Item.shape ∧
        (parse (normalForm text)).errors.map SyntaxError.wording =
          (parse text).errors.map SyntaxError.wording := by
  constructor
  · intro a b h
    exact parse_alike h
  · intro text
    have hfaces := face_tokenize_normalForm text
    have hlines : linesOf (normalForm text) = linesOf text := by rw [linesOf, linesOf, hfaces]
    exact ⟨hfaces, parse_alike hlines⟩

/-- Comments and empty lines, also within a block that is not closed. -/
theorem parse_same_layout_comments :
    linesOf "IF a THEN # check\n\n-- nothing yet\n CALL f( 1 )" = linesOf "IF a THEN\nCALL f(1)" ∧
      (parse "IF a THEN # check\n\n-- nothing yet\n CALL f( 1 )").items.map Item.shape =
        (parse "IF a THEN\nCALL f(1)").items.map Item.shape := by
  have hlines : linesOf "IF a THEN # check\n\n-- nothing yet\n CALL f( 1 )" =
      linesOf "IF a THEN\nCALL f(1)" := by decide +kernel
  exact ⟨hlines, (parse_same_layout.1 _ _ hlines).1⟩

end FourthGen
