import FourthGen.Proofs.Parser.Rewriting
import FourthGen.Proofs.Token.Append

set_option autoImplicit false

/-! # Declarations are parsed on their own

A text can be divided at a line that starts with a declaration. However broken the part before it is,
with blocks that are not closed or nested too deeply, the declaration is parsed as if it stood at the
start of a text; and what is found in the part before does not depend on what follows. Only an error
that was found at the end of the first part is then found at the declaration (`parse_append`).

The proof compares three cursors. Up to the declaration, the parser goes through the whole text as it
goes through the first part alone (`Likeness.followed`); from there on, as it goes through the second
part alone, some lines further down (`Likeness.moved`). -/

namespace FourthGen

/-! ## Trees that are moved -/

mutual

theorem Expr.map_id {ρ : Type} (e : Expr ρ) : e.map id = e := by
  cases e with
  | identifier range name => rfl
  | literal range value => rfl
  | binary range op left right => rw [Expr.map, Expr.map_id left, Expr.map_id right, id]
  | call range name args => rw [Expr.map, Expr.mapAll_id args, id]
  | error range => rfl

theorem Expr.mapAll_id {ρ : Type} (es : List (Expr ρ)) : Expr.mapAll id es = es := by
  cases es with
  | nil => rfl
  | cons e es => rw [Expr.mapAll, Expr.map_id e, Expr.mapAll_id es]

end

theorem Variable.map_id {ρ : Type} : Variable.map (id : ρ → ρ) = id := rfl

mutual

theorem Stmt.map_id {ρ : Type} (s : Stmt ρ) : s.map id = s := by
  have hexpr : Expr.map (id : ρ → ρ) = id := funext Expr.map_id
  cases s with
  | define range vars => rw [Stmt.map, Variable.map_id, List.map_id, id]
  | assign range target value => rw [Stmt.map, Expr.map_id, id]
  | conditional range condition thenBlock elseBlock =>
      rw [Stmt.map, Expr.map_id, Stmt.mapAll_id thenBlock, Stmt.mapAll_id elseBlock, id]
  | whileLoop range condition body => rw [Stmt.map, Expr.map_id, Stmt.mapAll_id body, id]
  | forLoop range body => rw [Stmt.map, Stmt.mapAll_id body, id]
  | call range name args => rw [Stmt.map, hexpr, List.map_id, id]
  | giveBack range value => rw [Stmt.map, hexpr, Option.map_id, id, id]
  | sql range kind => rfl
  | expression range value => rw [Stmt.map, Expr.map_id, id]

theorem Stmt.mapAll_id {ρ : Type} (ss : List (Stmt ρ)) : Stmt.mapAll id ss = ss := by
  cases ss with
  | nil => rfl
  | cons s ss => rw [Stmt.mapAll, Stmt.map_id s, Stmt.mapAll_id ss]

end

/-- A tree whose annotations stay as they are is the same tree. -/
theorem Item.map_id {ρ : Type} (i : Item ρ) : i.map id = i := by
  have hstmt : Stmt.map (id : ρ → ρ) = id := funext Stmt.map_id
  cases i with
  | function range name params returns body =>
      rw [Item.map, Variable.map_id, hstmt, List.map_id, List.map_id, id]
  | procedure range name params body =>
      rw [Item.map, Variable.map_id, hstmt, List.map_id, List.map_id, id]
  | statement stmt => rw [Item.map, Stmt.map_id]

namespace Likeness

/-- Under the likeness texts stay as they are, and `f` of a range is `g` of the one that stands for it. -/
structure Moves (L : Likeness) {ρ : Type} (f g : Range → ρ) : Prop where
  range : ∀ {r r'}, L.range r r' → g r' = f r
  hole : ∀ {r r'}, L.hole r r' → g r' = f r
  text : ∀ {t t'}, L.text t t' → t' = t
  quoted : ∀ {t t'}, L.quoted t t' → t' = t

section

variable {L : Likeness} {ρ : Type} {f g : Range → ρ}

theorem Moves.rewrites (hL : L.Moves f g) : L.Rewrites (.ofRange f) (.ofRange g) :=
  ⟨hL.range, hL.hole, hL.text, hL.quoted⟩

theorem ItemLike.map_eq (hL : L.Moves f g) {i i' : Item Range} (h : L.ItemLike i i') :
    i'.map g = i.map f := by
  rw [← Item.rewrite_ofRange, ← Item.rewrite_ofRange, h.rewrite_eq hL.rewrites]

/-- Items of which the ones are the others moved by `f`. -/
theorem items_eq_map {f : Range → Range} (hL : L.Moves f id) {is is' : List (Item Range)}
    (h : List.Forall₂ L.ItemLike is is') : is' = is.map (Item.map f) := by
  have hid : Item.map (id : Range → Range) = id := funext Item.map_id
  rw [← map_eq_of_forall₂ (fun _ _ hi => hi.map_eq hL) h, hid, List.map_id]

theorem errors_eq_map {F : SyntaxError → SyntaxError} {V : SyntaxError → SyntaxError → Prop}
    (hV : ∀ e e', V e e' → e' = F e) {es es' : List SyntaxError} (h : List.Forall₂ V es es') :
    es' = es.map F := by
  have heq := @map_eq_of_forall₂ _ _ _ V F id hV _ _ h
  rwa [List.map_id] at heq

end

end Likeness

/-! ## Errors -/

namespace SyntaxError

/-- The error `lines` lines further down. -/
def down (lines : Nat) (e : SyntaxError) : SyntaxError := ⟨e.complaint, e.found, e.range.down lines⟩

/-- An error that was found at the end of the text, found at a token of the given kind and range
    instead; any other error stays. -/
def insteadOfEnd (kind : TokenKind) (range : Range) (e : SyntaxError) : SyntaxError :=
  if e.found = .eof then ⟨e.complaint, kind, range⟩ else e

theorem about_down (lines bytes : Nat) (t : Token) (c : Complaint) :
    about (t.down lines bytes) c = (about t c).down lines := by
  rw [about, t.errorRange_down]
  rfl

theorem insteadOfEnd_about {t : Token} (h : t.kind ≠ .eof) (kind : TokenKind) (range : Range)
    (c : Complaint) : (about t c).insteadOfEnd kind range = about t c := if_neg h

theorem insteadOfEnd_about_eof {t : Token} (h : t.kind = .eof) (kind : TokenKind) (range : Range)
    (c : Complaint) : (about t c).insteadOfEnd kind range = ⟨c, kind, range⟩ := if_pos h

end SyntaxError

/-! ## The two likenesses -/

namespace Likeness

theorem text_sized_eq {t t' : String} {sizes sizes' : List String} (ht : t = t')
    (h : List.Forall₂ Eq sizes sizes') :
    t ++ "(" ++ ",".intercalate sizes ++ ")" = t' ++ "(" ++ ",".intercalate sizes' ++ ")" := by
  rw [List.forall₂_eq_eq_eq] at h
  rw [ht, h]

theorem cover_eq {r r' q q' : Range} (hr : r = r') (hq : q = q') : r.cover q = r'.cover q' := by
  rw [hr, hq]

/-- Where no text stops before the other, nothing is asked of what follows. -/
theorem routine_of_false {e' : Token} {ts : List Token} (h : False) :
    (ts.headD e').kind = .keyword .FUNCTION ∨ (ts.headD e').kind = .keyword .PROCEDURE := h.elim

/-- A text and the same text further down. -/
def moved (lines bytes : Nat) : Likeness where
  token x x' := x' = x.down lines bytes
  range r r' := r' = r.down lines
  hole r r' := r' = r.down lines
  text := Eq
  quoted := Eq
  error e e' := e' = e.down lines
  stop _ _ := False
  kind_eq h := by rw [h]; rfl
  isWord_eq h _ := by rw [h]; rfl
  token_text h _ := by rw [h]; rfl
  token_quoted h _ := by rw [h]; rfl
  token_range h _ := by rw [h, Token.range_down]
  token_hole h := by rw [h, Token.errorRange_down]
  token_error h _ := by rw [h, SyntaxError.about_down]
  token_stray h _ := by rw [h, SyntaxError.about_down]; rfl
  cover hr hq := by rw [hr, hq, Range.cover_down]
  text_empty := rfl
  text_unknown := rfl
  text_sized := text_sized_eq
  stop_routine := routine_of_false
  stop_error := False.elim

/-- A text alone, and before a text with the given tokens, the first of which starts a declaration. -/
def followed (y : Token) (rest : List Token)
    (hy : y.kind = .keyword .FUNCTION ∨ y.kind = .keyword .PROCEDURE) : Likeness where
  token x x' := x' = x ∧ x.kind ≠ .eof
  range r r' := r' = r
  hole r r' := r' = r
  text := Eq
  quoted := Eq
  error e e' := e' = e.insteadOfEnd y.kind y.errorRange
  stop e ts := e.kind = .eof ∧ ts = y :: rest
  kind_eq h := by rw [h.1]
  isWord_eq h _ := by rw [h.1]
  token_text h _ := by rw [h.1]
  token_quoted h _ := by rw [h.1]
  token_range h _ := by rw [h.1]
  token_hole h := by rw [h.1]
  token_error h _ := by rw [h.1, SyntaxError.insteadOfEnd_about h.2]
  token_stray h _ := by rw [h.1, SyntaxError.insteadOfEnd_about h.2]
  cover hr hq := by rw [hr, hq]
  text_empty := rfl
  text_unknown := rfl
  text_sized := text_sized_eq
  stop_routine h := by rw [h.2]; exact hy
  stop_error h _ := by rw [h.2, SyntaxError.insteadOfEnd_about_eof h.1]; rfl

theorem moves_moved (lines bytes : Nat) : (moved lines bytes).Moves (Range.down lines) id where
  range := id
  hole := id
  text := Eq.symm
  quoted := Eq.symm

theorem moves_followed {y : Token} {rest : List Token}
    (hy : y.kind = .keyword .FUNCTION ∨ y.kind = .keyword .PROCEDURE) :
    (followed y rest hy).Moves id id where
  range := id
  hole := id
  text := Eq.symm
  quoted := Eq.symm

end Likeness

/-! ## Texts -/

theorem Cursor.parse_of_atEnd {s : Cursor} (h : s.atEnd = true) : s.parse = ⟨[], []⟩ := by
  have hskip : s.skipSeparators = s := Cursor.skipUntil_of_stop (.inl h)
  unfold Cursor.parse
  rw [Item.readProgram, Rule.run_rounds, hskip]
  simp [h]

theorem parse_eq (text : String) :
    parse text = Cursor.parse ⟨[], tokensOf text, eofOf text⟩ := by
  rw [parse, parseTokens, tokenize_eq,
    Cursor.ofTokens_concat (fun _ h => ne_eof_of_mem_tokensOf h) (eofOf_kind text)]

/-- Where no text stops before the other, the parses agree to the end. -/
theorem Likeness.Aligned.parse {L : Likeness} {s s' : Cursor} (h : L.Aligned s s')
    (hstop : ∀ e ts, ¬ L.stop e ts) :
    List.Forall₂ L.ItemLike s.parse.items s'.parse.items ∧
      List.Forall₂ L.error s.parse.errors s'.parse.errors := by
  obtain ⟨items, errors, u, hitems, herrors, -, hend, hparse⟩ := h.near.parse
  have hatEnd : u.atEnd = true := hend.elim And.left fun hs => absurd hs (hstop _ _)
  rw [hparse, Cursor.parse_of_atEnd hatEnd, List.append_nil, List.append_nil]
  exact ⟨hitems, herrors⟩

/-- The parse of a text, with that of a text whose tokens lie ahead, one for one. -/
theorem Likeness.parse_of_tokens {L : Likeness} {a : String} {s : Cursor}
    (hstop : ∀ e ts, ¬ L.stop e ts) (htokens : List.Forall₂ L.token (tokensOf a) s.ahead)
    (heof : L.token (eofOf a) s.eof) :
    List.Forall₂ L.ItemLike (parse a).items s.parse.items ∧
      List.Forall₂ L.error (parse a).errors s.parse.errors := by
  have hdone : L.Line (eofOf a) s.eof [] [] := .done heof
  have hline := hdone.append htokens rfl
  rw [List.append_nil, List.append_nil] at hline
  have hal : L.Aligned ⟨[], tokensOf a, eofOf a⟩ s := ⟨hline, rfl, L.kind_eq heof⟩
  rw [parse_eq a]
  exact hal.parse hstop

/-- Where the tokens of a text lie ahead, moved down, its parse is found, moved down. -/
theorem parse_of_moved {s : Cursor} {b : String} {lines bytes : Nat}
    (hahead : s.ahead = (tokensOf b).map (Token.down lines bytes))
    (heof : s.eof = (eofOf b).down lines bytes) :
    s.parse = ⟨(parse b).items.map (Item.map (Range.down lines)),
      (parse b).errors.map (SyntaxError.down lines)⟩ := by
  have htokens : List.Forall₂ (Likeness.moved lines bytes).token (tokensOf b) s.ahead := by
    rw [hahead, List.forall₂_map_right_iff]
    exact List.forall₂_same.2 fun _ _ => rfl
  obtain ⟨hitems, herrors⟩ := Likeness.parse_of_tokens (fun _ _ => id) htokens heof
  rw [← Likeness.items_eq_map (Likeness.moves_moved lines bytes) hitems,
    ← Likeness.errors_eq_map (fun _ _ he => he) herrors]

/-- The parser goes through a text that ends a line as if nothing followed, and then arrives at the
    declaration that follows. -/
theorem parse_of_followed {a : String} (ha : IsWhole a) {y e : Token} {rest : List Token}
    (hy : y.kind = .keyword .FUNCTION ∨ y.kind = .keyword .PROCEDURE) (he : e.kind = .eof) :
    ∃ u : Cursor, u.ahead = y :: rest ∧ u.eof = e ∧
      Cursor.parse ⟨[], tokensOf a ++ y :: rest, e⟩ =
        ⟨(parse a).items ++ u.parse.items,
          (parse a).errors.map (SyntaxError.insteadOfEnd y.kind y.errorRange) ++ u.parse.errors⟩ := by
  have hnear : (Likeness.followed y rest hy).Near ⟨[], tokensOf a, eofOf a⟩
      ⟨[], tokensOf a ++ y :: rest, e⟩ := by
    obtain hnil | ⟨ts, x, hts, hx⟩ := tokensOf_eq_concat ha
    · rw [hnil]
      exact Likeness.AtStart.near (.inr ⟨rfl, ⟨rfl, rfl⟩, rfl, he⟩)
    · have hsame {t : Token} (ht : t ∈ tokensOf a) : (Likeness.followed y rest hy).token t t :=
        ⟨rfl, ne_eof_of_mem_tokensOf ht⟩
      rw [hts] at hsame ⊢
      have hlast : (Likeness.followed y rest hy).Line (eofOf a) e [x] (x :: ([] ++ y :: rest)) :=
        .last (hsame (by simp)) (by rw [hx]; rfl) (by simp) (by simp) ⟨rfl, rfl⟩
      have htokens : List.Forall₂ (Likeness.followed y rest hy).token ts ts :=
        List.forall₂_same.2 fun t ht => hsame (by simp [ht])
      refine Likeness.Aligned.near ⟨?_, rfl, he⟩
      simpa using hlast.append htokens rfl
  obtain ⟨items, errors, u, hitems, herrors, ⟨consumed, -, -, heof⟩, hend, hparse⟩ := hnear.parse
  -- the end of the first text is no token of the whole, so that the parser stops at the declaration
  have hahead : u.ahead = y :: rest := by
    obtain ⟨-, htoken⟩ | hstop := hend
    · exact absurd rfl htoken.2
    · exact hstop.2
  refine ⟨u, hahead, heof, ?_⟩
  have hitems' := Likeness.items_eq_map (Likeness.moves_followed hy) hitems
  have herrors' := Likeness.errors_eq_map (fun _ _ he => he) herrors
  have hid : Item.map (id : Range → Range) = id := funext Item.map_id
  rw [hparse, hitems', herrors', hid, List.map_id, parse_eq a]

theorem errorRange_of_mem_tokensOf {text : String} {t : Token} (h : t ∈ tokensOf text) :
    t.errorRange = t.range := by
  have hlt := start_lt_stop_of_mem_tokensOf h
  refine if_neg ?_
  intro heq
  rw [heq, Position.lt_def] at hlt
  omega

/-- A text that ends a line and a text that starts with a declaration are parsed on their own. -/
theorem parse_append {a b : String} {t : Token} {rest : List Token} (ha : IsWhole a)
    (hb : tokenize b = t :: rest)
    (ht : t.kind = .keyword .FUNCTION ∨ t.kind = .keyword .PROCEDURE) :
    (parse (a ++ b)).items =
        (parse a).items ++ (parse b).items.map (Item.map (Range.down (lineFeeds a))) ∧
      (parse (a ++ b)).errors =
        (parse a).errors.map (SyntaxError.insteadOfEnd t.kind (t.range.down (lineFeeds a))) ++
          (parse b).errors.map (SyntaxError.down (lineFeeds a)) := by
  obtain ⟨ts, hts⟩ : ∃ ts, tokensOf b = t :: ts := by
    rw [tokenize_eq] at hb
    cases htokens : tokensOf b with
    | nil =>
        rw [htokens, List.nil_append, List.cons.injEq] at hb
        rw [← hb.1, eofOf_kind] at ht
        rcases ht with ht | ht <;> cases ht
    | cons x ts =>
        rw [htokens, List.cons_append, List.cons.injEq] at hb
        exact ⟨ts, by rw [hb.1]⟩
  have hrange : (t.down (lineFeeds a) (Text.utf8Length a.toList)).errorRange =
      t.range.down (lineFeeds a) := by
    rw [t.errorRange_down, @errorRange_of_mem_tokensOf b t (by rw [hts]; simp)]
  have hmap := tokensOf_append ha b
  rw [hts, List.map_cons] at hmap
  -- from the declaration on, the tokens ahead are those of the second part, moved down
  obtain ⟨u, hahead, heof, hparse⟩ := parse_of_followed ha
    (y := t.down (lineFeeds a) (Text.utf8Length a.toList)) ht (eofOf_kind (a ++ b))
  have hmoved := parse_of_moved (b := b) (by rw [hahead, hts, List.map_cons])
    (by rw [heof, eofOf_append ha])
  rw [parse_eq (a ++ b), hmap, hparse, hmoved, hrange]
  exact ⟨rfl, rfl⟩

/-- The missing end of the first part is found at the declaration, which is parsed without errors. -/
theorem parse_append_unclosed :
    (parse ("IF x THEN\nRETURN 1\n" ++ "FUNCTION f()\nEND FUNCTION\n")).errors =
      [⟨.openCompound .conditional, .keyword .FUNCTION, ⟨⟨2, 0⟩, ⟨2, 8⟩⟩⟩] := by
  have hwhole : IsWhole "IF x THEN\nRETURN 1\n" := ⟨.inr (by decide), by decide +kernel⟩
  have hfirst : tokenize "FUNCTION f()\nEND FUNCTION\n" =
      ⟨.keyword .FUNCTION, "FUNCTION", ⟨0, 8⟩, ⟨0, 0⟩, ⟨0, 8⟩⟩ ::
        (tokenize "FUNCTION f()\nEND FUNCTION\n").tail := by decide +kernel
  rw [(parse_append hwhole hfirst (.inl rfl)).2]
  decide +kernel

end FourthGen
