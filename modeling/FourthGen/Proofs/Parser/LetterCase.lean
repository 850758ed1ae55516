import FourthGen.Proofs.Parser.Isolation
import FourthGen.Proofs.Token.Munch

set_option autoImplicit false

/-! # Letter case does not change what a text means

A text and the same text in upper case are cut into the same tokens at the same places, and parsed to
the same tree, but for the names, types and literals that are stored as they were written
(`parse_upper`).

No test that the lexer makes of a character tells a letter from the same letter in upper case
(`Text.apply_toUpper`), and of a token the parser looks at its kind, and at its word without regard to
letter case. So the one text stands for the other under the likeness `Likeness.capitals`. -/

namespace FourthGen

/-! ## Characters -/

namespace Text

/-- What is the same of every small letter and its capital is the same of every character and its
    upper case. -/
theorem apply_toUpper {β : Type} (f : Char → β)
    (hf : ∀ n < 26, f (Char.ofNat (n + 65)) = f (Char.ofNat (n + 97))) (c : Char) :
    f c.toUpper = f c := by
  have hnat := toNat_toUpper c
  by_cases hc : 97 ≤ c.toNat ∧ c.toNat ≤ 122
  · rw [if_pos hc] at hnat
    have hn := hf (c.toNat - 97) (by omega)
    have hcapital : c.toNat - 97 + 65 = c.toUpper.toNat := by omega
    have hsmall : c.toNat - 97 + 97 = c.toNat := by omega
    rwa [hcapital, hsmall, Char.ofNat_toNat, Char.ofNat_toNat] at hn
  · rw [if_neg hc] at hnat
    rw [Char.toNat_inj.1 hnat]

/-- Upper case makes no other character of one that is no letter, and makes it of no other. -/
theorem toUpper_eq_mark_iff {x : Char} (hx : x.isAlpha = false) (c : Char) :
    c.toUpper = x ↔ c = x := by
  have halpha : ¬ (x.isUpper = true ∨ x.isLower = true) := by
    rw [← Bool.or_eq_true]
    exact Bool.eq_false_iff.1 hx
  rw [isUpper_iff, isLower_iff] at halpha
  rw [← Char.toNat_inj, ← Char.toNat_inj, toNat_toUpper]
  split <;> omega

theorem map_toUpper_eq_marks_iff {xs : List Char} (hxs : xs.all (!·.isAlpha) = true)
    (cs : List Char) : cs.map Char.toUpper = xs ↔ cs = xs := by
  induction xs generalizing cs with
  | nil => simp
  | cons x xs ih =>
      rw [List.all_cons, Bool.and_eq_true, Bool.not_eq_true'] at hxs
      cases cs with
      | nil => simp
      | cons c cs =>
          rw [List.map_cons, List.cons.injEq, List.cons.injEq, toUpper_eq_mark_iff hxs.1, ih hxs.2]

theorem toUpper_toUpper (c : Char) : c.toUpper.toUpper = c.toUpper :=
  apply_toUpper Char.toUpper (by decide) c

theorem toLower_toUpper (c : Char) : c.toUpper.toLower = c.toLower :=
  apply_toUpper Char.toLower (by decide) c

theorem upper_ofList (cs : List Char) :
    upper (String.ofList cs) = String.ofList (cs.map Char.toUpper) := by
  rw [upper, String.toList_ofList]

theorem toList_upper (s : String) : (upper s).toList = s.toList.map Char.toUpper :=
  String.toList_ofList

theorem upper_append (s t : String) : upper (s ++ t) = upper s ++ upper t := by
  rw [← String.toList_inj, String.toList_append, toList_upper, toList_upper, toList_upper,
    String.toList_append, List.map_append]

theorem upper_upper (s : String) : upper (upper s) = upper s := by
  rw [← String.toList_inj, toList_upper, toList_upper, List.map_map]
  exact List.map_congr_left fun c _ => toUpper_toUpper c

theorem sameWord_upper (s word : String) : sameWord (upper s) word = sameWord s word := by
  have hfold : (Char.toLower ∘ Char.toUpper) = Char.toLower := funext toLower_toUpper
  rw [sameWord, sameWord, toList_upper, List.map_map, hfold]

end Text

/-! ## Tokens -/

namespace Lexeme

/-- The lexeme in upper case. -/
def upper : Lexeme → Lexeme
  | layout text => layout (text.map Char.toUpper)
  | token kind text => token kind (text.map Char.toUpper)

theorem takeWhile_toUpper {p : Char → Bool} (hp : ∀ c, p c.toUpper = p c) (cs : List Char) :
    (cs.map Char.toUpper).takeWhile p = (cs.takeWhile p).map Char.toUpper := by
  rw [List.takeWhile_map]
  exact congrArg (fun q => (cs.takeWhile q).map Char.toUpper) (funext hp)

theorem dropWhile_toUpper {p : Char → Bool} (hp : ∀ c, p c.toUpper = p c) (cs : List Char) :
    (cs.map Char.toUpper).dropWhile p = (cs.dropWhile p).map Char.toUpper := by
  rw [List.dropWhile_map]
  exact congrArg (fun q => (cs.dropWhile q).map Char.toUpper) (funext hp)

theorem startsComment_toUpper (c : Char) (cs : List Char) :
    startsComment c.toUpper (cs.map Char.toUpper) = startsComment c cs := by
  have hhash := Text.apply_toUpper (· == '#') (by decide) c
  have hdash := Text.apply_toUpper (· == '-') (by decide)
  have hnext : ((cs.map Char.toUpper).head? == some '-') = (cs.head? == some '-') := by
    cases cs with
    | nil => rfl
    | cons d cs => exact hdash d
  rw [startsComment, startsComment, hhash, hdash c, hnext]

theorem stringBody_toUpper {quote : Char} (hq : quote.isAlpha = false) (cs : List Char) :
    stringBody quote (cs.map Char.toUpper) =
      ((stringBody quote cs).1.map Char.toUpper, (stringBody quote cs).2.map Char.toUpper) := by
  have hquote := Text.toUpper_eq_mark_iff hq
  have hback := @Text.toUpper_eq_mark_iff '\\' rfl
  fun_induction stringBody quote cs with
  | case1 => rfl
  | case2 cs =>
      rw [List.map_cons, (hquote quote).2 rfl, stringBody_quote, List.map_singleton,
        (hquote quote).2 rfl]
  | case3 hne => simp [stringBody, hne]
  | case4 d ds body hne ih =>
      rw [List.map_cons, List.map_cons, (hback '\\').2 rfl, stringBody_escape hne, ih,
        List.map_cons, List.map_cons, (hback '\\').2 rfl]
  | case5 c cs hne hc body ih =>
      rw [List.map_cons, stringBody_plain (mt (hquote c).1 hne) (mt (hback c).1 hc), ih,
        List.map_cons]

theorem wordKind_toUpper (word : List Char) : wordKind (word.map Char.toUpper) = wordKind word := by
  rw [wordKind, wordKind, TokenKind.ofWord?, TokenKind.ofWord?, Keyword.ofText?, Keyword.ofText?,
    ← Text.upper_ofList, Text.upper_upper]

/-- No letter is part of a symbol. -/
theorem spelling_eq_toUpper_iff (mark : Punctuation) (cs : List Char) :
    mark.spelling.toList = cs.map Char.toUpper ↔ mark.spelling.toList = cs := by
  have hmark : mark.spelling.toList.all (!·.isAlpha) = true := by cases mark <;> decide
  rw [eq_comm, Text.map_toUpper_eq_marks_iff hmark, eq_comm]

theorem charKind_toUpper (c : Char) : charKind c.toUpper = charKind c := by
  have hchar : Punctuation.ofChar? c.toUpper = Punctuation.ofChar? c := by
    ext mark
    rw [ofChar_eq_some_iff, ofChar_eq_some_iff]
    exact spelling_eq_toUpper_iff mark [c]
  rw [charKind, charKind, hchar]

theorem ofPair_toUpper (c d : Char) :
    Punctuation.ofPair? c.toUpper d.toUpper = Punctuation.ofPair? c d := by
  ext mark
  rw [ofPair_eq_some_iff, ofPair_eq_some_iff]
  exact spelling_eq_toUpper_iff mark [c, d]

theorem symbol_toUpper (c : Char) (cs : List Char) :
    symbol c.toUpper (cs.map Char.toUpper) =
      ((symbol c cs).1.upper, (symbol c cs).2.map Char.toUpper) := by
  cases cs with
  | nil => simp [symbol, charKind_toUpper, upper]
  | cons d ds =>
      rw [List.map_cons, symbol, symbol, ofPair_toUpper]
      cases Punctuation.ofPair? c d with
      | some mark => rfl
      | none => simp [charKind_toUpper, upper]

/-- The first lexeme of a text in upper case is the first one of the text, in upper case. -/
theorem next_toUpper (c : Char) (cs : List Char) :
    next c.toUpper (cs.map Char.toUpper) =
      ((next c cs).1.upper, (next c cs).2.map Char.toUpper) := by
  have hblank := Text.apply_toUpper isBlank (by decide)
  have hline := Text.apply_toUpper (· != '\n') (by decide)
  have hnumber := Text.apply_toUpper isNumberRest (by decide)
  have hname := Text.apply_toUpper Text.isNameRest (by decide)
  unfold next
  rw [hblank, startsComment_toUpper, Text.apply_toUpper isQuote (by decide),
    Text.apply_toUpper Char.isDigit (by decide), Text.apply_toUpper Text.isNameStart (by decide),
    takeWhile_toUpper hblank, dropWhile_toUpper hblank, takeWhile_toUpper hline,
    dropWhile_toUpper hline, takeWhile_toUpper hnumber, dropWhile_toUpper hnumber,
    takeWhile_toUpper hname, dropWhile_toUpper hname, symbol_toUpper]
  simp only [Text.toUpper_eq_mark_iff (x := '\n') rfl]
  split
  · rfl
  split
  · rfl
  split
  · next hq =>
    have hmark : c.isAlpha = false := by
      rcases isQuote_iff.1 hq with rfl | rfl <;> rfl
    rw [(Text.toUpper_eq_mark_iff hmark c).2 rfl, stringBody_toUpper hmark]
    simp [upper, (Text.toUpper_eq_mark_iff hmark c).2 rfl]
  split
  · rfl
  split
  · rw [← List.map_cons, wordKind_toUpper]
    rfl
  split
  · rfl
  · rfl

theorem cut_toUpper (cs : List Char) : cut (cs.map Char.toUpper) = (cut cs).map upper := by
  fun_induction cut cs with
  | case1 => rw [List.map_nil, cut_nil, List.map_nil]
  | case2 c cs ih => rw [List.map_cons, cut_cons, next_toUpper, ih, List.map_cons]

end Lexeme

/-- The token with its text in upper case. -/
def Token.upper (t : Token) : Token := { t with text := Text.upper t.text }

theorem Position.after_toUpper (p : Position) (cs : List Char) :
    p.after (cs.map Char.toUpper) = p.after cs := by
  have hwidth := Text.apply_toUpper Text.utf16Width (by decide)
  induction cs generalizing p with
  | nil => rfl
  | cons c cs ih =>
      have hadvance : p.advance c.toUpper = p.advance c := by
        simp only [advance, Text.toUpper_eq_mark_iff (x := '\n') rfl, hwidth]
      rw [List.map_cons, after_cons, after_cons, hadvance, ih]

namespace Location

theorem after_toUpper (l : Location) (cs : List Char) :
    l.after (cs.map Char.toUpper) = l.after cs := by
  have hsize := Text.apply_toUpper Char.utf8Size (by decide)
  have hlength : Text.utf8Length (cs.map Char.toUpper) = Text.utf8Length cs := by
    induction cs with
    | nil => rfl
    | cons c cs ih => rw [List.map_cons, Text.utf8Length_cons, Text.utf8Length_cons, hsize, ih]
  rw [after, after, hlength, Position.after_toUpper]

theorem token_toUpper (l : Location) (kind : TokenKind) (text : List Char) :
    l.token kind (text.map Char.toUpper) = (l.token kind text).upper := by
  rw [token, after_toUpper, Token.upper, token, Text.upper_ofList]

theorem tokens_upper (l : Location) (xs : List Lexeme) :
    l.tokens (xs.map Lexeme.upper) = (l.tokens xs).map Token.upper := by
  induction xs generalizing l with
  | nil => rfl
  | cons x xs ih =>
      cases x with
      | layout text => rw [List.map_cons, Lexeme.upper, tokens, tokens, after_toUpper, ih]
      | token kind text =>
          rw [List.map_cons, Lexeme.upper, tokens, tokens, after_toUpper, ih, token_toUpper,
            List.map_cons]

end Location

theorem tokensOf_upper (text : String) :
    tokensOf (Text.upper text) = (tokensOf text).map Token.upper := by
  rw [tokensOf, tokensOf, Text.toList_upper, Lexeme.cut_toUpper, Location.tokens_upper]

theorem eofOf_upper (text : String) : eofOf (Text.upper text) = (eofOf text).upper := by
  rw [eofOf, eofOf, Text.toList_upper, Location.after_toUpper, ← Location.token_toUpper,
    List.map_nil]

theorem tokenize_upper (text : String) :
    tokenize (Text.upper text) = (tokenize text).map Token.upper := by
  rw [tokenize_eq, tokenize_eq, tokensOf_upper, eofOf_upper, List.map_append, List.map_singleton]

/-! ## Trees -/

theorem Text.upper_intercalate (sep : String) (parts : List String) :
    upper (sep.intercalate parts) = (upper sep).intercalate (parts.map upper) := by
  induction parts with
  | nil => rfl
  | cons s parts ih =>
      cases parts with
      | nil => simp
      | cons t parts =>
          rw [String.intercalate_cons_cons, upper_append, upper_append, ih]
          simp [String.intercalate_cons_cons]

namespace Likeness

/-- A text and the same text in upper case. -/
def capitals : Likeness where
  token x x' := x' = x.upper
  range := Eq
  hole := Eq
  text t t' := t' = Text.upper t
  quoted t t' := t' = Text.upper t
  error e e' := e'.found = e.found ∧ e'.range = e.range
  stop _ _ := False
  kind_eq h := by rw [h]; rfl
  isWord_eq {x x'} h word := by
    rw [h, Token.isWord, Token.isWord]
    exact congrArg (x.kind == .identifier && ·) (Text.sameWord_upper x.text word)
  token_text h _ := by rw [h]; rfl
  token_quoted h _ := by rw [h]; rfl
  token_range h _ := by rw [h]; rfl
  token_hole h := by rw [h]; rfl
  token_error h _ := by rw [h]; exact ⟨rfl, rfl⟩
  token_stray h _ := by rw [h]; exact ⟨rfl, rfl⟩
  cover := cover_eq
  text_empty := rfl
  text_unknown := by decide
  text_sized {t t' sizes sizes'} ht h := by
    have hsizes : sizes' = sizes.map Text.upper := by
      have heq := @map_eq_of_forall₂ _ _ _ _ Text.upper id (fun _ _ h => h) _ _ h
      rwa [List.map_id] at heq
    rw [ht, hsizes, Text.upper_append, Text.upper_append, Text.upper_append, Text.upper_intercalate]
    rfl
  stop_routine := routine_of_false
  stop_error := False.elim

end Likeness

/-- Puts the names, types and literals of a tree in upper case. -/
def Rewriting.upper : Rewriting Range Range := ⟨id, id, Text.upper, Text.upper⟩

theorem Likeness.rewrites_capitals : capitals.Rewrites .upper (.ofRange id) where
  range := Eq.symm
  hole := Eq.symm
  word := id
  string := id

/-- Where an error stands and what was found there, without its wording. -/
def SyntaxError.spot (e : SyntaxError) : TokenKind × Range := (e.found, e.range)

/-- Letter case does not change what a text means: in upper case it has the same tokens at the same
    places, the same tree with its names, types and literals in upper case, and errors at the same
    places. -/
theorem parse_upper (text : String) :
    tokenize (Text.upper text) = (tokenize text).map Token.upper ∧
      (parse (Text.upper text)).items = (parse text).items.map (Item.rewrite .upper) ∧
      (parse (Text.upper text)).errors.map SyntaxError.spot =
        (parse text).errors.map SyntaxError.spot := by
  refine ⟨tokenize_upper text, ?_⟩
  have htokens : List.Forall₂ Likeness.capitals.token (tokensOf text)
      (tokensOf (Text.upper text)) := by
    rw [tokensOf_upper, List.forall₂_map_right_iff]
    exact List.forall₂_same.2 fun _ _ => rfl
  obtain ⟨hitems, herrors⟩ := Likeness.parse_of_tokens
    (s := ⟨[], tokensOf (Text.upper text), eofOf (Text.upper text)⟩) (fun _ _ => id) htokens
    (eofOf_upper text)
  rw [← parse_eq] at hitems herrors
  constructor
  · have heq := Likeness.map_eq_of_forall₂
      (fun _ _ hi => hi.rewrite_eq Likeness.rewrites_capitals) hitems
    have hid : Item.rewrite (.ofRange (id : Range → Range)) = id :=
      funext fun i => (Item.rewrite_ofRange id i).trans i.map_id
    rwa [hid, List.map_id] at heq
  · refine Likeness.map_eq_of_forall₂ ?_ herrors
    intro e e' he
    rw [SyntaxError.spot, SyntaxError.spot, he.1, he.2]

end FourthGen
