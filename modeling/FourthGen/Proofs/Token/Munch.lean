import FourthGen.Proofs.Token.Lexer

set_option autoImplicit false

/-! # Tokens and gaps by their form

What the lexer makes of a text, said without the lexer. `TokenForm kind text rest` lists the tokens:
which characters make up a token of each kind, and what may follow it, so that it could not be longer.
`Gap gap rest` lists what stands between tokens. `Written` puts a text together from both.

The lexer finds exactly the tokens of these forms (`Lexeme.next_eq_token_iff`), which is why no text
has two of them at one place, and its tokens with the gaps between them are the text
(`written_tokenize`). -/

namespace FourthGen

/-! ## Letter case

A reserved word is spelled in upper case, so that a text agrees with it up to letter case exactly if it
is the word once its own letters are in upper case. -/

namespace Text

theorem toNat_toUpper (c : Char) :
    c.toUpper.toNat = if 97 ≤ c.toNat ∧ c.toNat ≤ 122 then c.toNat - 32 else c.toNat := by
  have hcond : ('a'.val ≤ c.val ∧ c.val ≤ 'z'.val) ↔ (97 ≤ c.toNat ∧ c.toNat ≤ 122) := by
    simp only [UInt32.le_iff_toNat_le]
    exact Iff.rfl
  have hshift : ('A'.val - 'a'.val).toNat = 2 ^ 32 - 32 := rfl
  unfold Char.toUpper
  split
  · next h =>
    rw [if_pos (hcond.1 h)]
    have hle := (hcond.1 h).2
    simp only [Char.toNat, UInt32.toNat_add, hshift] at hle ⊢
    have hge := (hcond.1 h).1
    simp only [Char.toNat] at hge
    omega
  · next h => rw [if_neg (mt hcond.2 h)]

theorem toNat_toLower (c : Char) :
    c.toLower.toNat = if 65 ≤ c.toNat ∧ c.toNat ≤ 90 then c.toNat + 32 else c.toNat := by
  have hcond : (c.val ≥ 'A'.val ∧ c.val ≤ 'Z'.val) ↔ (65 ≤ c.toNat ∧ c.toNat ≤ 90) := by
    simp only [ge_iff_le, UInt32.le_iff_toNat_le]
    exact Iff.rfl
  have hshift : ('a'.val - 'A'.val).toNat = 32 := rfl
  unfold Char.toLower
  split
  · next h =>
    rw [if_pos (hcond.1 h)]
    have hle := (hcond.1 h).2
    simp only [Char.toNat, UInt32.toNat_add, hshift] at hle ⊢
    omega
  · next h => rw [if_neg (mt hcond.2 h)]

theorem isUpper_iff {c : Char} : c.isUpper = true ↔ 65 ≤ c.toNat ∧ c.toNat ≤ 90 := by
  show decide ('A'.val ≤ c.val ∧ c.val ≤ 'Z'.val) = true ↔ _
  simp [UInt32.le_iff_toNat_le, ← Char.toNat_val]

theorem isLower_iff {c : Char} : c.isLower = true ↔ 97 ≤ c.toNat ∧ c.toNat ≤ 122 := by
  show (decide ('a'.val ≤ c.val) && decide (c.val ≤ 'z'.val)) = true ↔ _
  simp [UInt32.le_iff_toNat_le, ← Char.toNat_val]

theorem isNameStart_iff {c : Char} : isNameStart c = true ↔
    ((65 ≤ c.toNat ∧ c.toNat ≤ 90) ∨ (97 ≤ c.toNat ∧ c.toNat ≤ 122)) ∨ c = '_' := by
  show ((c.isUpper || c.isLower) || c == '_') = true ↔ _
  rw [Bool.or_eq_true, Bool.or_eq_true, isUpper_iff, isLower_iff, beq_iff_eq]

theorem isDigit_iff {c : Char} : c.isDigit = true ↔ 48 ≤ c.toNat ∧ c.toNat ≤ 57 := by
  show (decide (c.val ≥ '0'.val) && decide (c.val ≤ '9'.val)) = true ↔ _
  simp [UInt32.le_iff_toNat_le, ← Char.toNat_val]

theorem toNat_lt_of_isNameRest {c : Char} (h : isNameRest c = true) : c.toNat < 0x80 := by
  have hclasses : (((c.isUpper || c.isLower) || c.isDigit) || c == '_') = true := h
  rw [Bool.or_eq_true, Bool.or_eq_true, Bool.or_eq_true, isUpper_iff, isLower_iff, isDigit_iff,
    beq_iff_eq] at hclasses
  rcases hclasses with hclass | rfl
  · omega
  · decide

theorem isNameRest_of_isNameStart {c : Char} (h : isNameStart c = true) :
    isNameRest c = true := by
  rw [isNameStart, Bool.or_eq_true] at h
  rcases h with h | h
  · simp [isNameRest, Char.isAlphanum, h]
  · simp [isNameRest, h]

/-- A character whose upper case is a capital letter is that letter in some case. -/
theorem toUpper_eq_iff {u : Char} (hu : u.isUpper = true) (c : Char) :
    c.toUpper = u ↔ c.toLower = u.toLower := by
  have hrange := isUpper_iff.1 hu
  rw [← Char.toNat_inj, ← Char.toNat_inj, toNat_toUpper, toNat_toLower, toNat_toLower]
  split <;> split <;> omega

theorem map_toUpper_eq_iff {us : List Char} (hus : us.all Char.isUpper = true) (cs : List Char) :
    cs.map Char.toUpper = us ↔ cs.map Char.toLower = us.map Char.toLower := by
  induction us generalizing cs with
  | nil => simp
  | cons u us ih =>
      rw [List.all_cons, Bool.and_eq_true] at hus
      cases cs with
      | nil => simp
      | cons c cs =>
          rw [List.map_cons, List.map_cons, List.map_cons, List.cons.injEq, List.cons.injEq,
            toUpper_eq_iff hus.1, ih hus.2]

end Text

theorem Keyword.isUpper_spelling (k : Keyword) : k.spelling.toList.all Char.isUpper = true := by
  cases k <;> decide

theorem Keyword.ofText_spelling (k : Keyword) : Keyword.ofText? k.spelling = some k := by
  cases k <;> decide

/-- Upper case makes of a text the reserved word that it spells up to letter case. -/
theorem Keyword.upper_eq_iff (text : String) (k : Keyword) :
    Text.upper text = k.spelling ↔ Text.sameWord text k.spelling = true := by
  rw [Text.sameWord, beq_iff_eq, ← Text.map_toUpper_eq_iff k.isUpper_spelling, Text.upper]
  constructor
  · intro h
    rw [← h, String.toList_ofList]
  · intro h
    rw [h, String.ofList_toList]

/-! ## Forms -/

/-- The inside of a string literal: a backslash takes the next character with it, and no other
    character is the quote. -/
inductive Quoted (quote : Char) : List Char → Prop
  | nil : Quoted quote []
  | plain {c : Char} {cs : List Char} (hq : c ≠ quote) (hb : c ≠ '\\') (h : Quoted quote cs) :
      Quoted quote (c :: cs)
  | escaped {c : Char} {cs : List Char} (h : Quoted quote cs) : Quoted quote ('\\' :: c :: cs)

/-- The kind of a word: the reserved word that it spells in some letter case, or identifier. -/
inductive WordKind (text : List Char) : TokenKind → Prop
  | keyword {k : Keyword} (h : Text.sameWord (String.ofList text) k.spelling = true) :
      WordKind text (.keyword k)
  | identifier (h : ∀ k : Keyword, Text.sameWord (String.ofList text) k.spelling = false) :
      WordKind text .identifier

/-- Whether a comment starts here. -/
def StartsComment (cs : List Char) : Prop := ['#'] <+: cs ∨ ['-', '-'] <+: cs

/-- The tokens: `text` is the longest token at the start of `text ++ rest`, and of the given kind. -/
inductive TokenForm : TokenKind → (text rest : List Char) → Prop
  /-- From a quote to the first one like it that no backslash escapes. -/
  | string {quote : Char} {body rest : List Char} (hq : quote = '"' ∨ quote = '\'')
      (h : Quoted quote body) : TokenForm .stringLiteral (quote :: (body ++ [quote])) rest
  /-- Without such a quote, to the end of the text. -/
  | openString {quote : Char} {body : List Char} (hq : quote = '"' ∨ quote = '\'')
      (h : Quoted quote body) : TokenForm .stringLiteral (quote :: body) []
  /-- The same, where the text ends with a backslash that escapes nothing. -/
  | openEscape {quote : Char} {body : List Char} (hq : quote = '"' ∨ quote = '\'')
      (h : Quoted quote body) : TokenForm .stringLiteral (quote :: (body ++ ['\\'])) []
  | number {c : Char} {cs rest : List Char} (hc : c.isDigit = true)
      (hcs : ∀ d ∈ cs, d.isDigit = true ∨ d = '.')
      (hend : ∀ d, rest.head? = some d → d.isDigit = false ∧ d ≠ '.') :
      TokenForm .numberLiteral (c :: cs) rest
  | word {kind : TokenKind} {c : Char} {cs rest : List Char} (hc : Text.isNameStart c = true)
      (hcs : ∀ d ∈ cs, Text.isNameRest d = true)
      (hend : ∀ d, rest.head? = some d → Text.isNameRest d = false)
      (hk : WordKind (c :: cs) kind) : TokenForm kind (c :: cs) rest
  | newline {rest : List Char} : TokenForm .newline ['\n'] rest
  /-- A symbol, unless a longer one stands here. -/
  | symbol {mark : Punctuation} {rest : List Char}
      (hmax : ∀ other : Punctuation, other.spelling.toList <+: mark.spelling.toList ++ rest →
        other.spelling.length ≤ mark.spelling.length) :
      TokenForm (.symbol mark) mark.spelling.toList rest
  /-- A character with which nothing else starts. -/
  | unknown {c : Char} {rest : List Char} (hblank : c ≠ ' ' ∧ c ≠ '\t' ∧ c ≠ '\r')
      (hcomment : ¬ StartsComment (c :: rest)) (hquote : c ≠ '"' ∧ c ≠ '\'')
      (hdigit : c.isDigit = false) (hname : Text.isNameStart c = false) (hline : c ≠ '\n')
      (hsymbol : ∀ mark : Punctuation, ¬ mark.spelling.toList <+: c :: rest) :
      TokenForm .unknown [c] rest

/-- What stands between two tokens: blanks, and comments up to the end of their line. `rest` is the
    text behind the gap. -/
inductive Gap : (gap rest : List Char) → Prop
  | nil {rest : List Char} : Gap [] rest
  | blank {c : Char} {gap rest : List Char} (hc : c = ' ' ∨ c = '\t' ∨ c = '\r') (h : Gap gap rest) :
      Gap (c :: gap) rest
  | comment {body gap rest : List Char} (hs : StartsComment body) (hb : '\n' ∉ body)
      (he : ∀ d, (gap ++ rest).head? = some d → d = '\n') (h : Gap gap rest) : Gap (body ++ gap) rest

/-- Behind the characters `left` the characters `rest` are a gap and a token, again and again, and
    then a gap and the end. Spans count the bytes from the start of `left`. -/
inductive Written : (left rest : List Char) → List Token → Prop
  | done {left gap : List Char} {e : Token} (hg : Gap gap []) (hk : e.kind = .eof) (ht : e.text = "")
      (hs : e.span = ⟨Text.utf8Length (left ++ gap), Text.utf8Length (left ++ gap)⟩) :
      Written left gap [e]
  | token {left gap rest : List Char} {t : Token} {ts : List Token}
      (hg : Gap gap (t.text.toList ++ rest)) (hf : TokenForm t.kind t.text.toList rest)
      (hs : t.span = ⟨Text.utf8Length (left ++ gap),
        Text.utf8Length (left ++ gap ++ t.text.toList)⟩)
      (h : Written (left ++ gap ++ t.text.toList) rest ts) :
      Written left (gap ++ (t.text.toList ++ rest)) (t :: ts)

/-! ## The lexer finds the tokens of these forms -/

namespace Lexeme

/-! ### Runs and string literals -/

theorem takeWhile_of_run {p : Char → Bool} {cs rest : List Char} (hcs : ∀ d ∈ cs, p d = true)
    (hend : ∀ d, rest.head? = some d → p d = false) :
    (cs ++ rest).takeWhile p = cs ∧ (cs ++ rest).dropWhile p = rest := by
  rw [List.takeWhile_append_of_pos hcs, List.dropWhile_append_of_pos hcs]
  cases rest with
  | nil => simp
  | cons d rest => simp [hend d rfl]

theorem head_dropWhile {p : Char → Bool} {cs : List Char} {d : Char}
    (h : (cs.dropWhile p).head? = some d) : p d = false := by
  have hnot := List.head?_dropWhile_not p cs
  rw [h] at hnot
  exact hnot

theorem stringBody_of_quoted {quote : Char} (hq : '\\' ≠ quote) {body : List Char}
    (h : Quoted quote body) (rest : List Char) :
    stringBody quote (body ++ rest) =
      (body ++ (stringBody quote rest).1, (stringBody quote rest).2) := by
  induction h with
  | nil => rfl
  | plain hc hb _ ih => rw [List.cons_append, stringBody_plain hc hb, ih, List.cons_append]
  | escaped _ ih =>
      rw [List.cons_append, List.cons_append, stringBody_escape hq, ih, List.cons_append,
        List.cons_append]

/-- A longer string literal, with a character or an escape put behind its opening quote. -/
theorem extendString {quote : Char} {front t rest : List Char}
    (hfront : ∀ body, Quoted quote body → Quoted quote (front ++ body))
    (h : TokenForm .stringLiteral (quote :: t) rest) :
    TokenForm .stringLiteral (quote :: (front ++ t)) rest := by
  generalize htext : quote :: t = text at h
  generalize hkind : TokenKind.stringLiteral = kind at h
  cases h with
  | @string _ body _ hq hbody =>
      cases htext
      rw [← List.append_assoc]
      exact .string hq (hfront body hbody)
  | @openString _ body hq hbody =>
      cases htext
      exact .openString hq (hfront _ hbody)
  | @openEscape _ body hq hbody =>
      cases htext
      rw [← List.append_assoc]
      exact .openEscape hq (hfront body hbody)
  | word _ _ _ hk => cases hk <;> cases hkind
  | number | newline | symbol | unknown => cases hkind

/-- What the lexer takes for the rest of a string literal is the inside of one and its quote, or the
    whole rest of the text. -/
theorem stringBody_form {quote : Char} (hq : quote = '"' ∨ quote = '\'') (cs : List Char) :
    TokenForm .stringLiteral (quote :: (stringBody quote cs).1) (stringBody quote cs).2 := by
  fun_induction stringBody quote cs with
  | case1 => exact .openString hq .nil
  | case2 cs => exact @TokenForm.string quote [] cs hq .nil
  | case3 hne => exact @TokenForm.openEscape quote [] hq .nil
  | case4 d ds hne body ih =>
      exact @extendString quote ['\\', d] _ _ (fun _ h => .escaped h) ih
  | case5 c cs hne hb body ih =>
      exact @extendString quote [c] _ _ (fun _ h => .plain hne hb h) ih

/-! ### Symbols -/

theorem ofPair_eq_some_iff {c d : Char} {mark : Punctuation} :
    Punctuation.ofPair? c d = some mark ↔ mark.spelling.toList = [c, d] := by
  constructor
  · intro h
    unfold Punctuation.ofPair? at h
    split at h <;> cases h <;> rfl
  · intro h
    cases mark <;> cases h <;> rfl

theorem ofChar_eq_some_iff {c : Char} {mark : Punctuation} :
    Punctuation.ofChar? c = some mark ↔ mark.spelling.toList = [c] := by
  constructor
  · intro h
    unfold Punctuation.ofChar? at h
    split at h <;> cases h <;> rfl
  · intro h
    cases mark <;> cases h <;> rfl

theorem spelling_cases (mark : Punctuation) :
    (∃ c, mark.spelling.toList = [c]) ∨ ∃ c d, mark.spelling.toList = [c, d] := by
  cases mark <;> simp [Punctuation.spelling]

/-- A symbol at the start of a text is made of its first two characters or of the first one. -/
theorem spelling_isPrefix_iff {mark : Punctuation} {c : Char} {rest : List Char} :
    mark.spelling.toList <+: c :: rest ↔
      Punctuation.ofChar? c = some mark ∨
        ∃ d, rest.head? = some d ∧ Punctuation.ofPair? c d = some mark := by
  simp only [ofChar_eq_some_iff, ofPair_eq_some_iff]
  obtain ⟨x, hx⟩ | ⟨x, y, hx⟩ := spelling_cases mark
  · rw [hx]
    cases rest <;> simp
  · rw [hx]
    cases rest <;> simp [eq_comm]

theorem charKind_of_some {c : Char} {mark : Punctuation} (h : Punctuation.ofChar? c = some mark) :
    charKind c = .symbol mark := by
  rw [charKind, h]
  rfl

theorem charKind_of_none {c : Char} (h : Punctuation.ofChar? c = none) : charKind c = .unknown := by
  rw [charKind, h]
  rfl

/-- A symbol of one character, where no symbol of two stands. -/
theorem form_of_char {c : Char} {mark : Punctuation} {rest : List Char}
    (hc : Punctuation.ofChar? c = some mark)
    (hpair : ∀ d, rest.head? = some d → Punctuation.ofPair? c d = none) :
    TokenForm (.symbol mark) [c] rest := by
  have hspell := ofChar_eq_some_iff.1 hc
  rw [← hspell]
  refine .symbol ?_
  intro other hother
  rw [hspell, List.singleton_append, spelling_isPrefix_iff] at hother
  obtain hother | ⟨d, hd, hother⟩ := hother
  · rw [hc, Option.some.injEq] at hother
    exact hother ▸ Nat.le_refl _
  · rw [hpair d hd] at hother
    cases hother

theorem form_of_pair {c d : Char} {mark : Punctuation} {rest : List Char}
    (h : Punctuation.ofPair? c d = some mark) : TokenForm (.symbol mark) [c, d] rest := by
  have hspell := ofPair_eq_some_iff.1 h
  rw [← hspell]
  refine .symbol ?_
  intro other _
  have hle : other.spelling.toList.length ≤ 2 := by
    obtain ⟨x, hx⟩ | ⟨x, y, hx⟩ := spelling_cases other <;> simp [hx]
  rw [← String.length_toList, ← String.length_toList, hspell]
  exact hle

/-! ### Every lexeme has its form -/

/-- The lexeme has its form before `rest`: a token is as listed, layout is a run of blanks or a
    comment up to the end of its line. -/
def Fits : Lexeme → List Char → Prop
  | layout text, rest =>
    (∀ c ∈ text, c = ' ' ∨ c = '\t' ∨ c = '\r') ∨
      (StartsComment text ∧ '\n' ∉ text ∧ ∀ d, rest.head? = some d → d = '\n')
  | token kind text, rest => TokenForm kind text rest

theorem isBlank_iff {c : Char} : isBlank c = true ↔ c = ' ' ∨ c = '\t' ∨ c = '\r' := by
  simp [isBlank, or_assoc]

theorem isQuote_iff {c : Char} : isQuote c = true ↔ c = '"' ∨ c = '\'' := by
  simp [isQuote]

theorem isNumberRest_iff {c : Char} : isNumberRest c = true ↔ c.isDigit = true ∨ c = '.' := by
  simp [isNumberRest]

theorem startsComment_iff {c : Char} {cs : List Char} :
    startsComment c cs = true ↔ StartsComment (c :: cs) := by
  rw [startsComment, StartsComment, Bool.or_eq_true, Bool.and_eq_true, beq_iff_eq, beq_iff_eq,
    List.cons_prefix_cons, List.cons_prefix_cons, @eq_comm _ '#' c, @eq_comm _ '-' c]
  cases cs with
  | nil => simp
  | cons d cs => simp [@eq_comm _ '-' d]

/-- A comment is cut off at the end of its line. -/
theorem comment_fits {c : Char} {cs : List Char} (h : startsComment c cs = true) :
    (layout (c :: cs.takeWhile (· != '\n'))).Fits (cs.dropWhile (· != '\n')) := by
  refine .inr ⟨?_, ?_, ?_⟩
  · rw [← startsComment_iff]
    simp only [startsComment, Bool.or_eq_true, Bool.and_eq_true, beq_iff_eq] at h ⊢
    refine h.imp_right ?_
    rintro ⟨hc, hd⟩
    refine ⟨hc, ?_⟩
    cases cs with
    | nil => cases hd
    | cons d cs =>
        cases hd
        rfl
  · intro hmem
    rcases List.mem_cons.1 hmem with rfl | hmem
    · cases h
    · simpa using List.all_eq_true.1 List.all_takeWhile _ hmem
  · intro d hd
    simpa using head_dropWhile hd

theorem wordKind_form (word : List Char) : WordKind word (wordKind word) := by
  unfold wordKind TokenKind.ofWord? Keyword.ofText?
  cases hfind : Keyword.all.find? fun k => Text.upper (String.ofList word) == k.spelling with
  | none =>
      refine .identifier ?_
      intro k
      have hne := List.find?_eq_none.1 hfind k k.mem_all
      rw [beq_iff_eq, Keyword.upper_eq_iff] at hne
      exact Bool.eq_false_iff.2 hne
  | some k =>
      have heq := List.find?_some hfind
      rw [beq_iff_eq, Keyword.upper_eq_iff] at heq
      exact .keyword heq

theorem symbol_fits {c : Char} {cs : List Char} (hblank : isBlank c = false)
    (hcomment : startsComment c cs = false) (hquote : isQuote c = false)
    (hdigit : c.isDigit = false) (hname : Text.isNameStart c = false) (hline : c ≠ '\n') :
    (symbol c cs).1.Fits (symbol c cs).2 := by
  -- a single character is a symbol, or nothing starts with it
  have hchar (hpair : ∀ d, cs.head? = some d → Punctuation.ofPair? c d = none) :
      TokenForm (charKind c) [c] cs := by
    cases hc : Punctuation.ofChar? c with
    | some mark =>
        rw [charKind_of_some hc]
        exact form_of_char hc hpair
    | none =>
        rw [charKind_of_none hc]
        refine .unknown ?_ ?_ ?_ hdigit hname hline ?_
        · simpa [isBlank, and_assoc] using hblank
        · rw [← startsComment_iff, hcomment]
          exact Bool.false_ne_true
        · simpa [isQuote] using hquote
        · intro mark hmark
          obtain hmark | ⟨d, hd, hmark⟩ := spelling_isPrefix_iff.1 hmark
          · rw [hc] at hmark
            cases hmark
          · rw [hpair d hd] at hmark
            cases hmark
  unfold symbol
  split
  · exact hchar (by simp)
  · next d ds =>
    split
    · next mark hmark => exact form_of_pair hmark
    · next hmark => exact hchar (by simpa using hmark)

/-- The lexeme that the lexer cuts off a text has its form. -/
theorem next_fits (c : Char) (cs : List Char) : (next c cs).1.Fits (next c cs).2 := by
  unfold next
  split
  · next hblank =>
    refine .inl ?_
    intro d hd
    rcases List.mem_cons.1 hd with rfl | hd
    · exact isBlank_iff.1 hblank
    · exact isBlank_iff.1 (List.all_eq_true.1 List.all_takeWhile d hd)
  · next hblank =>
    split
    · next hcomment => exact comment_fits hcomment
    · next hcomment =>
      split
      · next hquote => exact stringBody_form (isQuote_iff.1 hquote) cs
      · next hquote =>
        split
        · next hdigit =>
          refine .number hdigit ?_ ?_
          · intro d hd
            exact isNumberRest_iff.1 (List.all_eq_true.1 List.all_takeWhile d hd)
          · intro d hd
            simpa [isNumberRest] using head_dropWhile hd
        · next hdigit =>
          split
          · next hname =>
            exact .word hname (fun d hd => List.all_eq_true.1 List.all_takeWhile d hd)
              (fun d hd => head_dropWhile hd) (wordKind_form _)
          · next hname =>
            split
            · next hline =>
              subst hline
              exact .newline
            · next hline =>
              rw [Bool.not_eq_true] at hblank hcomment hquote hdigit hname
              exact symbol_fits hblank hcomment hquote hdigit hname hline

/-! ### Every form is found -/

/-- A character of a class that has no blank, no quote and no start of a comment. -/
theorem not_layout_of_class {p : Char → Bool} {c : Char} (hc : p c = true)
    (hp : [' ', '\t', '\r', '#', '-', '"', '\''].any p = false) :
    isBlank c = false ∧ (∀ cs, startsComment c cs = false) ∧ isQuote c = false := by
  have hne (x : Char) (hx : x ∈ [' ', '\t', '\r', '#', '-', '"', '\'']) : c ≠ x := by
    rintro rfl
    exact List.any_eq_false.1 hp c hx hc
  refine ⟨?_, ?_, ?_⟩
  · simp [isBlank, hne ' ', hne '\t', hne '\r']
  · intro cs
    simp [startsComment, hne '#', hne '-']
  · simp [isQuote, hne '"', hne '\'']

theorem next_of_quote {quote : Char} (hq : quote = '"' ∨ quote = '\'') (cs : List Char) :
    next quote cs =
      (token .stringLiteral (quote :: (stringBody quote cs).1), (stringBody quote cs).2) := by
  rcases hq with rfl | rfl <;> rfl

theorem next_of_digit {c : Char} (hc : c.isDigit = true) (cs : List Char) :
    next c cs =
      (token .numberLiteral (c :: cs.takeWhile isNumberRest), cs.dropWhile isNumberRest) := by
  obtain ⟨hblank, hcomment, hquote⟩ := not_layout_of_class hc (by decide)
  simp [next, hblank, hcomment, hquote, hc]

theorem next_of_name {c : Char} (hc : Text.isNameStart c = true) (cs : List Char) :
    next c cs = (token (wordKind (c :: cs.takeWhile Text.isNameRest))
      (c :: cs.takeWhile Text.isNameRest), cs.dropWhile Text.isNameRest) := by
  obtain ⟨hblank, hcomment, hquote⟩ := not_layout_of_class hc (by decide)
  have hdigit : c.isDigit = false := by
    rw [Bool.eq_false_iff]
    intro hdigit
    have hrange : 48 ≤ c.toNat ∧ c.toNat ≤ 57 := by
      simpa [Char.isDigit, UInt32.le_iff_toNat_le, ← Char.toNat_val] using hdigit
    rcases Text.isNameStart_iff.1 hc with hletter | rfl
    · omega
    · cases hdigit
  simp [next, hblank, hcomment, hquote, hdigit, hc]

/-- The characters with which a symbol starts. -/
theorem next_of_symbol {c : Char} {tail : List Char} {mark : Punctuation}
    (h : mark.spelling.toList = c :: tail) (cs : List Char) : next c cs = symbol c cs := by
  cases mark <;> cases h <;> rfl

theorem symbol_of_char {c : Char} {rest : List Char}
    (hpair : ∀ d, rest.head? = some d → Punctuation.ofPair? c d = none) :
    symbol c rest = (token (charKind c) [c], rest) := by
  cases rest with
  | nil => rfl
  | cons d rest => simp [symbol, hpair d rfl]

theorem wordKind_of_form {word : List Char} {kind : TokenKind} (h : WordKind word kind) :
    wordKind word = kind := by
  -- two reserved words that a text spells are spelled alike
  have hinj {k k' : Keyword} (hs : Text.sameWord (String.ofList word) k.spelling = true)
      (hs' : Text.sameWord (String.ofList word) k'.spelling = true) : k = k' := by
    rw [← Keyword.upper_eq_iff] at hs hs'
    have heq := congrArg Keyword.ofText? (hs.symm.trans hs')
    rw [Keyword.ofText_spelling, Keyword.ofText_spelling] at heq
    exact Option.some.inj heq
  generalize hkind : wordKind word = kind'
  have hform := wordKind_form word
  rw [hkind] at hform
  cases h with
  | keyword hs =>
      cases hform with
      | keyword hs' => rw [hinj hs hs']
      | identifier hnone =>
          rw [hnone] at hs
          cases hs
  | identifier hnone =>
      cases hform with
      | keyword hs =>
          rw [hnone] at hs
          cases hs
      | identifier _ => rfl

/-- A token that has its form is what the lexer cuts off the text that starts with it. -/
theorem next_of_form {kind : TokenKind} {text rest : List Char} (h : TokenForm kind text rest) :
    ∃ c cs, text ++ rest = c :: cs ∧ next c cs = (token kind text, rest) := by
  cases h with
  | @string quote body rest hq hbody =>
      refine ⟨quote, body ++ (quote :: rest), by simp, ?_⟩
      have hne : '\\' ≠ quote := by rcases hq with rfl | rfl <;> decide
      rw [next_of_quote hq, stringBody_of_quoted hne hbody, stringBody_quote]
  | @openString quote body hq hbody =>
      refine ⟨quote, body ++ [], by simp, ?_⟩
      have hne : '\\' ≠ quote := by rcases hq with rfl | rfl <;> decide
      rw [next_of_quote hq, stringBody_of_quoted hne hbody]
      simp [stringBody]
  | @openEscape quote body hq hbody =>
      refine ⟨quote, body ++ ['\\'], by simp, ?_⟩
      have hne : '\\' ≠ quote := by rcases hq with rfl | rfl <;> decide
      rw [next_of_quote hq, stringBody_of_quoted hne hbody]
      simp [stringBody, hne]
  | @number c cs rest hc hcs hend =>
      obtain ⟨htake, hdrop⟩ := @takeWhile_of_run isNumberRest cs rest
        (fun d hd => isNumberRest_iff.2 (hcs d hd)) (fun d hd => by simpa [isNumberRest] using hend d hd)
      exact ⟨c, cs ++ rest, rfl, by rw [next_of_digit hc, htake, hdrop]⟩
  | @word kind c cs rest hc hcs hend hk =>
      obtain ⟨htake, hdrop⟩ := takeWhile_of_run hcs hend
      exact ⟨c, cs ++ rest, rfl, by rw [next_of_name hc, htake, hdrop, wordKind_of_form hk]⟩
  | newline => exact ⟨'\n', rest, rfl, rfl⟩
  | @symbol mark rest hmax =>
      obtain ⟨c, hc⟩ | ⟨c, d, hc⟩ := spelling_cases mark
      · have hpair : ∀ d, rest.head? = some d → Punctuation.ofPair? c d = none := by
          intro d hd
          cases hother : Punctuation.ofPair? c d with
          | none => rfl
          | some other =>
              -- a symbol of two characters would be the longer one
              have hle := hmax other (by
                rw [hc, List.singleton_append]
                exact spelling_isPrefix_iff.2 (.inr ⟨d, hd, hother⟩))
              rw [← String.length_toList, ← String.length_toList, hc,
                ofPair_eq_some_iff.1 hother] at hle
              simp at hle
        refine ⟨c, rest, by rw [hc]; rfl, ?_⟩
        rw [next_of_symbol hc, symbol_of_char hpair, charKind_of_some (ofChar_eq_some_iff.2 hc), hc]
      · refine ⟨c, d :: rest, by rw [hc]; rfl, ?_⟩
        rw [next_of_symbol hc, symbol, ofPair_eq_some_iff.2 hc, hc]
  | @unknown c rest hblank hcomment hquote hdigit hname hline hsymbol =>
      have hchar : Punctuation.ofChar? c = none := by
        cases hother : Punctuation.ofChar? c with
        | none => rfl
        | some other => exact absurd (spelling_isPrefix_iff.2 (.inl hother)) (hsymbol other)
      have hpair : ∀ d, rest.head? = some d → Punctuation.ofPair? c d = none := by
        intro d hd
        cases hother : Punctuation.ofPair? c d with
        | none => rfl
        | some other => exact absurd (spelling_isPrefix_iff.2 (.inr ⟨d, hd, hother⟩)) (hsymbol other)
      refine ⟨c, rest, rfl, ?_⟩
      rw [← startsComment_iff, Bool.not_eq_true] at hcomment
      rw [← charKind_of_none hchar, ← symbol_of_char hpair]
      simp [next, isBlank, isQuote, hblank, hquote, hcomment, hdigit, hname, hline]

/-- At the start of a text the lexer finds a token exactly if one stands there by its form. -/
theorem next_eq_token_iff {c : Char} {cs text rest : List Char} {kind : TokenKind} :
    next c cs = (token kind text, rest) ↔ TokenForm kind text rest ∧ text ++ rest = c :: cs := by
  constructor
  · intro h
    have hfits := next_fits c cs
    have happ := next_append c cs
    rw [h] at hfits happ
    exact ⟨hfits, happ⟩
  · rintro ⟨hform, happ⟩
    obtain ⟨d, ds, hd, hnext⟩ := next_of_form hform
    rw [happ] at hd
    cases hd
    exact hnext

end Lexeme

/-- No text starts with two tokens. -/
theorem TokenForm.unique {kind kind' : TokenKind} {text text' rest rest' : List Char}
    (h : TokenForm kind text rest) (h' : TokenForm kind' text' rest')
    (heq : text' ++ rest' = text ++ rest) : kind' = kind ∧ text' = text := by
  obtain ⟨c, cs, hcs, hnext⟩ := Lexeme.next_of_form h
  have hnext' := Lexeme.next_eq_token_iff.2 ⟨h', heq.trans hcs⟩
  rw [hnext] at hnext'
  cases hnext'
  exact ⟨rfl, rfl⟩

/-! ## The tokens of a text and the gaps between them -/

/-- Layout in front of a gap makes a longer gap. -/
theorem Gap.layout {text gap rest : List Char} (ht : (Lexeme.layout text).Fits (gap ++ rest))
    (h : Gap gap rest) : Gap (text ++ gap) rest := by
  obtain hblank | ⟨hs, hb, he⟩ := ht
  · induction text with
    | nil => exact h
    | cons c text ih =>
        rw [List.forall_mem_cons] at hblank
        exact .blank hblank.1 (ih hblank.2)
  · exact .comment hs hb he h

namespace Written

variable {left rest : List Char} {ts : List Token}

/-- Layout belongs to the gap before the next token. -/
theorem layout {text : List Char} (ht : (Lexeme.layout text).Fits rest)
    (h : Written (left ++ text) rest ts) : Written left (text ++ rest) ts := by
  cases h with
  | @done _ gap e hg hk hempty hs =>
      refine .done (hg.layout (by rwa [List.append_nil])) hk hempty ?_
      rwa [← List.append_assoc]
  | @token _ gap rest t ts hg hf hs h =>
      rw [← List.append_assoc]
      refine .token (hg.layout ht) hf ?_ ?_
      · rwa [← List.append_assoc]
      · rwa [← List.append_assoc]

end Written

theorem written_place {l : Location} {left : List Char} (hl : l.offset = Text.utf8Length left)
    (cs : List Char) : Written left cs (l.place (Lexeme.cut cs)) := by
  fun_induction Lexeme.cut cs generalizing l left with
  | case1 => exact .done .nil rfl rfl (by simp [Location.token, Location.after, hl])
  | case2 c cs ih =>
      have hfits := Lexeme.next_fits c cs
      have happ := Lexeme.next_append c cs
      generalize Lexeme.next c cs = r at hfits happ ih ⊢
      obtain ⟨x, rest⟩ := r
      have hafter (text : List Char) : (l.after text).offset = Text.utf8Length (left ++ text) := by
        simp [Location.after, hl]
      cases x with
      | layout text =>
          rw [← happ]
          exact (ih (hafter text)).layout hfits
      | token kind text =>
          have htext : (l.token kind text).text.toList = text := String.toList_ofList
          have hrest := @Written.token left [] rest (l.token kind text)
            ((l.after text).place (Lexeme.cut rest)) .nil (by rw [htext]; exact hfits) ?_ ?_
          · rw [← happ]
            rw [htext] at hrest
            exact hrest
          · simp [Location.token, Location.after, hl]
          · rw [htext, List.append_nil]
            exact ih (hafter text)

/-- The tokens of a text with the gaps between them are the text. -/
theorem written_tokenize (text : String) : Written [] text.toList (tokenize text) :=
  written_place rfl text.toList

namespace Written

variable {left rest : List Char} {ts : List Token}

/-- Tokens stand in order and do not overlap. -/
theorem spans (h : Written left rest ts) :
    (∀ t ∈ ts, Text.utf8Length left ≤ t.span.start ∧ t.span.start ≤ t.span.stop) ∧
      ts.Pairwise (·.span.stop ≤ ·.span.start) := by
  induction h with
  | done _ _ _ hs => simp [hs]
  | token _ _ hs _ ih =>
      obtain ⟨hle, hpair⟩ := ih
      simp only [Text.utf8Length_append] at hs hle
      refine ⟨?_, List.pairwise_cons.2 ⟨?_, hpair⟩⟩
      · rw [List.forall_mem_cons]
        refine ⟨by simp [hs], ?_⟩
        intro u hu
        exact ⟨by have := (hle u hu).1; omega, (hle u hu).2⟩
      · intro u hu
        rw [hs]
        exact (hle u hu).1

/-- Every token of a written text, with the gap before it and what follows it. -/
theorem split {before after : List Token} {t : Token}
    (h : Written left rest (before ++ t :: after)) :
    ∃ start gap right, left ++ rest = start ++ (gap ++ (t.text.toList ++ right)) ∧
      Text.utf8Length start = (before.getLast?.map (·.span.stop)).getD (Text.utf8Length left) ∧
      t.span = ⟨Text.utf8Length (start ++ gap), Text.utf8Length (start ++ gap ++ t.text.toList)⟩ ∧
      Gap gap (t.text.toList ++ right) ∧
      (TokenForm t.kind t.text.toList right ∨
        (t.kind = .eof ∧ t.text = "" ∧ after = [] ∧ right = [])) := by
  induction before generalizing left rest with
  | nil =>
      cases h with
      | done hg hk ht hs =>
          exact ⟨left, rest, [], by simp [ht], rfl, by simp [hs, ht], by simpa [ht] using hg,
            .inr ⟨hk, ht, rfl, rfl⟩⟩
      | @token _ gap right _ _ hg hf hs _ => exact ⟨left, gap, right, rfl, rfl, hs, hg, .inl hf⟩
  | cons u before ih =>
      rw [List.cons_append] at h
      generalize hus : before ++ t :: after = us at h
      cases h with
      | done =>
          -- the end is the last token
          simp at hus
      | @token _ gap rest _ _ hg hf hs h =>
          subst hus
          obtain ⟨start, gap', right, happ, hstart, hrest⟩ := ih h
          refine ⟨start, gap', right, ?_, ?_, hrest⟩
          · rw [← happ]
            simp
          · rw [hstart, List.getLast?_cons]
            cases before.getLast? <;> simp [hs]

/-- A written text is put together from its gaps and its tokens. -/
theorem exists_gaps (h : Written left rest ts) :
    ∃ gaps : List (List Char), gaps.length = ts.length ∧ (∀ gap ∈ gaps, ∃ right, Gap gap right) ∧
      (List.zipWith (fun gap t => gap ++ t.text.toList) gaps ts).flatten = rest := by
  induction h with
  | @done left gap e hg hk ht hs => exact ⟨[gap], rfl, by simpa using ⟨_, hg⟩, by simp [ht]⟩
  | @token left gap rest t ts hg hf hs h ih =>
      obtain ⟨gaps, hlen, hgaps, hflat⟩ := ih
      refine ⟨gap :: gaps, by simp [hlen], ?_, by simp [hflat]⟩
      rw [List.forall_mem_cons]
      exact ⟨⟨_, hg⟩, hgaps⟩

end Written

/-- The part of a text between the byte offsets of a span. -/
def Slice (text : List Char) (span : Span) (part : List Char) : Prop :=
  ∃ left right, text = left ++ (part ++ right) ∧ span.start = Text.utf8Length left ∧
    span.stop = Text.utf8Length (left ++ part)

/-- The lexer loses nothing of a text and cuts it into the longest tokens. One token stands for the
    end, every other is part of the text by its span, and the spans are in order. What stands between
    tokens are gaps, with which the tokens make up the text again. A token that is not the end is of
    the one form that a token at its place can have. -/
theorem tokenize_lossless (text : String) :
    (∃ ts e, tokenize text = ts ++ [e] ∧ (∀ t ∈ ts, t.kind ≠ .eof) ∧ e.kind = .eof ∧ e.text = "" ∧
        e.span = ⟨Text.utf8Length text.toList, Text.utf8Length text.toList⟩) ∧
      (∀ t ∈ tokenize text, Slice text.toList t.span t.text.toList) ∧
      (tokenize text).Pairwise (·.span.stop ≤ ·.span.start) ∧
      (∀ before t after, tokenize text = before ++ t :: after →
        ∃ start gap right, text.toList = start ++ (gap ++ (t.text.toList ++ right)) ∧
          Text.utf8Length start = (before.getLast?.map (·.span.stop)).getD 0 ∧
          t.span.start = Text.utf8Length (start ++ gap) ∧ Gap gap (t.text.toList ++ right) ∧
          (t.kind ≠ .eof → TokenForm t.kind t.text.toList right ∧
            ∀ kind part rest, TokenForm kind part rest → part ++ rest = t.text.toList ++ right →
              kind = t.kind ∧ part = t.text.toList)) ∧
      ∃ gaps : List (List Char), gaps.length = (tokenize text).length ∧
        (∀ gap ∈ gaps, ∃ right, Gap gap right) ∧
        (List.zipWith (fun gap t => gap ++ t.text.toList) gaps (tokenize text)).flatten =
          text.toList := by
  have hwritten := written_tokenize text
  refine ⟨?_, ?_, hwritten.spans.2, ?_, hwritten.exists_gaps⟩
  · refine ⟨tokensOf text, eofOf text, tokenize_eq text, fun t ht => ne_eof_of_mem_tokensOf ht, rfl,
      rfl, ?_⟩
    simp [eofOf, Location.token, Location.after, Location.zero]
  · intro t ht
    obtain ⟨before, after, hsplit⟩ := List.append_of_mem ht
    rw [hsplit] at hwritten
    obtain ⟨start, gap, right, happ, -, hspan, -⟩ := hwritten.split
    rw [List.nil_append] at happ
    refine ⟨start ++ gap, right, by rw [happ, List.append_assoc], ?_, ?_⟩
    · rw [hspan]
    · rw [hspan]
  · intro before t after hsplit
    rw [hsplit] at hwritten
    obtain ⟨start, gap, right, happ, hstart, hspan, hgap, hform⟩ := hwritten.split
    refine ⟨start, gap, right, happ, hstart, by rw [hspan], hgap, ?_⟩
    intro hkind
    obtain hform | ⟨heof, -⟩ := hform
    · exact ⟨hform, fun kind part rest h heq => hform.unique h heq⟩
    · exact absurd heof hkind

end FourthGen
