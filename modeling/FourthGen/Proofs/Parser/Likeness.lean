import FourthGen.Proofs.Parser.Clean
import Mathlib.Data.List.Forall2

set_option autoImplicit false

/-! # Parsing two texts side by side

Two lists of tokens can differ and still lead the parser along the same way. A `Likeness` says how the
tokens, and so the ranges, names and errors that come of them, may differ. Under a likeness two
cursors are *aligned* if what lies ahead of them agrees token by token, where any two runs of
separators agree that start alike. At the end, behind a separator, the first text may stop where the
second goes on with a declaration: no rule but the loop over the items of a program tells the two
apart. -/

namespace FourthGen

theorem Cursor.peek_of_atEnd {s : Cursor} (h : s.atEnd = true) : s.peek = s.eof := by
  have hnil : s.ahead = [] := by simpa [Cursor.atEnd] using h
  rw [Cursor.peek, hnil, List.headD_nil]

/-- How two texts that are parsed side by side may differ. -/
structure Likeness where
  /-- Tokens that stand for each other. -/
  token : Token → Token → Prop
  /-- Ranges of nodes that stand for each other. -/
  range : Range → Range → Prop
  /-- Ranges of placeholders for missing expressions that stand for each other. -/
  hole : Range → Range → Prop
  /-- Names, types and numbers that stand for each other. -/
  text : String → String → Prop
  /-- String literals that stand for each other. -/
  quoted : String → String → Prop
  /-- Errors that stand for each other. -/
  error : SyntaxError → SyntaxError → Prop
  /-- The end of the first text and the tokens that the second text goes on with. -/
  stop : Token → List Token → Prop
  kind_eq : ∀ {x x'}, token x x' → x'.kind = x.kind
  isWord_eq : ∀ {x x'}, token x x' → ∀ word, x'.isWord word = x.isWord word
  token_text : ∀ {x x'}, token x x' → x.kind ≠ .stringLiteral → text x.text x'.text
  token_quoted : ∀ {x x'}, token x x' → x.kind = .stringLiteral → quoted x.text x'.text
  token_range : ∀ {x x'}, token x x' → x.kind.isSeparator = false → range x.range x'.range
  token_hole : ∀ {x x'}, token x x' → hole x.errorRange x'.errorRange
  token_error : ∀ {x x'}, token x x' → ∀ c, error (.about x c) (.about x' c)
  token_stray : ∀ {x x'}, token x x' → x.kind ≠ .stringLiteral →
    error (.about x (.strayBlockEnd x.text)) (.about x' (.strayBlockEnd x'.text))
  cover : ∀ {r r' q q'}, range r r' → range q q' → range (r.cover q) (r'.cover q')
  text_empty : text "" ""
  text_unknown : text "UNKNOWN" "UNKNOWN"
  text_sized : ∀ {t t' sizes sizes'}, text t t' → List.Forall₂ text sizes sizes' →
    text (t ++ "(" ++ ",".intercalate sizes ++ ")") (t' ++ "(" ++ ",".intercalate sizes' ++ ")")
  stop_routine : ∀ {e ts e'}, stop e ts →
    (ts.headD e').kind = .keyword .FUNCTION ∨ (ts.headD e').kind = .keyword .PROCEDURE
  stop_error : ∀ {e ts e'}, stop e ts → ∀ c, error (.about e c) (.about (ts.headD e') c)

namespace Likeness

variable (L : Likeness)

/-! ## Aligned cursors -/

/-- What lies ahead in the one text and in the other, up to the tokens `e` and `e'` at their ends. -/
inductive Line (e e' : Token) : List Token → List Token → Prop
  | done (h : L.token e e') : Line e e' [] []
  | token {x x' : Token} {ts ts' : List Token} (hx : L.token x x') (hs : x.kind.isSeparator = false)
      (h : Line e e' ts ts') : Line e e' (x :: ts) (x' :: ts')
  | gap {x x' : Token} {g g' ts ts' : List Token} (hx : L.token x x')
      (hs : x.kind.isSeparator = true) (hg : ∀ y ∈ g, y.kind.isSeparator = true)
      (hg' : ∀ y ∈ g', y.kind.isSeparator = true) (hts : (ts.headD e).kind.isSeparator = false)
      (h : Line e e' ts ts') : Line e e' (x :: (g ++ ts)) (x' :: (g' ++ ts'))
  | last {x x' : Token} {g g' ts' : List Token} (hx : L.token x x')
      (hs : x.kind.isSeparator = true) (hg : ∀ y ∈ g, y.kind.isSeparator = true)
      (hg' : ∀ y ∈ g', y.kind.isSeparator = true) (h : L.stop e ts') :
      Line e e' (x :: g) (x' :: (g' ++ ts'))

/-- What lies ahead of the cursors agrees. -/
structure Aligned (s s' : Cursor) : Prop where
  line : L.Line s.eof s'.eof s.ahead s'.ahead
  eof : s.eof.kind = .eof
  eof' : s'.eof.kind = .eof

/-- The first text is at its end, where the second goes on with a declaration. -/
structure Stopped (s s' : Cursor) : Prop where
  ahead : s.ahead = []
  stop : L.stop s.eof s'.ahead
  eof : s.eof.kind = .eof
  eof' : s'.eof.kind = .eof

/-- The tokens last consumed that are no separators agree, and there are such tokens. -/
def Begun (s s' : Cursor) : Prop :=
  ∃ y y', s.before.find? (!·.kind.isSeparator) = some y ∧
    s'.before.find? (!·.kind.isSeparator) = some y' ∧ L.token y y'

/-- Within a line: aligned, and something is consumed already. -/
def Inside (s s' : Cursor) : Prop := L.Aligned s s' ∧ L.Begun s s'

/-- Where a statement could start, or where none does. -/
def AtStart (s s' : Cursor) : Prop :=
  (L.Aligned s s' ∧ s.kind.isSeparator = false) ∨ L.Stopped s s'

/-- Before or among separators: behind them the cursors agree. -/
def Near (s s' : Cursor) : Prop := L.AtStart s.skipSeparators s'.skipSeparators

/-- Aligned, and either something is consumed already or a token stands here that is no separator. -/
def Ready (s s' : Cursor) : Prop :=
  L.Aligned s s' ∧ (L.Begun s s' ∨ (s.kind.isSeparator = false ∧ s.atEnd = false))

variable {L}

theorem Line.head {e e' : Token} {ts ts' : List Token} (h : L.Line e e' ts ts') :
    L.token (ts.headD e) (ts'.headD e') := by
  cases h with
  | done h => exact h
  | token hx _ _ => exact hx
  | gap hx _ _ _ _ _ => exact hx
  | last hx _ _ _ _ => exact hx

theorem Line.isEmpty {e e' : Token} {ts ts' : List Token} (h : L.Line e e' ts ts') :
    ts'.isEmpty = ts.isEmpty := by
  cases h <;> rfl

theorem Line.check {e e' : Token} {ts ts' : List Token} (h : L.Line e e' ts ts') (k : TokenKind) :
    ts'.head?.any (·.kind == k) = ts.head?.any (·.kind == k) := by
  cases h with
  | done _ => rfl
  | token hx _ _ => simp [L.kind_eq hx]
  | gap hx _ _ _ _ _ => simp [L.kind_eq hx]
  | last hx _ _ _ _ => simp [L.kind_eq hx]

/-- Runs of separators before a line, of any two lengths. -/
theorem Line.run {e e' x x' : Token} {g g' ts ts' : List Token} (hx : L.token x x')
    (hs : x.kind.isSeparator = true) (hg : ∀ y ∈ g, y.kind.isSeparator = true)
    (hg' : ∀ y ∈ g', y.kind.isSeparator = true) (he : e.kind.isSeparator = false)
    (h : L.Line e e' ts ts') : L.Line e e' (x :: (g ++ ts)) (x' :: (g' ++ ts')) := by
  cases h with
  | done h => exact .gap hx hs hg hg' he (.done h)
  | token hy hsy h => exact .gap hx hs hg hg' hsy (.token hy hsy h)
  | @gap y y' k k' us us' hy hsy hk hk' hus h =>
      -- the run goes on into the next one
      have hsy' : y'.kind.isSeparator = true := by rw [L.kind_eq hy, hsy]
      have hrun : ∀ z ∈ g ++ y :: k, z.kind.isSeparator = true :=
        List.forall_mem_append.2 ⟨hg, List.forall_mem_cons.2 ⟨hsy, hk⟩⟩
      have hrun' : ∀ z ∈ g' ++ y' :: k', z.kind.isSeparator = true :=
        List.forall_mem_append.2 ⟨hg', List.forall_mem_cons.2 ⟨hsy', hk'⟩⟩
      have hline := Line.gap hx hs hrun hrun' hus h
      rwa [List.append_assoc, List.append_assoc] at hline
  | @last y y' k k' us' hy hsy hk hk' h =>
      have hsy' : y'.kind.isSeparator = true := by rw [L.kind_eq hy, hsy]
      have hrun : ∀ z ∈ g ++ y :: k, z.kind.isSeparator = true :=
        List.forall_mem_append.2 ⟨hg, List.forall_mem_cons.2 ⟨hsy, hk⟩⟩
      have hrun' : ∀ z ∈ g' ++ y' :: k', z.kind.isSeparator = true :=
        List.forall_mem_append.2 ⟨hg', List.forall_mem_cons.2 ⟨hsy', hk'⟩⟩
      have hline := @Line.last L e e' _ _ _ _ _ hx hs hrun hrun' h
      rwa [List.append_assoc] at hline

/-- One more token before a line. A separator is a run by itself. -/
theorem Line.cons {e e' x x' : Token} {ts ts' : List Token} (hx : L.token x x')
    (he : e.kind.isSeparator = false) (h : L.Line e e' ts ts') :
    L.Line e e' (x :: ts) (x' :: ts') := by
  cases hs : x.kind.isSeparator with
  | false => exact .token hx hs h
  | true => exact @Line.run L e e' x x' [] [] ts ts' hx hs (by simp) (by simp) he h

theorem Line.append {e e' : Token} {xs xs' ts ts' : List Token} (hxs : List.Forall₂ L.token xs xs')
    (he : e.kind.isSeparator = false) (h : L.Line e e' ts ts') :
    L.Line e e' (xs ++ ts) (xs' ++ ts') := by
  induction hxs with
  | nil => exact h
  | cons hx _ ih => exact ih.cons hx he

theorem Line.tail {e e' x : Token} {ts ts' : List Token} (h : L.Line e e' (x :: ts) ts')
    (hs : x.kind.isSeparator = false) :
    ∃ x' us', ts' = x' :: us' ∧ L.token x x' ∧ L.Line e e' ts us' := by
  cases h with
  | token hx _ h => exact ⟨_, _, rfl, hx, h⟩
  | gap _ hs' _ _ _ _ =>
      rw [hs] at hs'
      cases hs'
  | last _ hs' _ _ _ =>
      rw [hs] at hs'
      cases hs'

namespace Aligned

variable {s s' : Cursor}

theorem peek (h : L.Aligned s s') : L.token s.peek s'.peek := h.line.head

theorem kind (h : L.Aligned s s') : s'.kind = s.kind := L.kind_eq h.peek

theorem atWord (h : L.Aligned s s') (word : String) : s'.atWord word = s.atWord word :=
  L.isWord_eq h.peek word

theorem atEnd (h : L.Aligned s s') : s'.atEnd = s.atEnd := h.line.isEmpty

/-- Where the kind is not that of the end, a token stands ahead. -/
theorem not_atEnd (h : L.Aligned s s') (hk : s.kind ≠ .eof) : s.atEnd = false := by
  obtain ⟨x, -, hx⟩ := Cursor.exists_takes_of_kind h.eof hk
  exact hx.atEnd_eq

theorem check (h : L.Aligned s s') (k : TokenKind) : s'.check k = s.check k := h.line.check k

theorem operator? (h : L.Aligned s s') (least : Nat) : s'.operator? least = s.operator? least := by
  unfold Cursor.operator?
  rw [h.kind]

theorem atBlockEnd (h : L.Aligned s s') : s'.atBlockEnd = s.atBlockEnd := by
  have hword : s'.atWord = s.atWord := funext h.atWord
  unfold Cursor.atBlockEnd
  rw [h.kind, hword]

theorem atRoutine (h : L.Aligned s s') : s'.atRoutine = s.atRoutine := by
  unfold Cursor.atRoutine
  rw [h.kind]

/-- Both cursors move on over a token that is no separator. -/
theorem advance (h : L.Aligned s s') (hs : s.kind.isSeparator = false) (he : s.atEnd = false) :
    L.token s.advance.previous s'.advance.previous ∧ L.Inside s.advance s'.advance := by
  obtain ⟨x, hpeek, hx⟩ := Cursor.exists_takes_of_atEnd he
  rw [Cursor.kind, hpeek] at hs
  have hline := h.line
  rw [hx.ahead, List.singleton_append] at hline
  obtain ⟨x', ts', hts', hxx', hrest⟩ := hline.tail hs
  have hx' := Cursor.takes_advance hts'
  have hahead : s'.advance.ahead = ts' := by
    have := hx'.ahead
    rw [hts'] at this
    simpa using this.symm
  refine ⟨by rwa [hx.previous_eq, hx'.previous_eq], ⟨?_, ?_, ?_⟩, x, x', ?_, ?_, hxx'⟩
  · rw [hx.eof, hx'.eof, hahead]
    exact hrest
  · rw [hx.eof, h.eof]
  · rw [hx'.eof, h.eof']
  · rw [hx.before]
    simp [hs]
  · rw [hx'.before]
    simp [L.kind_eq hxx', hs]

/-- Behind a token that is no separator, the next tokens agree, too. -/
theorem peekNth_one (h : L.Aligned s s') (hs : s.kind.isSeparator = false) (he : s.atEnd = false) :
    (s'.peekNth 1).kind = (s.peekNth 1).kind := by
  obtain ⟨x, -, hx⟩ := Cursor.exists_takes_of_atEnd he
  obtain ⟨x', -, hx'⟩ := Cursor.exists_takes_of_atEnd (h.atEnd.trans he)
  rw [hx.peekNth_one, hx'.peekNth_one]
  exact L.kind_eq (h.advance hs he).2.1.peek

theorem atWord_next (h : L.Aligned s s') {word : String} (hw : s.atWord word = true) :
    (s'.peekNth 1).kind = (s.peekNth 1).kind := by
  have hk := Cursor.kind_of_atWord hw
  exact h.peekNth_one (by rw [hk]; rfl) (h.not_atEnd (by rw [hk]; decide))

end Aligned

/-! ## Separators -/

theorem skipSeparators_of_not_separator {s : Cursor} (h : s.kind.isSeparator = false) :
    s.skipSeparators = s :=
  (Cursor.Takes.refl s).skipSeparators_eq (by simp) (.inr h)

theorem skipSeparators_of_takes {s t : Cursor} {x : Token} (hx : s.Takes [x] t)
    (h : x.kind.isSeparator = true) : s.skipSeparators = t.skipSeparators := by
  refine Cursor.skipUntil_of_takes hx ?_
  rw [hx.kind_eq, h]
  rfl

theorem isSeparator_routine {k : TokenKind} (h : k = .keyword .FUNCTION ∨ k = .keyword .PROCEDURE) :
    k.isSeparator = false := by
  rcases h with rfl | rfl <;> rfl

theorem Stopped.routine {s s' : Cursor} (h : L.Stopped s s') :
    s'.kind = .keyword .FUNCTION ∨ s'.kind = .keyword .PROCEDURE := L.stop_routine h.stop

theorem Aligned.atStart {s s' : Cursor} (h : L.Aligned s s') (hs : s.kind.isSeparator = false) :
    L.AtStart s s' := .inl ⟨h, hs⟩

/-- Behind a run of separators aligned cursors are aligned again, or the first text is at its end. -/
theorem Aligned.near_of_separator {s s' : Cursor} (h : L.Aligned s s')
    (hs : s.kind.isSeparator = true) : L.Near s s' := by
  obtain ⟨before, ahead, e⟩ := s
  obtain ⟨before', ahead', e'⟩ := s'
  obtain ⟨hline, he, he'⟩ := h
  unfold Near
  cases hline with
  | done _ =>
      rw [Cursor.kind, Cursor.peek, List.headD_nil, he] at hs
      cases hs
  | token _ hx _ =>
      rw [Cursor.kind, Cursor.peek, List.headD_cons, hx] at hs
      cases hs
  | @gap x x' g g' ts ts' hx _ hg hg' hts hrest =>
      have htake : Cursor.Takes ⟨before, x :: (g ++ ts), e⟩ (x :: g)
          ⟨(x :: g).reverse ++ before, ts, e⟩ := ⟨rfl, rfl, rfl⟩
      have htake' : Cursor.Takes ⟨before', x' :: (g' ++ ts'), e'⟩ (x' :: g')
          ⟨(x' :: g').reverse ++ before', ts', e'⟩ := ⟨rfl, rfl, rfl⟩
      -- the runs may differ in length, but both end at the next token
      have hts' : (ts'.headD e').kind.isSeparator = false := by rw [L.kind_eq hrest.head, hts]
      have hsx : x.kind.isSeparator = true := hs
      rw [htake.skipSeparators_eq (by simpa [hsx] using hg) (.inr hts),
        htake'.skipSeparators_eq (by simpa [L.kind_eq hx, hsx] using hg') (.inr hts')]
      exact .inl ⟨⟨hrest, he, he'⟩, hts⟩
  | @last x x' g g' ts' hx _ hg hg' hstop =>
      have htake : Cursor.Takes ⟨before, x :: g, e⟩ (x :: g)
          ⟨(x :: g).reverse ++ before, [], e⟩ := ⟨by simp, rfl, rfl⟩
      have htake' : Cursor.Takes ⟨before', x' :: (g' ++ ts'), e'⟩ (x' :: g')
          ⟨(x' :: g').reverse ++ before', ts', e'⟩ := ⟨rfl, rfl, rfl⟩
      have hsx : x.kind.isSeparator = true := hs
      rw [htake.skipSeparators_eq (by simpa [hsx] using hg) (.inl rfl),
        htake'.skipSeparators_eq (by simpa [L.kind_eq hx, hsx] using hg')
          (.inr (isSeparator_routine (L.stop_routine hstop)))]
      exact .inr ⟨rfl, hstop, he, he'⟩

theorem AtStart.skipSeparators_eq {s s' : Cursor} (h : L.AtStart s s') :
    s.skipSeparators = s ∧ s'.skipSeparators = s' := by
  obtain ⟨h, hs⟩ | h := h
  · exact ⟨skipSeparators_of_not_separator hs,
      skipSeparators_of_not_separator (by rw [h.kind, hs])⟩
  · refine ⟨skipSeparators_of_not_separator ?_,
      skipSeparators_of_not_separator (isSeparator_routine h.routine)⟩
    rw [Cursor.kind, Cursor.peek, h.ahead, List.headD_nil, h.eof]
    rfl

theorem AtStart.near {s s' : Cursor} (h : L.AtStart s s') : L.Near s s' := by
  rw [Near, h.skipSeparators_eq.1, h.skipSeparators_eq.2]
  exact h

theorem Aligned.near {s s' : Cursor} (h : L.Aligned s s') : L.Near s s' := by
  cases hs : s.kind.isSeparator with
  | false => exact (h.atStart hs).near
  | true => exact h.near_of_separator hs

theorem find_before_of_takes {s t : Cursor} {g : List Token} (h : s.Takes g t)
    (hg : ∀ x ∈ g, x.kind.isSeparator = true) :
    t.before.find? (!·.kind.isSeparator) = s.before.find? (!·.kind.isSeparator) := by
  rw [h.before, List.find?_append, List.find?_eq_none.2, Option.none_or]
  intro x hx
  rw [hg x (List.mem_reverse.1 hx)]
  decide

/-- Over separators nothing new is consumed. -/
theorem Begun.of_takes {s s' t t' : Cursor} {g g' : List Token} (h : L.Begun s s')
    (hg : s.Takes g t) (hg' : s'.Takes g' t') (hsep : ∀ x ∈ g, x.kind.isSeparator = true)
    (hsep' : ∀ x ∈ g', x.kind.isSeparator = true) : L.Begun t t' := by
  obtain ⟨y, y', hy, hy', hyy'⟩ := h
  exact ⟨y, y', by rw [find_before_of_takes hg hsep, hy], by rw [find_before_of_takes hg' hsep', hy'],
    hyy'⟩

theorem Begun.skipSeparators {s s' : Cursor} (h : L.Begun s s') :
    L.Begun s.skipSeparators s'.skipSeparators := by
  obtain ⟨g, hg, hsep⟩ := s.takes_skipSeparators
  obtain ⟨g', hg', hsep'⟩ := s'.takes_skipSeparators
  exact h.of_takes hg hg' hsep hsep'

/-- Where a node ends. -/
theorem Begun.previousRange {s s' : Cursor} (h : L.Begun s s') :
    L.range s.previousRange s'.previousRange := by
  obtain ⟨y, y', hy, hy', hyy'⟩ := h
  rw [Cursor.previousRange, Cursor.previousRange, hy, hy']
  exact L.token_range hyy' (by simpa using List.find?_some hy)

theorem Inside.ready {s s' : Cursor} (h : L.Inside s s') : L.Ready s s' := ⟨h.1, .inl h.2⟩

/-! ## Skipping -/

/-- The rest of a line is skipped in both texts. -/
theorem Ready.skipLine {s s' : Cursor} (h : L.Ready s s') : L.Inside s.skipLine s'.skipLine := by
  obtain ⟨n, hn⟩ : ∃ n, s.ahead.length = n := ⟨_, rfl⟩
  induction n using Nat.strongRecOn generalizing s s' with
  | ind n ih =>
    obtain ⟨h, hb⟩ := h
    cases hstop : s.atEnd || s.kind.isSeparator with
    | true =>
        have hstay : s.skipLine = s := Cursor.skipUntil_of_stop (by simpa using hstop)
        have hstay' : s'.skipLine = s' :=
          Cursor.skipUntil_of_stop (by rw [h.atEnd, h.kind]; simpa using hstop)
        rw [hstay, hstay']
        refine ⟨h, hb.resolve_right ?_⟩
        rintro ⟨hs, he⟩
        rw [hs, he] at hstop
        cases hstop
    | false =>
        rw [Bool.or_eq_false_iff] at hstop
        obtain ⟨x, -, hx⟩ := Cursor.exists_takes_of_atEnd hstop.1
        obtain ⟨x', -, hx'⟩ := Cursor.exists_takes_of_atEnd (h.atEnd.trans hstop.1)
        have hstep : s.skipLine = s.advance.skipLine := Cursor.skipUntil_of_takes hx hstop.2
        have hstep' : s'.skipLine = s'.advance.skipLine :=
          Cursor.skipUntil_of_takes hx' (by rw [h.kind, hstop.2])
        rw [hstep, hstep']
        exact ih _ (hn ▸ Cursor.length_advance_lt hstop.1) (h.advance hstop.2 hstop.1).2.ready rfl

/-- Where recovery stops. -/
def resumes (t : Cursor) : Bool :=
  t.previous.kind.isSeparator || Cursor.restartsAt t.kind || t.atBlockEnd

theorem synchronize_eq (s : Cursor) : s.synchronize = s.advance.skipUntil resumes := rfl

/-- Recovery that passes a separator stops right behind it. -/
theorem Inside.resume_separator {s s' : Cursor} (h : L.Inside s s')
    (hs : s.kind.isSeparator = true) :
    s.advance.skipUntil resumes = s.advance ∧ s'.advance.skipUntil resumes = s'.advance ∧
      L.Near s.advance s'.advance ∧ L.Begun s.advance s'.advance := by
  have hend : s.atEnd = false := h.1.not_atEnd (by intro hk; rw [hk] at hs; cases hs)
  have hs' : s'.kind.isSeparator = true := by rw [h.1.kind, hs]
  obtain ⟨x, hpeek, hx⟩ := Cursor.exists_takes_of_atEnd hend
  obtain ⟨x', hpeek', hx'⟩ := Cursor.exists_takes_of_atEnd (h.1.atEnd.trans hend)
  rw [Cursor.kind, hpeek] at hs
  rw [Cursor.kind, hpeek'] at hs'
  refine ⟨Cursor.skipUntil_of_stop (.inr ?_), Cursor.skipUntil_of_stop (.inr ?_), ?_, ?_⟩
  · rw [resumes, hx.previous_eq, hs, Bool.true_or, Bool.true_or]
  · rw [resumes, hx'.previous_eq, hs', Bool.true_or, Bool.true_or]
  · rw [Near, ← skipSeparators_of_takes hx hs, ← skipSeparators_of_takes hx' hs']
    exact h.1.near
  · exact h.2.of_takes hx hx' (by simpa using hs) (by simpa using hs')

/-- Recovery goes on over tokens that are no separators in both texts. -/
theorem Inside.resume {s s' : Cursor} (h : L.Inside s s')
    (hp : s.previous.kind.isSeparator = false) (hp' : s'.previous.kind.isSeparator = false) :
    L.Near (s.skipUntil resumes) (s'.skipUntil resumes) ∧
      L.Begun (s.skipUntil resumes) (s'.skipUntil resumes) := by
  obtain ⟨n, hn⟩ : ∃ n, s.ahead.length = n := ⟨_, rfl⟩
  induction n using Nat.strongRecOn generalizing s s' with
  | ind n ih =>
    -- recovery also looks at the token before, which is no separator in both texts
    have hagree : resumes s' = resumes s := by
      rw [resumes, resumes, hp, hp', h.1.kind, h.1.atBlockEnd]
    cases hstop : s.atEnd || resumes s with
    | true =>
        rw [Cursor.skipUntil_of_stop (by simpa using hstop),
          Cursor.skipUntil_of_stop (by rw [h.1.atEnd, hagree]; simpa using hstop)]
        exact ⟨h.1.near, h.2⟩
    | false =>
        rw [Bool.or_eq_false_iff] at hstop
        obtain ⟨x, -, hx⟩ := Cursor.exists_takes_of_atEnd hstop.1
        obtain ⟨x', -, hx'⟩ := Cursor.exists_takes_of_atEnd (h.1.atEnd.trans hstop.1)
        rw [Cursor.skipUntil_of_takes hx hstop.2,
          Cursor.skipUntil_of_takes hx' (hagree.trans hstop.2)]
        cases hs : s.kind.isSeparator with
        | true =>
            obtain ⟨hstay, hstay', hnear, hbegun⟩ := h.resume_separator hs
            rw [hstay, hstay']
            exact ⟨hnear, hbegun⟩
        | false =>
            obtain ⟨htoken, hinside⟩ := h.1.advance hs hstop.1
            have hxs : s.advance.previous.kind.isSeparator = false := by
              rw [hx.previous_eq, ← hx.kind_eq, hs]
            exact ih _ (hn ▸ Cursor.length_advance_lt hstop.1) hinside hxs
              (by rw [L.kind_eq htoken, hxs]) rfl

/-- After recovery the cursors agree behind the next separators. -/
theorem Ready.synchronize {s s' : Cursor} (h : L.Ready s s') :
    L.Near s.synchronize s'.synchronize ∧ L.Begun s.synchronize s'.synchronize := by
  obtain ⟨h, hb⟩ := h
  rw [synchronize_eq, synchronize_eq]
  cases hend : s.atEnd with
  | true =>
      have hbegun : L.Begun s s' := hb.resolve_right (by rw [hend]; simp)
      have hstay {t : Cursor} (ht : t.atEnd = true) : t.advance.skipUntil resumes = t := by
        have hadv : t.advance = t := by
          have hnil : t.ahead = [] := by simpa [Cursor.atEnd] using ht
          rw [Cursor.advance, hnil]
        rw [hadv]
        exact Cursor.skipUntil_of_stop (.inl ht)
      rw [hstay hend, hstay (h.atEnd.trans hend)]
      exact ⟨h.near, hbegun⟩
  | false =>
      cases hs : s.kind.isSeparator with
      | true =>
          have hbegun : L.Begun s s' := hb.resolve_right (by rw [hs]; simp)
          obtain ⟨hstay, hstay', hnear, hbegun⟩ := Inside.resume_separator ⟨h, hbegun⟩ hs
          rw [hstay, hstay']
          exact ⟨hnear, hbegun⟩
      | false =>
          obtain ⟨htoken, hinside⟩ := h.advance hs hend
          obtain ⟨x, -, hx⟩ := Cursor.exists_takes_of_atEnd hend
          have hxs : s.advance.previous.kind.isSeparator = false := by
            rw [hx.previous_eq, ← hx.kind_eq, hs]
          exact hinside.resume hxs (by rw [L.kind_eq htoken, hxs])

/-! ## Skipping a block -/

theorem skipBlock_of_separator {s : Cursor} (hend : s.atEnd = false)
    (hs : s.kind.isSeparator = true) (opened : Nat) :
    s.skipBlock opened = s.advance.skipBlock opened := by
  have hk : s.kind = .newline ∨ s.kind = .symbol .semicolon := by
    unfold TokenKind.isSeparator at hs
    split at hs
    · next hk => exact .inl hk
    · next hk => exact .inr hk
    · cases hs
  rw [Cursor.skipBlock.eq_def]
  rcases hk with hk | hk
  · have hw (word : String) : s.atWord word = false := by
      rw [Cursor.kind] at hk
      simp [Cursor.atWord, Token.isWord, hk]
    simp [hend, Cursor.atRoutine, Cursor.atCompoundEnd, Cursor.atBlockEnd, Cursor.opensCompound, hk, hw]
  · have hw (word : String) : s.atWord word = false := by
      rw [Cursor.kind] at hk
      simp [Cursor.atWord, Token.isWord, hk]
    simp [hend, Cursor.atRoutine, Cursor.atCompoundEnd, Cursor.atBlockEnd, Cursor.opensCompound, hk, hw]

theorem skipBlock_skipSeparators (opened : Nat) (s : Cursor) :
    s.skipSeparators.skipBlock opened = s.skipBlock opened := by
  unfold Cursor.skipSeparators
  fun_induction Cursor.skipUntil (!·.kind.isSeparator) s with
  | case1 => rfl
  | case2 s h ih =>
    simp only [Bool.or_eq_true, not_or, Bool.not_eq_true, Bool.not_eq_false'] at h
    rw [ih, skipBlock_of_separator h.1 h.2]

theorem Aligned.atCompoundEnd {s s' : Cursor} (h : L.Aligned s s') :
    s'.atCompoundEnd = s.atCompoundEnd := by
  unfold Cursor.atCompoundEnd
  rw [h.kind]
  split
  · rfl
  · rfl
  · rfl
  · rw [h.atWord]
    cases hw : s.atWord "END" with
    | false => rfl
    | true => rw [h.atWord_next hw]

/-- The words that close a compound statement are passed in both texts. -/
theorem Aligned.passCompoundEnd {s s' : Cursor} (h : L.Aligned s s') (hc : s.atCompoundEnd = true) :
    L.Inside (if s.atWord "END" then s.advance.advance else s.advance)
      (if s'.atWord "END" then s'.advance.advance else s'.advance) := by
  rw [h.atWord]
  cases hw : s.atWord "END" with
  | false =>
      have hs : s.kind.isSeparator = false ∧ s.kind ≠ .eof := by
        unfold Cursor.atCompoundEnd at hc
        split at hc
        · next hk => rw [hk]; decide
        · next hk => rw [hk]; decide
        · next hk => rw [hk]; decide
        · rw [hw] at hc
          cases hc
      exact (h.advance hs.1 (h.not_atEnd hs.2)).2
  | true =>
      obtain ⟨x, hx, hxw⟩ := Cursor.exists_takes_of_atWord h.eof hw
      have hid := Cursor.kind_of_atWord hw
      have hin := (h.advance (by rw [hid]; rfl) hx.atEnd_eq).2
      have hopens : Cursor.opensCompound s.advance.kind = true := by
        unfold Cursor.atCompoundEnd at hc
        rw [hid, hw, hx.peekNth_one] at hc
        exact hc
      have hs : s.advance.kind.isSeparator = false ∧ s.advance.kind ≠ .eof := by
        unfold Cursor.opensCompound at hopens
        split at hopens
        · next hk => rw [hk]; decide
        · next hk => rw [hk]; decide
        · next hk => rw [hk]; decide
        · cases hopens
      exact (hin.1.advance hs.1 (hin.1.not_atEnd hs.2)).2

theorem Stopped.atRoutine {s s' : Cursor} (h : L.Stopped s s') : s'.atRoutine = true := by
  unfold Cursor.atRoutine
  rcases h.routine with hk | hk <;> rw [hk]

theorem Stopped.atEnd {s s' : Cursor} (h : L.Stopped s s') : s.atEnd = true := by
  rw [Cursor.atEnd, h.ahead]
  rfl

/-- A block is skipped in both texts. The loop passes separators one by one, so that it is followed
    from one start of a statement to the next. -/
theorem Near.skipBlock {s s' : Cursor} (h : L.Near s s') (hb : L.Begun s s') (opened : Nat) :
    L.AtStart (s.skipBlock opened) (s'.skipBlock opened) ∧
      L.Begun (s.skipBlock opened) (s'.skipBlock opened) := by
  obtain ⟨n, hn⟩ : ∃ n, s.ahead.length = n := ⟨_, rfl⟩
  induction n using Nat.strongRecOn generalizing s s' opened with
  | ind n ih =>
    have hle := s.reaches_skipSeparators.length_le
    rw [← skipBlock_skipSeparators opened s, ← skipBlock_skipSeparators opened s']
    have hb := hb.skipSeparators
    rcases h with ⟨h, hs⟩ | h
    · generalize s.skipSeparators = u at *
      generalize s'.skipSeparators = u' at *
      have hnext {t t' : Cursor} (ht : L.Inside t t') (hlt : t.ahead.length < u.ahead.length)
          (opened : Nat) : L.AtStart (t.skipBlock opened) (t'.skipBlock opened) ∧
            L.Begun (t.skipBlock opened) (t'.skipBlock opened) :=
        ih _ (by omega) ht.1.near ht.2 opened rfl
      rw [Cursor.skipBlock.eq_def opened u, Cursor.skipBlock.eq_def opened u', h.atEnd, h.atRoutine,
        h.atCompoundEnd, h.atBlockEnd, h.check, h.kind]
      split
      · exact ⟨h.atStart hs, hb⟩
      · next hgo =>
        have hend : u.atEnd = false := by
          simp only [Bool.or_eq_true, not_or, Bool.not_eq_true] at hgo
          exact hgo.1
        split
        · next hc =>
          cases opened with
          | zero => exact ⟨h.atStart hs, hb⟩
          | succ opened =>
              refine hnext (h.passCompoundEnd hc) ?_ opened
              have hlt := Cursor.length_advance_lt hend
              split
              · exact Nat.lt_of_le_of_lt u.advance.length_advance_le hlt
              · exact hlt
        · split
          · exact ⟨h.atStart hs, hb⟩
          · exact hnext (h.advance hs hend).2 (Cursor.length_advance_lt hend) _
    -- the first text ends, and in the second the block ends before the declaration
    · rw [Cursor.skipBlock.eq_def opened s.skipSeparators,
        Cursor.skipBlock.eq_def opened s'.skipSeparators, h.atEnd, h.atRoutine, Bool.true_or,
        Bool.or_true]
      exact ⟨.inr h, hb⟩

end Likeness

end FourthGen
