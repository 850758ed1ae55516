import FourthGen.Proofs.Parser.Progress

set_option autoImplicit false

/-! # Readings without complaint

A rule reads *cleanly* if it records no error. `Rule.Clean p s a t` says that `p`, started at `s`,
yields `a` without an error and stops at `t`; `Attempt.Clean` says the same of a rule that can fail,
and that it did not. A clean reading of a sequence is a clean reading of its parts (`clean_bind`), so
that a rule of the grammar is taken apart, or put together, one step at a time. What the steps consume
is kept in the relation `Cursor.Takes`, which names the tokens between two cursors. -/

namespace FourthGen

/-! ## The tokens between two cursors -/

theorem Token.isWord_kind {x : Token} {word : String} (h : x.isWord word = true) :
    x.kind = .identifier := by
  rw [Token.isWord, Bool.and_eq_true, beq_iff_eq] at h
  exact h.1

namespace Cursor

/-- `t` is `s` moved on over the tokens `ts`. -/
structure Takes (s : Cursor) (ts : List Token) (t : Cursor) : Prop where
  ahead : s.ahead = ts ++ t.ahead
  before : t.before = ts.reverse ++ s.before
  eof : t.eof = s.eof

theorem reaches_iff_takes {s t : Cursor} : s.Reaches t ↔ ∃ ts, s.Takes ts t :=
  ⟨fun ⟨ts, ha, hb, he⟩ => ⟨ts, ha, hb, he⟩, fun ⟨ts, h⟩ => ⟨ts, h.ahead, h.before, h.eof⟩⟩

theorem takes_nil {s t : Cursor} : s.Takes [] t ↔ t = s := by
  constructor
  · rintro ⟨ha, hb, he⟩
    obtain ⟨before, ahead, eof⟩ := s
    obtain ⟨before', ahead', eof'⟩ := t
    simp_all
  · rintro rfl
    exact ⟨rfl, rfl, rfl⟩

theorem Takes.refl (s : Cursor) : s.Takes [] s := takes_nil.2 rfl

theorem Takes.trans {s t u : Cursor} {ts us : List Token} (h : s.Takes ts t) (k : t.Takes us u) :
    s.Takes (ts ++ us) u := by
  refine ⟨?_, ?_, k.eof.trans h.eof⟩
  · rw [h.ahead, k.ahead, List.append_assoc]
  · rw [k.before, h.before, List.reverse_append, List.append_assoc]

/-- Between two cursors there is one at every place. -/
theorem takes_append {s u : Cursor} {ts us : List Token} :
    s.Takes (ts ++ us) u ↔ ∃ t, s.Takes ts t ∧ t.Takes us u := by
  constructor
  · intro h
    refine ⟨⟨ts.reverse ++ s.before, us ++ u.ahead, s.eof⟩, ⟨?_, rfl, rfl⟩, ⟨rfl, ?_, h.eof⟩⟩
    · rw [h.ahead, List.append_assoc]
    · rw [h.before, List.reverse_append, List.append_assoc]
  · rintro ⟨t, h, k⟩
    exact h.trans k

theorem takes_cons {s u : Cursor} {x : Token} {us : List Token} :
    s.Takes (x :: us) u ↔ ∃ t, s.Takes [x] t ∧ t.Takes us u :=
  @takes_append s u [x] us

/-- The tokens taken determine where the cursor arrives. -/
theorem Takes.unique {s t u : Cursor} {ts : List Token} (h : s.Takes ts t) (k : s.Takes ts u) :
    t = u := by
  have ha : t.ahead = u.ahead := List.append_cancel_left (h.ahead.symm.trans k.ahead)
  have hb : t.before = u.before := h.before.trans k.before.symm
  have he : t.eof = u.eof := h.eof.trans k.eof.symm
  cases t
  cases u
  simp_all

theorem takes_advance {s : Cursor} {x : Token} {rest : List Token} (h : s.ahead = x :: rest) :
    s.Takes [x] s.advance := by
  unfold advance
  rw [h]
  exact ⟨h, rfl, rfl⟩

theorem Takes.advance_eq {s t : Cursor} {x : Token} (h : s.Takes [x] t) : s.advance = t :=
  (takes_advance h.ahead).unique h

theorem Takes.previous_eq {s t : Cursor} {x : Token} (h : s.Takes [x] t) : t.previous = x := by
  simp [previous, h.before]

theorem Takes.peek_eq {s t : Cursor} {x : Token} {ts : List Token} (h : s.Takes (x :: ts) t) :
    s.peek = x := by
  simp [peek, h.ahead]

theorem Takes.kind_eq {s t : Cursor} {x : Token} {ts : List Token} (h : s.Takes (x :: ts) t) :
    s.kind = x.kind := by
  rw [kind, h.peek_eq]

theorem Takes.atEnd_eq {s t : Cursor} {x : Token} {ts : List Token} (h : s.Takes (x :: ts) t) :
    s.atEnd = false := by
  simp [atEnd, h.ahead]

theorem Takes.check_eq {s t : Cursor} {x : Token} {ts : List Token} (h : s.Takes (x :: ts) t)
    (k : TokenKind) : s.check k = (x.kind == k) := by
  simp [check, h.ahead]

theorem Takes.atWord_eq {s t : Cursor} {x : Token} {ts : List Token} (h : s.Takes (x :: ts) t)
    (word : String) : s.atWord word = x.isWord word := by
  rw [atWord, h.peek_eq]

theorem Takes.peekNth_one {s t : Cursor} {x : Token} (h : s.Takes [x] t) : s.peekNth 1 = t.peek := by
  rw [peekNth, peek, h.ahead, h.eof]
  cases t.ahead <;> rfl

theorem exists_takes_of_atEnd {s : Cursor} (h : s.atEnd = false) :
    ∃ x, s.peek = x ∧ s.Takes [x] s.advance := by
  cases hs : s.ahead with
  | nil => simp [atEnd, hs] at h
  | cons x rest => exact ⟨x, by simp [peek, hs], takes_advance hs⟩

theorem check_iff {s : Cursor} {k : TokenKind} :
    s.check k = true ↔ ∃ x, s.Takes [x] s.advance ∧ x.kind = k := by
  constructor
  · intro h
    obtain ⟨x, -, hx⟩ := exists_takes_of_atEnd (atEnd_eq_false_of_check h)
    rw [hx.check_eq] at h
    exact ⟨x, hx, eq_of_beq h⟩
  · rintro ⟨x, hx, rfl⟩
    rw [hx.check_eq]
    exact beq_self_eq_true _

/-- Where the end of the text is marked as such, any other kind at the cursor is a token's. -/
theorem exists_takes_of_kind {s : Cursor} (he : s.eof.kind = .eof) (h : s.kind ≠ .eof) :
    ∃ x, s.peek = x ∧ s.Takes [x] s.advance := by
  apply exists_takes_of_atEnd
  cases hs : s.ahead with
  | nil => exact absurd (by simp [kind, peek, hs, he]) h
  | cons x rest => simp [atEnd, hs]

theorem kind_of_atWord {s : Cursor} {word : String} (h : s.atWord word = true) :
    s.kind = .identifier := Token.isWord_kind h

theorem exists_takes_of_atWord {s : Cursor} {word : String} (he : s.eof.kind = .eof)
    (h : s.atWord word = true) : ∃ x, s.Takes [x] s.advance ∧ x.isWord word = true := by
  obtain ⟨x, hpeek, hx⟩ := exists_takes_of_kind he (by rw [kind_of_atWord h]; decide)
  exact ⟨x, hx, by rw [← hpeek]; exact h⟩

/-- The cursor at the start of a list of tokens whose last one, and no other, is of kind `eof`. -/
theorem ofTokens_concat {tokens : List Token} {eof : Token} (hts : ∀ t ∈ tokens, t.kind ≠ .eof)
    (he : eof.kind = .eof) : ofTokens (tokens ++ [eof]) = ⟨[], tokens, eof⟩ := by
  have hahead : (tokens ++ [eof]).takeWhile (·.kind != .eof) = tokens := by
    rw [List.takeWhile_append_of_pos (by simpa using hts)]
    simp [he]
  have heof : (tokens ++ [eof]).find? (·.kind == .eof) = some eof := by
    rw [List.find?_append, List.find?_eq_none.2 (by simpa using hts)]
    simp [he]
  rw [ofTokens, hahead, heof]
  rfl

/-! ## Skipping -/

/-- What is skipped up to a place: tokens that do not stop the skipping, up to one that does. -/
theorem takes_skipUntil (stop : Token → Bool) (s : Cursor) :
    ∃ ts, s.Takes ts (s.skipUntil fun t => stop t.peek) ∧ (∀ x ∈ ts, stop x = false) ∧
      ((s.skipUntil fun t => stop t.peek).atEnd = true ∨
        stop (s.skipUntil fun t => stop t.peek).peek = true) := by
  fun_induction skipUntil (fun t => stop t.peek) s with
  | case1 s h => exact ⟨[], .refl s, by simp, by simpa using h⟩
  | case2 s h ih =>
    obtain ⟨ts, hts, hall, hstop⟩ := ih
    simp only [Bool.or_eq_true, not_or, Bool.not_eq_true] at h
    obtain ⟨x, hx, hxt⟩ := exists_takes_of_atEnd h.1
    refine ⟨x :: ts, takes_cons.2 ⟨_, hxt, hts⟩, ?_, hstop⟩
    rintro y (_ | ⟨_, hy⟩)
    · exact hx ▸ h.2
    · exact hall y hy

/-- What is skipped between statements are separators. -/
theorem takes_skipSeparators (s : Cursor) :
    ∃ g, s.Takes g s.skipSeparators ∧ ∀ x ∈ g, x.kind.isSeparator = true := by
  obtain ⟨g, hg, hsep, -⟩ := s.takes_skipUntil (!·.kind.isSeparator)
  exact ⟨g, hg, fun x hx => by simpa using hsep x hx⟩

theorem skipUntil_of_stop {stop : Cursor → Bool} {s : Cursor} (h : s.atEnd = true ∨ stop s = true) :
    s.skipUntil stop = s := by
  rw [skipUntil]
  rcases h with h | h <;> simp [h]

theorem skipUntil_of_takes {stop : Cursor → Bool} {s t : Cursor} {x : Token} (hx : s.Takes [x] t)
    (h : stop s = false) : s.skipUntil stop = t.skipUntil stop := by
  rw [skipUntil, hx.atEnd_eq, h, hx.advance_eq]
  simp

/-- Skipping passes over tokens that do not stop it and stops at the first that does. -/
theorem Takes.skipUntil_eq {stop : Token → Bool} {s t : Cursor} {ts : List Token}
    (h : s.Takes ts t) (hts : ∀ x ∈ ts, stop x = false)
    (ht : t.atEnd = true ∨ stop t.peek = true) : s.skipUntil (fun t => stop t.peek) = t := by
  induction ts generalizing s with
  | nil =>
      rw [takes_nil] at h
      subst h
      exact skipUntil_of_stop ht
  | cons x ts ih =>
      obtain ⟨u, hx, hu⟩ := takes_cons.1 h
      have hstop : stop s.peek = false := by
        rw [h.peek_eq]
        exact hts x (by simp)
      rw [skipUntil_of_takes hx hstop]
      exact ih hu fun y hy => hts y (by simp [hy])

/-- Separators are skipped up to the end or to a token that is none. -/
theorem Takes.skipSeparators_eq {s t : Cursor} {g : List Token} (h : s.Takes g t)
    (hg : ∀ x ∈ g, x.kind.isSeparator = true)
    (ht : t.atEnd = true ∨ t.peek.kind.isSeparator = false) : s.skipSeparators = t := by
  refine @Takes.skipUntil_eq (!·.kind.isSeparator) s t g h ?_ (ht.imp_right ?_)
  · intro x hx
    rw [hg x hx, Bool.not_true]
  · intro hk
    rw [hk, Bool.not_false]

end Cursor

/-! ## Clean readings of rules -/

namespace Rule

/-- Started at `s`, the rule yields `a` without recording an error, and stops at `t`. -/
def Clean {α : Type} (p : Rule α) (s : Cursor) (a : α) (t : Cursor) : Prop := p.run s = ⟨a, [], t⟩

theorem clean_pure {α : Type} {a b : α} {s t : Cursor} :
    (pure a : Rule α).Clean s b t ↔ b = a ∧ t = s := by
  simp [Clean, eq_comm]

theorem clean_bind {α β : Type} {p : Rule α} {f : α → Rule β} {s u : Cursor} {b : β} :
    (p >>= f).Clean s b u ↔ ∃ a t, p.Clean s a t ∧ (f a).Clean t b u := by
  unfold Clean
  rw [run_bind]
  constructor
  · intro h
    simp only [Reading.mk.injEq, List.append_eq_nil_iff] at h
    obtain ⟨hv, ⟨hp, hf⟩, hr⟩ := h
    refine ⟨_, _, by rw [← hp], ?_⟩
    rw [← hv, ← hf, ← hr]
  · rintro ⟨a, t, hp, hf⟩
    rw [hp]
    simp [hf]

theorem clean_map {α β : Type} {p : Rule α} {f : α → β} {s t : Cursor} {b : β} :
    (f <$> p).Clean s b t ↔ ∃ a, p.Clean s a t ∧ b = f a := by
  rw [← bind_pure_comp, clean_bind]
  simp only [clean_pure]
  constructor
  · rintro ⟨a, u, hp, rfl, rfl⟩
    exact ⟨a, hp, rfl⟩
  · rintro ⟨a, hp, rfl⟩
    exact ⟨a, t, hp, rfl, rfl⟩

theorem clean_ask {α : Type} {question : Cursor → α} {s t : Cursor} {a : α} :
    (ask question).Clean s a t ↔ a = question s ∧ t = s := by
  simp [Clean, eq_comm]

theorem clean_peek {s t : Cursor} {x : Token} : peek.Clean s x t ↔ x = s.peek ∧ t = s := clean_ask

theorem clean_upToHere {start : Token} {s t : Cursor} {r : Range} :
    (upToHere start).Clean s r t ↔ r = start.range.cover s.previousRange ∧ t = s := clean_ask

theorem clean_advance_iff {s t : Cursor} {x : Token} :
    advance.Clean s x t ↔ x = s.advance.previous ∧ t = s.advance := by
  simp [Clean, eq_comm]

theorem clean_advance {s u t : Cursor} {x y : Token} (hx : s.Takes [x] u) :
    advance.Clean s y t ↔ y = x ∧ t = u := by
  rw [clean_advance_iff, hx.advance_eq, hx.previous_eq]

theorem clean_skipLine {s t : Cursor} {u : Unit} :
    skipLine.Clean s u t ↔ t = s.skipLine := by
  simp [Clean, eq_comm]

/-- A complaint is never clean. -/
theorem not_clean_complain {c : Complaint} {s t : Cursor} {u : Unit} :
    ¬ (complain c).Clean s u t := by
  simp [Clean]

/-- An expected token is there. -/
theorem clean_expect {k : TokenKind} {c : Complaint} {s t : Cursor} {o : Option Token} :
    (expect k c).Clean s o t ↔ ∃ x, s.Takes [x] t ∧ x.kind = k ∧ o = some x := by
  unfold Clean
  rw [run_expect]
  split
  · next h =>
    obtain ⟨y, hy, rfl⟩ := Cursor.check_iff.1 h
    rw [hy.previous_eq, Reading.mk.injEq]
    constructor
    · rintro ⟨rfl, -, rfl⟩
      exact ⟨y, hy, rfl, rfl⟩
    · rintro ⟨x, hx, -, rfl⟩
      refine ⟨?_, rfl, hx.advance_eq⟩
      rw [← hy.peek_eq, hx.peek_eq]
  · next h =>
    constructor
    · intro hr
      simp at hr
    · rintro ⟨x, hx, rfl, -⟩
      rw [hx.check_eq] at h
      simp at h

/-- A token of one of the kinds is consumed, or there is none at the cursor. -/
theorem clean_accept {ks : List TokenKind} {s t : Cursor} {b : Bool} :
    (accept ks).Clean s b t ↔
      (b = true ∧ ∃ x, s.Takes [x] t ∧ x.kind ∈ ks) ∨ (b = false ∧ t = s ∧ ks.any s.check = false) := by
  unfold Clean
  rw [run_accept]
  split
  · next h =>
    obtain ⟨k, hk, hc⟩ := List.any_eq_true.1 h
    obtain ⟨y, hy, rfl⟩ := Cursor.check_iff.1 hc
    rw [Reading.mk.injEq]
    constructor
    · rintro ⟨rfl, -, rfl⟩
      exact .inl ⟨rfl, y, hy, hk⟩
    · rintro (⟨rfl, x, hx, -⟩ | ⟨-, -, h'⟩)
      · exact ⟨rfl, rfl, hx.advance_eq⟩
      · rw [h] at h'
        cases h'
  · next h =>
    rw [Reading.mk.injEq]
    constructor
    · rintro ⟨rfl, -, rfl⟩
      exact .inr ⟨rfl, rfl, by simpa using h⟩
    · rintro (⟨-, x, hx, hk⟩ | ⟨rfl, rfl, -⟩)
      · refine absurd (List.any_eq_true.2 ⟨x.kind, hk, ?_⟩) h
        rw [hx.check_eq]
        exact beq_self_eq_true _
      · exact ⟨rfl, rfl, rfl⟩

/-- A clean list is one clean item, or one with a comma and a clean list behind it. -/
theorem clean_commaList {α : Type} {more : α → Bool} {p : Rule α} {s u : Cursor} {as : List α} :
    (commaList more p).Clean s as u ↔
      ∃ a t, p.Clean s a t ∧
        ((as = [a] ∧ u = t ∧ (more a && t.check (.symbol .comma)) = false) ∨
          (more a = true ∧ ∃ comma v as', t.Takes [comma] v ∧ comma.kind = .symbol .comma ∧
            (commaList more p).Clean v as' u ∧ as = a :: as')) := by
  unfold Clean
  rw [run_commaList]
  simp only
  split
  · next h =>
    simp only [Bool.and_eq_true] at h
    obtain ⟨y, hy, hk⟩ := Cursor.check_iff.1 h.2
    rw [Reading.mk.injEq, List.append_eq_nil_iff]
    constructor
    · rintro ⟨rfl, ⟨hp, hl⟩, rfl⟩
      refine ⟨_, _, by rw [← hp], .inr ⟨h.1, y, _, _, hy, hk, ?_, rfl⟩⟩
      rw [← hl]
    · rintro ⟨a, t, hp, ⟨-, -, hn⟩ | ⟨-, comma, v, as', hv, -, hl, rfl⟩⟩
      · rw [hp] at h
        simp [h] at hn
      · rw [hp] at hy ⊢
        rw [hv.advance_eq, hl]
        exact ⟨rfl, ⟨rfl, rfl⟩, rfl⟩
  · next h =>
    rw [Reading.mk.injEq]
    constructor
    · rintro ⟨rfl, hp, rfl⟩
      exact ⟨_, _, by rw [← hp], .inl ⟨rfl, rfl, by simpa using h⟩⟩
    · rintro ⟨a, t, hp, ⟨rfl, rfl, -⟩ | ⟨hm, comma, v, as', hv, hk, -, -⟩⟩
      · rw [hp]
        exact ⟨rfl, rfl, rfl⟩
      · rw [hp] at h
        refine absurd ?_ h
        rw [hm, hv.check_eq, hk]
        decide

end Rule

/-! ## Clean readings of rules that can fail -/

namespace Attempt

/-- Started at `s`, the rule succeeds with `a` without recording an error, and stops at `t`. -/
def Clean {α : Type} (p : Attempt α) (s : Cursor) (a : α) (t : Cursor) : Prop :=
  Rule.Clean p.run s (.ok a) t

theorem clean_pure {α : Type} {a b : α} {s t : Cursor} :
    Clean (pure a : Attempt α) s b t ↔ b = a ∧ t = s := by
  simp [Clean, Rule.clean_pure]

theorem clean_bind {α β : Type} {p : Attempt α} {f : α → Attempt β} {s u : Cursor} {b : β} :
    Clean (p >>= f) s b u ↔ ∃ a t, Clean p s a t ∧ Clean (f a) t b u := by
  unfold Clean
  rw [ExceptT.run_bind, Rule.clean_bind]
  constructor
  · rintro ⟨r, t, hp, hf⟩
    cases r with
    | ok a => exact ⟨a, t, hp, hf⟩
    | error e => simp [Rule.clean_pure] at hf
  · rintro ⟨a, t, hp, hf⟩
    exact ⟨.ok a, t, hp, hf⟩

/-- A rule that cannot fail, where one that can is asked for. -/
theorem clean_lift {α : Type} {p : Rule α} {s t : Cursor} {a : α} :
    Clean (liftM p : Attempt α) s a t ↔ p.Clean s a t := by
  unfold Clean
  show Rule.Clean (Except.ok <$> p) s (.ok a) t ↔ _
  rw [Rule.clean_map]
  simp

/-- A look at the next token before the rest. -/
theorem clean_peek_bind {α : Type} {f : Token → Attempt α} {s t : Cursor} {a : α} :
    Clean ((liftM Rule.peek : Attempt Token) >>= f) s a t ↔ Clean (f s.peek) s a t := by
  rw [clean_bind]
  simp only [clean_lift, Rule.clean_peek]
  constructor
  · rintro ⟨_, _, ⟨rfl, rfl⟩, h⟩
    exact h
  · intro h
    exact ⟨_, _, ⟨rfl, rfl⟩, h⟩

theorem not_clean_fail {α : Type} {c : Complaint} {s t : Cursor} {a : α} :
    ¬ Clean (fail c : Attempt α) s a t := by
  simp [Clean, Rule.Clean]

theorem not_clean_tooDeep {α : Type} {s t : Cursor} {a : α} :
    ¬ Clean (tooDeep : Attempt α) s a t := by
  simp [Clean, Rule.Clean]

theorem clean_recovering {α : Type} {p : Attempt α} {s t : Cursor} {o : Option α} :
    (recovering p).Clean s o t ↔ ∃ a, o = some a ∧ Clean p s a t := by
  unfold Clean Rule.Clean
  rw [run_recovering]
  split
  · next a ha =>
    rw [Reading.mk.injEq]
    constructor
    · rintro ⟨rfl, hr, rfl⟩
      exact ⟨a, rfl, by rw [← ha, ← hr]⟩
    · rintro ⟨b, rfl, hb⟩
      rw [hb] at ha ⊢
      simp only [Except.ok.injEq] at ha
      subst ha
      exact ⟨rfl, rfl, rfl⟩
  · next e he =>
    constructor
    · intro h
      simp at h
    · rintro ⟨b, -, hb⟩
      rw [hb] at he
      cases he

/-- Clean rounds are none at all, or a clean success and clean rounds behind it. -/
theorem clean_rounds {α : Type} {stop : Cursor → Bool} {p : Attempt α}
    (hp : (recovering p).Advances) {s u : Cursor} {as : List α} :
    (Rule.rounds stop (recovering p)).Clean s as u ↔
      ((s.skipSeparators.atEnd || stop s.skipSeparators) = true ∧ as = [] ∧ u = s.skipSeparators) ∨
        ((s.skipSeparators.atEnd || stop s.skipSeparators) = false ∧ ∃ a t as',
          Clean p s.skipSeparators a t ∧ (Rule.rounds stop (recovering p)).Clean t as' u ∧
            as = a :: as') := by
  unfold Rule.Clean
  rw [Rule.run_rounds_of_advances hp]
  split
  · next h =>
    rw [Reading.mk.injEq]
    constructor
    · rintro ⟨rfl, -, rfl⟩
      exact .inl ⟨h, rfl, rfl⟩
    · rintro (⟨-, rfl, rfl⟩ | ⟨hn, -⟩)
      · exact ⟨rfl, rfl, rfl⟩
      · rw [h] at hn
        cases hn
  · next h =>
    simp only [Reading.mk.injEq, List.append_eq_nil_iff]
    constructor
    · rintro ⟨rfl, ⟨hr, hl⟩, rfl⟩
      have hround : (recovering p).Clean s.skipSeparators ((recovering p).run s.skipSeparators).value
          ((recovering p).run s.skipSeparators).rest := by
        unfold Rule.Clean
        rw [← hr]
      obtain ⟨a, ha, hc⟩ := clean_recovering.1 hround
      refine .inr ⟨Bool.eq_false_iff.2 h, a, _, _, hc, by rw [← hl], ?_⟩
      rw [ha]
      rfl
    · rintro (⟨hy, -⟩ | ⟨-, a, t, as', hc, hl, rfl⟩)
      · exact absurd hy h
      · rw [show (recovering p).run s.skipSeparators = ⟨some a, [], t⟩ from
          clean_recovering.2 ⟨a, rfl, hc⟩]
        simp only
        rw [hl]
        exact ⟨rfl, ⟨trivial, rfl⟩, rfl⟩

private theorem clean_commaList_iff_results {α : Type} {p : Attempt α} {s u : Cursor} {as : List α} :
    Clean (commaList p) s as u ↔
      ∃ rs, (Rule.commaList Except.isOk p.run).Clean s rs u ∧ rs.mapM id = .ok as := by
  unfold Clean commaList
  rw [ExceptT.run_mk, Rule.clean_bind]
  simp only [Rule.clean_pure]
  constructor
  · rintro ⟨rs, t, hrs, has, rfl⟩
    exact ⟨rs, hrs, has.symm⟩
  · rintro ⟨rs, hrs, has⟩
    exact ⟨rs, u, hrs, has.symm, rfl⟩

/-- A clean list is one clean item, or one with a comma and a clean list behind it. -/
theorem clean_commaList {α : Type} {p : Attempt α} {s u : Cursor} {as : List α} :
    Clean (commaList p) s as u ↔
      ∃ a t, Clean p s a t ∧
        ((as = [a] ∧ u = t ∧ t.check (.symbol .comma) = false) ∨
          ∃ comma v as', t.Takes [comma] v ∧ comma.kind = .symbol .comma ∧
            Clean (commaList p) v as' u ∧ as = a :: as') := by
  rw [clean_commaList_iff_results]
  constructor
  · rintro ⟨rs, hrs, has⟩
    obtain ⟨r, t, hr, h⟩ := Rule.clean_commaList.1 hrs
    cases r with
    | error e =>
      -- a failure ends the list, which then has no value
      obtain ⟨rfl, -, -⟩ | ⟨hm, -⟩ := h
      · cases has
      · cases hm
    | ok a =>
      refine ⟨a, t, hr, ?_⟩
      obtain ⟨rfl, rfl, hc⟩ | ⟨-, comma, v, rs', hv, hk, hl, rfl⟩ := h
      · exact .inl ⟨by cases has; rfl, rfl, hc⟩
      · cases hm : rs'.mapM id with
        | error e =>
          simp only [List.mapM_cons, hm] at has
          cases has
        | ok as' =>
          simp only [List.mapM_cons, hm] at has
          cases has
          exact .inr ⟨comma, v, as', hv, hk, clean_commaList_iff_results.2 ⟨rs', hl, hm⟩, rfl⟩
  · rintro ⟨a, t, ha, ⟨rfl, rfl, hc⟩ | ⟨comma, v, as', hv, hk, hl, rfl⟩⟩
    · exact ⟨[.ok a], Rule.clean_commaList.2 ⟨_, _, ha, .inl ⟨rfl, rfl, by simp [hc]⟩⟩, rfl⟩
    · obtain ⟨rs', hrs', has'⟩ := clean_commaList_iff_results.1 hl
      refine ⟨.ok a :: rs', Rule.clean_commaList.2
        ⟨_, _, ha, .inr ⟨rfl, comma, v, rs', hv, hk, hrs', rfl⟩⟩, ?_⟩
      simp only [List.mapM_cons, has']
      rfl

end Attempt

end FourthGen
