import FourthGen.Proofs.Parser.CleanRules
import FourthGen.Proofs.Parser.Grammar
import FourthGen.Proofs.Token.Lexer

set_option autoImplicit false

/-! # An error-free parse follows the grammar

What the rules read cleanly, the grammar derives from exactly the tokens between the two cursors, as
the tree that was read. The proofs go along the rules: a rule called with `room` levels left finds a
derivation that takes no more. For chains of operators the invariant of the loop is that what stands
left of the cursor may be the left operand of whatever operator stands at it. -/

namespace FourthGen

open Grammar

/-- What the rule reads cleanly, `G` derives within `room` levels, as the `view` of its value. -/
def Rule.Sound {α β : Type} (p : Rule α) (view : α → β) (G : Nat → List Token → β → Prop)
    (room : Nat) : Prop :=
  ∀ ⦃s t : Cursor⦄ ⦃a : α⦄, s.eof.kind = .eof → p.Clean s a t →
    ∃ n ts, n ≤ room ∧ s.Takes ts t ∧ G n ts (view a)

/-- What the rule reads cleanly, `G` derives within `room` levels, as the `view` of its value. -/
def Attempt.Sound {α β : Type} (p : Attempt α) (view : α → β) (G : Nat → List Token → β → Prop)
    (room : Nat) : Prop :=
  ∀ ⦃s t : Cursor⦄ ⦃a : α⦄, s.eof.kind = .eof → p.Clean s a t →
    ∃ n ts, n ≤ room ∧ s.Takes ts t ∧ G n ts (view a)

/-! ## Lists -/

theorem Rule.commaList_sound {α β : Type} {more : Option α → Bool} {p : Rule (Option α)}
    {view : α → β} {G : Nat → List Token → β → Prop}
    (hp : ∀ ⦃s t : Cursor⦄ ⦃o : Option α⦄, s.eof.kind = .eof → p.Clean s o t →
      ∃ a n ts, o = some a ∧ s.Takes ts t ∧ G n ts (view a))
    {os : List (Option α)} {s t : Cursor} (he : s.eof.kind = .eof)
    (h : (commaList more p).Clean s os t) :
    ∃ n ts, s.Takes ts t ∧ CommaList G n ts ((os.filterMap id).map view) := by
  induction os generalizing s with
  | nil =>
      obtain ⟨a, u, -, ⟨has, -⟩ | ⟨-, _, _, _, -, -, -, has⟩⟩ := clean_commaList.1 h
      · cases has
      · cases has
  | cons o os ih =>
      obtain ⟨o', u, ho, h⟩ := clean_commaList.1 h
      obtain ⟨a, n, ts, rfl, hts, hG⟩ := hp he ho
      obtain ⟨has, rfl, -⟩ | ⟨-, comma, v, os', hv, hk, hl, has⟩ := h
      · cases has
        exact ⟨n, ts, hts, .one hG⟩
      · cases has
        obtain ⟨m, us, hus, hGs⟩ := ih (by rw [hv.eof, hts.eof, he]) hl
        refine ⟨max n m, ts ++ comma :: us, hts.trans (Cursor.takes_cons.2 ⟨v, hv, hus⟩), ?_⟩
        exact .more hG hk hGs

theorem Attempt.commaList_sound {α β : Type} {p : Attempt α} {view : α → β}
    {G : Nat → List Token → β → Prop} {room : Nat} (hp : p.Sound view G room) :
    (commaList p).Sound (List.map view) (CommaList G) room := by
  intro s t as he h
  induction as generalizing s with
  | nil =>
      obtain ⟨a, u, -, ⟨has, -⟩ | ⟨_, _, _, -, -, -, has⟩⟩ := clean_commaList.1 h
      · cases has
      · cases has
  | cons a as ih =>
      obtain ⟨a', u, ha, h⟩ := clean_commaList.1 h
      obtain ⟨n, ts, hn, hts, hG⟩ := hp he ha
      obtain ⟨has, rfl, -⟩ | ⟨comma, v, as', hv, hk, hl, has⟩ := h
      · cases has
        exact ⟨n, ts, hn, hts, .one hG⟩
      · cases has
        obtain ⟨m, us, hm, hus, hGs⟩ := ih (by rw [hv.eof, hts.eof, he]) hl
        refine ⟨max n m, ts ++ comma :: us, by omega,
          hts.trans (Cursor.takes_cons.2 ⟨v, hv, hus⟩), ?_⟩
        exact .more hG hk hGs

/-! ## Expressions -/

namespace Expr

theorem argumentsBy_sound {inner : Attempt (Expr Range)} {room : Nat}
    (hinner : inner.Sound shape Expression room) {s u t : Cursor} {opening : Token}
    {args : List (Expr Range)} (he : s.eof.kind = .eof) (ho : s.Takes [opening] u)
    (hok : opening.kind = .symbol .leftParen) (h : Attempt.Clean (argumentsBy inner) u args t) :
    ∃ n ts, n ≤ room ∧ s.Takes ts t ∧ ParenList Expression n ts (args.map shape) := by
  obtain ⟨v, closing, hc, hck, ⟨-, rfl, rfl⟩ | ⟨-, hl⟩⟩ := clean_argumentsBy.1 h
  · exact ⟨0, [opening, closing], by omega, Cursor.takes_cons.2 ⟨_, ho, hc⟩, .none hok hck⟩
  · obtain ⟨n, ts, hn, hts, hG⟩ := Attempt.commaList_sound hinner (by rw [ho.eof, he]) hl
    exact ⟨n, opening :: (ts ++ [closing]), hn, Cursor.takes_cons.2 ⟨u, ho, hts.trans hc⟩,
      .some hok hG hck⟩

theorem primaryBy_sound {inner : Attempt (Expr Range)} {room : Nat}
    (hinner : inner.Sound shape Expression room) :
    (primaryBy inner).Sound shape Operand (room + 1) := by
  intro s t e he h
  have hkind : s.kind ≠ .eof := by
    intro hk
    rw [Cursor.kind] at hk
    unfold primaryBy at h
    rw [Attempt.clean_peek_bind, hk] at h
    exact Attempt.not_clean_fail h
  obtain ⟨x, -, hx⟩ := Cursor.exists_takes_of_kind he hkind
  obtain ⟨hk, rfl, rfl⟩ | ⟨hk, rfl, rfl⟩ | ⟨hk, -, rfl, rfl⟩ |
    ⟨hk, opening, v, args, ho, hok, ha, rfl⟩ | ⟨hk, content, v, closing, hi, hc, hck, rfl⟩ :=
    (clean_primaryBy hx).1 h
  · exact ⟨1, [x], by omega, hx, .string hk⟩
  · exact ⟨1, [x], by omega, hx, .number hk⟩
  · exact ⟨1, [x], by omega, hx, .name hk⟩
  · obtain ⟨n, ts, hn, hts, hG⟩ := argumentsBy_sound hinner (by rw [hx.eof, he]) ho hok ha
    refine ⟨n + 1, x :: ts, by omega, Cursor.takes_cons.2 ⟨_, hx, hts⟩, ?_⟩
    rw [shape_call]
    exact .call hk hG
  · obtain ⟨n, ts, hn, hts, hG⟩ := hinner (by rw [hx.eof, he]) hi
    refine ⟨n + 1, x :: (ts ++ [closing]), by omega, Cursor.takes_cons.2 ⟨_, hx, hts.trans hc⟩, ?_⟩
    rw [shape_withRange]
    exact .parens hk hG hck

end Expr

/-- A chain whose operators bind tightly is one whose operators may bind less tightly. -/
theorem Grammar.Chain.mono {G : Nat → List Token → Expr Unit → Prop} {least least' k n : Nat}
    {ts : List Token} {e : Expr Unit} (h : Chain G least k n ts e) (hle : least' ≤ least) :
    Chain G least' k n ts e := by
  cases h with
  | operand h => exact .operand h
  | link hl ht hp hr => exact .link hl ht (Nat.le_trans hle hp) hr

theorem Grammar.Operand.ne_nil {n : Nat} {ts : List Token} {e : Expr Unit} (h : Operand n ts e) :
    ts ≠ [] := by
  cases h <;> simp

theorem Grammar.Phrase.ne_nil {n : Nat} {ts : List Token} {e : Expr Unit} (h : Expression n ts e) :
    ts ≠ [] := by
  obtain ⟨h⟩ := h
  cases h with
  | operand h => exact h.ne_nil
  | link _ _ _ _ => simp

namespace Expr

/-- Where an operator stands, a token stands. -/
theorem exists_takes_of_operator {s : Cursor} {least : Nat} {op : BinaryOp} (he : s.eof.kind = .eof)
    (h : s.operator? least = some op) :
    ∃ x, s.Takes [x] s.advance ∧ x.kind.binaryOp? = some op ∧ least ≤ op.power := by
  rw [Cursor.operator?, Option.filter_eq_some_iff, decide_eq_true_eq] at h
  obtain ⟨hop, hle⟩ := h
  have hkind : s.kind ≠ .eof := by
    intro hk
    rw [hk] at hop
    cases hop
  obtain ⟨x, hpeek, hx⟩ := Cursor.exists_takes_of_kind he hkind
  refine ⟨x, hx, ?_, hle⟩
  rw [← hpeek]
  exact hop

/-- What is shown of `readBinding`: it reads a chain of operators that bind tightly enough, up to
    where none follows. -/
def BindingSound (room : Nat) : Prop :=
  ∀ ⦃least : Nat⦄ ⦃s t : Cursor⦄ ⦃e : Expr Range⦄, s.eof.kind = .eof →
    Attempt.Clean (readBinding room least) s e t →
    ∃ k n ts, n ≤ room ∧ s.Takes ts t ∧ Chain Operand least k n ts e.shape ∧ t.operator? least = none

/-- What is shown of `chain`, the loop over operators. The tokens `ts` that were read before it spell
    `left` with `k` operators, and may stand left of the operator at the cursor, if there is one. -/
def ChainSound (room : Nat) : Prop :=
  ∀ ⦃least k n : Nat⦄ ⦃left e : Expr Range⦄ ⦃ts : List Token⦄ ⦃s t u : Cursor⦄,
    s.eof.kind = .eof → s.Takes ts t → n ≤ k + room + 1 → Chain Operand least k n ts left.shape →
    (∀ op, t.operator? least = some op → Chain Operand op.power k n ts left.shape) →
    Attempt.Clean (chain room least left) t e u →
    ∃ k' n' us, n' ≤ k + room + 1 ∧ s.Takes us u ∧ Chain Operand least k' n' us e.shape ∧
      u.operator? least = none

theorem chainSound_zero : ChainSound 0 := by
  intro least k n left e ts s t u he hts hn hleft hop h
  obtain ⟨hnone, rfl, rfl⟩ | ⟨next, _, _, _, _, _, hnext, -⟩ := clean_chain.1 h
  · exact ⟨k, n, ts, hn, hts, hleft, hnone⟩
  · cases hnext

theorem chainSound_succ {room : Nat} (hright : BindingSound (room + 1)) (hnext : ChainSound room) :
    ChainSound (room + 1) := by
  intro least k n left e ts s t u he hts hn hleft hop h
  obtain ⟨hnone, rfl, rfl⟩ | ⟨next, op, x, v, right, w, hr, hsome, hx, hb, hc⟩ := clean_chain.1 h
  · exact ⟨k, n, ts, hn, hts, hleft, hnone⟩
  · cases hr
    have het : t.eof.kind = .eof := by rw [hts.eof, he]
    obtain ⟨y, hy, hyop, hle⟩ := exists_takes_of_operator het hsome
    obtain ⟨rfl, rfl⟩ := (Rule.clean_advance hy).1 hx
    obtain ⟨j, m, us, hm, hus, hG, hstop⟩ := hright (by rw [hy.eof, het]) hb
    have hlink : Chain Operand op.power (k + 1) (max n (k + 1 + m)) (ts ++ x :: us)
        (.binary () op left.shape right.shape) := .link (hop op hsome) hyop (Nat.le_refl _) hG
    have htaken : s.Takes (ts ++ x :: us) w := hts.trans (Cursor.takes_cons.2 ⟨_, hy, hus⟩)
    -- an operator that follows binds no tighter than `op`, which stopped the right operand
    have hfollow : ∀ op', w.operator? least = some op' → op'.power ≤ op.power := by
      intro op' h'
      rw [Cursor.operator?, Option.filter_eq_some_iff] at h'
      rw [Cursor.operator?, h'.1] at hstop
      simpa [Option.filter, Nat.lt_succ_iff] using hstop
    have hbound : max n (k + 1 + m) ≤ k + 1 + room + 1 := by omega
    obtain ⟨k', n', vs, hn', hvs, hG', hstop'⟩ :=
      hnext he htaken hbound (by rw [shape_binary]; exact hlink.mono hle)
        (fun op' h' => by rw [shape_binary]; exact hlink.mono (hfollow op' h')) hc
    exact ⟨k', n', vs, by omega, hvs, hG', hstop'⟩

theorem primary_sound {room : Nat} (h : BindingSound room) :
    (primary room).Sound shape Operand (room + 1) := by
  rw [primary_eq]
  apply primaryBy_sound
  intro s t e he hc
  obtain ⟨k, n, ts, hn, hts, hG, -⟩ := h he hc
  exact ⟨n, ts, hn, hts, .mk hG⟩

theorem bindingSound_succ {room : Nat} (hb : BindingSound room) (hc : ChainSound room) :
    BindingSound (room + 1) := by
  intro least s t e he h
  obtain ⟨operand, u, ho, h⟩ := clean_readBinding.1 h
  obtain ⟨n, ts, hn, hts, hG⟩ := primary_sound hb he ho
  obtain ⟨k', n', us, hn', hus, hG', hstop⟩ :=
    hc he hts (Nat.le_trans hn (by omega)) (.operand hG) (fun _ _ => .operand hG) h
  exact ⟨k', n', us, by omega, hus, hG', hstop⟩

theorem bindingSound_and_chainSound (room : Nat) : BindingSound room ∧ ChainSound room := by
  induction room with
  | zero => exact ⟨fun _ _ _ _ _ h => absurd h Attempt.not_clean_tooDeep, chainSound_zero⟩
  | succ room ih =>
      have hb := bindingSound_succ ih.1 ih.2
      exact ⟨hb, chainSound_succ hb ih.2⟩

theorem read_sound (room : Nat) : (read room).Sound shape Expression room := by
  intro s t e he h
  obtain ⟨k, n, ts, hn, hts, hG, -⟩ := (bindingSound_and_chainSound room).1 he h
  exact ⟨n, ts, hn, hts, .mk hG⟩

end Expr

/-! ## Names and types -/

namespace Rule

theorem typeSizes_sound {s t : Cursor} {opening : Token} {u : Cursor} {sizes : List String}
    (he : s.eof.kind = .eof) (ho : s.Takes [opening] u) (h : typeSizes.Clean s sizes t) :
    ∃ n ts closing, s.Takes (opening :: (ts ++ [closing])) t ∧ closing.kind = .symbol .rightParen ∧
      CommaList Size n ts sizes := by
  obtain ⟨found, v, closing, hl, hc, hck, rfl⟩ := (clean_typeSizes ho).1 h
  have hsize : ∀ ⦃s t : Cursor⦄ ⦃o : Option Token⦄, s.eof.kind = .eof →
      (expect .numberLiteral .missingTypeSize).Clean s o t →
      ∃ a n ts, o = some a ∧ s.Takes ts t ∧ Size n ts a.text := by
    intro s t o _ h
    obtain ⟨x, hx, hk, rfl⟩ := clean_expect.1 h
    exact ⟨x, 0, [x], rfl, hx, .mk hk⟩
  obtain ⟨n, ts, hts, hG⟩ := commaList_sound hsize (by rw [ho.eof, he]) hl
  exact ⟨n, ts, closing, Cursor.takes_cons.2 ⟨u, ho, hts.trans hc⟩, hck, hG⟩

theorem dataType_sound {s t : Cursor} {type : String} (he : s.eof.kind = .eof)
    (h : dataType.Clean s type t) : ∃ ts, s.Takes ts t ∧ TypeName ts type := by
  have hkind : s.kind ≠ .eof := by
    intro hk
    unfold dataType at h
    obtain ⟨_, _, hp, h⟩ := clean_bind.1 h
    obtain ⟨rfl, rfl⟩ := clean_peek.1 hp
    rw [Cursor.kind] at hk
    rw [if_neg (by rw [hk]; decide)] at h
    obtain ⟨_, _, hcomplain, -⟩ := clean_bind.1 h
    exact not_clean_complain hcomplain
  obtain ⟨x, -, hx⟩ := Cursor.exists_takes_of_kind he hkind
  obtain ⟨hk, ⟨-, rfl, rfl⟩ | ⟨hsizes, sizes, hl, rfl⟩⟩ := (clean_dataType hx).1 h
  · exact ⟨[x], hx, .plain hk⟩
  · rw [atSizes, Bool.and_eq_true] at hsizes
    obtain ⟨opening, ho, hok⟩ := Cursor.check_iff.1 hsizes.1
    obtain ⟨n, ts, closing, hts, hck, hG⟩ := typeSizes_sound (by rw [hx.eof, he]) ho hl
    exact ⟨x :: opening :: (ts ++ [closing]), Cursor.takes_cons.2 ⟨_, hx, hts⟩,
      .sized hk hok hG hck⟩

theorem declared_sound (role : NameRole) {s t : Cursor} {o : Option (Variable Range)}
    (he : s.eof.kind = .eof) (h : (declared? role).Clean s o t) :
    ∃ v n ts, o = some v ∧ s.Takes ts t ∧ Declared n ts v.shape := by
  obtain ⟨x, u, type, hx, hk, ht, rfl⟩ := clean_declared.1 h
  obtain ⟨ts, hts, hG⟩ := dataType_sound (by rw [hx.eof, he]) ht
  exact ⟨_, 0, x :: ts, rfl, Cursor.takes_cons.2 ⟨u, hx, hts⟩, .mk hk hG⟩

theorem declaredList_sound {role : NameRole} {s t : Cursor} {vars : List (Variable Range)}
    (he : s.eof.kind = .eof) (h : (declaredList role).Clean s vars t) :
    ∃ n ts, s.Takes ts t ∧ CommaList Declared n ts (vars.map Variable.shape) := by
  obtain ⟨found, hl, rfl⟩ := clean_declaredList.1 h
  exact commaList_sound (fun _ _ _ => declared_sound role) he hl

theorem parameters_sound {r : Routine} {s t : Cursor} {params : List (Variable Range)}
    (he : s.eof.kind = .eof) (h : (parameters r).Clean s params t) :
    ∃ n ts, s.Takes ts t ∧ ParenList Declared n ts (params.map Variable.shape) := by
  obtain ⟨opening, u, v, closing, ho, hok, hc, hck, ⟨-, rfl, rfl⟩ | ⟨-, hl⟩⟩ :=
    clean_parameters.1 h
  · exact ⟨0, [opening, closing], Cursor.takes_cons.2 ⟨_, ho, hc⟩, .none hok hck⟩
  · obtain ⟨n, ts, hts, hG⟩ := declaredList_sound (by rw [ho.eof, he]) hl
    exact ⟨n, opening :: (ts ++ [closing]), Cursor.takes_cons.2 ⟨u, ho, hts.trans hc⟩,
      .some hok hG hck⟩

theorem returning_sound {s t : Cursor} {o : Option String} (he : s.eof.kind = .eof)
    (h : returning?.Clean s o t) : ∃ ts, s.Takes ts t ∧ Returning ts o := by
  obtain ⟨-, rfl, rfl⟩ | ⟨hw, type, ht, rfl⟩ := clean_returning.1 h
  · exact ⟨[], .refl _, .none⟩
  · obtain ⟨x, hx, hxw⟩ := Cursor.exists_takes_of_atWord he hw
    obtain ⟨ts, hts, hG⟩ := dataType_sound (by rw [hx.eof, he]) ht
    exact ⟨x :: ts, Cursor.takes_cons.2 ⟨_, hx, hts⟩, .some hxw hG⟩

/-! ## Closing words -/

theorem compoundEnd_sound {c : Compound} {s t : Cursor} {i : Unit} (he : s.eof.kind = .eof)
    (h : (compoundEnd c).Clean s i t) : ∃ ts, s.Takes ts t ∧ CompoundEnd c ts := by
  obtain ⟨x, hx, hk⟩ | ⟨-, hw, hk, rfl⟩ := clean_compoundEnd.1 h
  · exact ⟨[x], hx, .short hk⟩
  · obtain ⟨x, hx, hxw⟩ := Cursor.exists_takes_of_atWord he hw
    rw [hx.peekNth_one] at hk
    have hne : s.advance.kind ≠ .eof := by
      rw [Cursor.kind, hk]
      exact fun h => by cases h
    obtain ⟨y, hpeek, hy⟩ := Cursor.exists_takes_of_kind (by rw [hx.eof, he]) hne
    exact ⟨[x, y], Cursor.takes_cons.2 ⟨_, hx, hy⟩, .long hxw (hpeek ▸ hk)⟩

theorem routineEnd_sound {r : Routine} {s t : Cursor} {i : Unit} (he : s.eof.kind = .eof)
    (h : (routineEnd r).Clean s i t) : ∃ ts, s.Takes ts t ∧ RoutineEnd r ts := by
  obtain ⟨hw, rfl⟩ | ⟨-, hw, b, ha⟩ := clean_routineEnd.1 h
  · obtain ⟨x, hx, hxw⟩ := Cursor.exists_takes_of_atWord he hw
    exact ⟨[x], hx, .own hxw⟩
  · obtain ⟨x, hx, hxw⟩ := Cursor.exists_takes_of_atWord he hw
    obtain ⟨-, y, hy, hyk⟩ | ⟨-, rfl, -⟩ := clean_accept.1 ha
    · exact ⟨[x, y], Cursor.takes_cons.2 ⟨_, hx, hy⟩, .long hxw (List.mem_singleton.1 hyk)⟩
    · exact ⟨[x], hx, .short hxw⟩

end Rule

/-! ## Statements -/

/-- The rest of a line has no separators. -/
theorem Cursor.takes_skipLine (s : Cursor) : ∃ ts, s.Takes ts s.skipLine ∧ InLine ts := by
  obtain ⟨ts, hts, hall, -⟩ := s.takes_skipUntil (·.kind.isSeparator)
  exact ⟨ts, hts, hall⟩

/-- Rounds of a rule read pieces with gaps before, between and behind them. -/
theorem Attempt.rounds_sound {α β : Type} {stop : Cursor → Bool} {p : Attempt α} {view : α → β}
    {G : Nat → List Token → β → Prop} {room : Nat} (hadv : (recovering p).Advances)
    (hp : ∀ ⦃s t : Cursor⦄ ⦃a : α⦄, s.eof.kind = .eof → s.atEnd = false → stop s = false →
      Clean p s a t → ∃ n ts, n ≤ room ∧ s.Takes ts t ∧ G n ts (view a))
    {s t : Cursor} {as : List α} (he : s.eof.kind = .eof)
    (h : (Rule.rounds stop (recovering p)).Clean s as t) :
    ∃ n g ts, n ≤ room ∧ s.Takes (g ++ ts) t ∧ Gap 0 g ∧ Lines 0 G n ts (as.map view) ∧
      (t.atEnd || stop t) = true := by
  induction as generalizing s with
  | nil =>
      obtain ⟨hstop, -, rfl⟩ | ⟨-, _, _, _, -, -, has⟩ := (clean_rounds hadv).1 h
      · obtain ⟨g, hg, hsep⟩ := s.takes_skipSeparators
        exact ⟨0, g, [], Nat.zero_le _, by simpa using hg, ⟨Nat.zero_le _, hsep⟩, .nil, hstop⟩
      · cases has
  | cons a as ih =>
      obtain ⟨-, has, -⟩ | ⟨hstop, a', u, as', ha, hl, has⟩ := (clean_rounds hadv).1 h
      · cases has
      · cases has
        rw [Bool.or_eq_false_iff] at hstop
        obtain ⟨g, hg, hsep⟩ := s.takes_skipSeparators
        obtain ⟨n, ts, hn, hts, hG⟩ := hp (by rw [hg.eof, he]) hstop.1 hstop.2 ha
        obtain ⟨m, g', us, hm, hus, hgap', hGs, hend⟩ := ih (by rw [hts.eof, hg.eof, he]) hl
        exact ⟨max n m, g, ts ++ (g' ++ us), by omega, hg.trans (hts.trans hus),
          ⟨Nat.zero_le _, hsep⟩, .cons hG hgap' hGs, hend⟩

namespace Stmt

variable {room : Nat} {block : Rule (List (Stmt Range))} {s u t : Cursor} {x : Token}
  {stmt : Stmt Range}

theorem readDefine_sound (he : s.eof.kind = .eof) (hx : s.Takes [x] u)
    (hk : x.kind = .keyword .DEFINE) (h : readDefine.Clean s stmt t) :
    ∃ n ts, n ≤ room ∧ s.Takes ts t ∧ Statement 0 n ts stmt.shape := by
  obtain ⟨vars, hv, rfl⟩ := (clean_readDefine hx).1 h
  obtain ⟨n, ts, hts, hG⟩ := Rule.declaredList_sound (by rw [hx.eof, he]) hv
  exact ⟨0, x :: ts, Nat.zero_le _, Cursor.takes_cons.2 ⟨u, hx, hts⟩, .define hk hG⟩

theorem readAssign_sound (he : s.eof.kind = .eof) (hx : s.Takes [x] u)
    (hk : x.kind = .keyword .LET) (h : (readAssign room).Clean s stmt t) :
    ∃ n ts, n ≤ room ∧ s.Takes ts t ∧ Statement 0 n ts stmt.shape := by
  obtain ⟨target, v, equals, w, value, ht, htk, ha, hak, hv, rfl⟩ := (clean_readAssign hx).1 h
  obtain ⟨n, ts, hn, hts, hG⟩ := Expr.read_sound room (by rw [ha.eof, ht.eof, hx.eof, he]) hv
  have htaken : s.Takes (x :: target :: equals :: ts) t :=
    Cursor.takes_cons.2 ⟨u, hx, Cursor.takes_cons.2 ⟨v, ht, Cursor.takes_cons.2 ⟨w, ha, hts⟩⟩⟩
  exact ⟨n, _, hn, htaken, .assign hk htk hak hG⟩

theorem readConditional_sound
    (hblock : block.Sound (List.map shape) (Block 0 (Statement 0)) room)
    (he : s.eof.kind = .eof) (hx : s.Takes [x] u) (hk : x.kind = .keyword .IF)
    (h : (readConditional room block).Clean s stmt t) :
    ∃ n ts, n ≤ room ∧ s.Takes ts t ∧ Statement 0 n ts stmt.shape := by
  obtain ⟨condition, v, then_, w, thenBlock, y, elseBlock, z, i, hc, ht, htk, hb, hd, hi, rfl⟩ :=
    (clean_readConditional hx).1 h
  obtain ⟨n, ts, hn, hts, hG⟩ := Expr.read_sound room (by rw [hx.eof, he]) hc
  obtain ⟨m, us, hm, hus, hB⟩ := hblock (by rw [ht.eof, hts.eof, hx.eof, he]) hb
  have htaken : s.Takes (x :: (ts ++ then_ :: us)) y :=
    Cursor.takes_cons.2 ⟨u, hx, hts.trans (Cursor.takes_cons.2 ⟨w, ht, hus⟩)⟩
  rw [shape_conditional]
  obtain ⟨-, rfl, rfl⟩ | ⟨else_, y', hel, helk, hd⟩ := hd
  · obtain ⟨ends, hends, hE⟩ := Rule.compoundEnd_sound (by rw [htaken.eof, he]) hi
    refine ⟨max n m, x :: (ts ++ then_ :: (us ++ ends)), by omega, ?_, ?_⟩
    · simpa using htaken.trans hends
    · exact .ifThen hk hG htk hB hE
  · obtain ⟨k, vs, hk', hvs, hD⟩ := hblock (by rw [hel.eof, htaken.eof, he]) hd
    obtain ⟨ends, hends, hE⟩ :=
      Rule.compoundEnd_sound (by rw [hvs.eof, hel.eof, htaken.eof, he]) hi
    refine ⟨max n (max m k), x :: (ts ++ then_ :: (us ++ else_ :: (vs ++ ends))), by omega, ?_, ?_⟩
    · simpa using htaken.trans (Cursor.takes_cons.2 ⟨y', hel, hvs.trans hends⟩)
    · exact .ifThenElse hk hG htk hB helk hD hE

theorem readWhile_sound (hblock : block.Sound (List.map shape) (Block 0 (Statement 0)) room)
    (he : s.eof.kind = .eof) (hx : s.Takes [x] u) (hk : x.kind = .keyword .WHILE)
    (h : (readWhile room block).Clean s stmt t) :
    ∃ n ts, n ≤ room ∧ s.Takes ts t ∧ Statement 0 n ts stmt.shape := by
  obtain ⟨condition, v, body, w, i, hc, hb, hi, rfl⟩ := (clean_readWhile hx).1 h
  obtain ⟨n, ts, hn, hts, hG⟩ := Expr.read_sound room (by rw [hx.eof, he]) hc
  obtain ⟨m, us, hm, hus, hB⟩ := hblock (by rw [hts.eof, hx.eof, he]) hb
  obtain ⟨ends, hends, hE⟩ := Rule.compoundEnd_sound (by rw [hus.eof, hts.eof, hx.eof, he]) hi
  rw [shape_whileLoop]
  exact ⟨max n m, x :: (ts ++ (us ++ ends)), by omega,
    Cursor.takes_cons.2 ⟨u, hx, hts.trans (hus.trans hends)⟩, .whileLoop hk hG hB hE⟩

theorem readFor_sound (hblock : block.Sound (List.map shape) (Block 0 (Statement 0)) room)
    (he : s.eof.kind = .eof) (hx : s.Takes [x] u) (hk : x.kind = .keyword .FOR)
    (h : (readFor block).Clean s stmt t) :
    ∃ n ts, n ≤ room ∧ s.Takes ts t ∧ Statement 0 n ts stmt.shape := by
  obtain ⟨body, w, i, hb, hi, rfl⟩ := (clean_readFor hx).1 h
  obtain ⟨header, hh, hline⟩ := u.takes_skipLine
  obtain ⟨m, us, hm, hus, hB⟩ := hblock (by rw [hh.eof, hx.eof, he]) hb
  obtain ⟨ends, hends, hE⟩ := Rule.compoundEnd_sound (by rw [hus.eof, hh.eof, hx.eof, he]) hi
  rw [shape_forLoop]
  exact ⟨m, x :: (header ++ (us ++ ends)), hm,
    Cursor.takes_cons.2 ⟨u, hx, hh.trans (hus.trans hends)⟩, .forLoop hk hline hB hE⟩

theorem readCall_sound (he : s.eof.kind = .eof) (hx : s.Takes [x] u)
    (hk : x.kind = .keyword .CALL) (h : Attempt.Clean (readCall room) s stmt t) :
    ∃ n ts, n ≤ room ∧ s.Takes ts t ∧ Statement 0 n ts stmt.shape := by
  obtain ⟨name, v, args, hn, hnk, ⟨-, rfl, rfl⟩ | ⟨opening, w, ho, hok, ha⟩, rfl⟩ :=
    (clean_readCall hx).1 h
  · exact ⟨0, [x, name], Nat.zero_le _, Cursor.takes_cons.2 ⟨u, hx, hn⟩, .callName hk hnk⟩
  · obtain ⟨n, ts, hle, hts, hG⟩ :=
      Expr.argumentsBy_sound (Expr.read_sound room) (by rw [hn.eof, hx.eof, he]) ho hok ha
    exact ⟨n, x :: name :: ts, hle, Cursor.takes_cons.2 ⟨u, hx, Cursor.takes_cons.2 ⟨v, hn, hts⟩⟩,
      .call hk hnk hG⟩

theorem readReturn_sound (he : s.eof.kind = .eof) (hx : s.Takes [x] u)
    (hk : x.kind = .keyword .RETURN) (h : (readReturn room).Clean s stmt t) :
    ∃ n ts, n ≤ room ∧ s.Takes ts t ∧ Statement 0 n ts stmt.shape := by
  obtain ⟨-, rfl, rfl⟩ | ⟨hc, value, hv, rfl⟩ := (clean_readReturn hx).1 h
  · exact ⟨0, [x], Nat.zero_le _, hx, .giveBackNothing hk⟩
  · simp only [Bool.or_eq_false_iff] at hc
    obtain ⟨y, hpeek, hy⟩ := Cursor.exists_takes_of_atEnd hc.1.1
    obtain ⟨n, ts, hn, hts, hG⟩ := Expr.read_sound room (by rw [hx.eof, he]) hv
    obtain ⟨z, zs, rfl⟩ := List.exists_cons_of_ne_nil hG.ne_nil
    refine ⟨n, x :: z :: zs, hn, Cursor.takes_cons.2 ⟨u, hx, hts⟩, .giveBack hk ?_ hG⟩
    rw [Cursor.atBlockEnd_eq, hts.peek_eq] at hc
    exact hc.2

theorem readSql_sound (kind : SqlKind) (hx : s.Takes [x] u) (hk : x.kind = .keyword kind.opener)
    (h : (readSql kind).Clean s stmt t) :
    ∃ n ts, n ≤ room ∧ s.Takes ts t ∧ Statement 0 n ts stmt.shape := by
  obtain ⟨rfl, rfl⟩ := (clean_readSql hx).1 h
  obtain ⟨ts, hts, hline⟩ := u.takes_skipLine
  exact ⟨0, x :: ts, Nat.zero_le _, Cursor.takes_cons.2 ⟨u, hx, hts⟩, .sql hk hline⟩

theorem readExpression_sound (he : s.eof.kind = .eof) (hend : s.atBlockEnd = false)
    (h : Attempt.Clean (readExpression room) s stmt t) :
    ∃ n ts, n ≤ room ∧ s.Takes ts t ∧ Statement 0 n ts stmt.shape := by
  obtain ⟨e, hr, rfl⟩ := clean_readExpression.1 h
  obtain ⟨n, ts, hn, hts, hG⟩ := Expr.read_sound room he hr
  obtain ⟨z, zs, rfl⟩ := List.exists_cons_of_ne_nil hG.ne_nil
  rw [Cursor.atBlockEnd_eq, hts.peek_eq] at hend
  exact ⟨n, z :: zs, hn, hts, .expression hend hG⟩

/-- A statement is read as the grammar has it, if that holds for the blocks in it. -/
theorem read_sound (hblock : block.Sound (List.map shape) (Block 0 (Statement 0)) room)
    (he : s.eof.kind = .eof) (hs : s.atEnd = false) (hend : s.atBlockEnd = false)
    (h : Attempt.Clean (read room block) s stmt t) :
    ∃ n ts, n ≤ room ∧ s.Takes ts t ∧ Statement 0 n ts stmt.shape := by
  obtain ⟨x, hpeek, hx⟩ := Cursor.exists_takes_of_atEnd hs
  unfold read at h
  rw [Attempt.clean_peek_bind, hpeek] at h
  split at h
  · next hk => exact readDefine_sound he hx hk (Attempt.clean_lift.1 h)
  · next hk => exact readAssign_sound he hx hk (Attempt.clean_lift.1 h)
  · next hk => exact readConditional_sound hblock he hx hk (Attempt.clean_lift.1 h)
  · next hk => exact readWhile_sound hblock he hx hk (Attempt.clean_lift.1 h)
  · next hk => exact readFor_sound hblock he hx hk (Attempt.clean_lift.1 h)
  · next hk => exact readCall_sound he hx hk h
  · next hk => exact readReturn_sound he hx hk (Attempt.clean_lift.1 h)
  · next hk => exact readSql_sound .select hx hk (Attempt.clean_lift.1 h)
  · next hk => exact readSql_sound .insert hx hk (Attempt.clean_lift.1 h)
  · next hk => exact readSql_sound .update hx hk (Attempt.clean_lift.1 h)
  · next hk => exact readSql_sound .delete hx hk (Attempt.clean_lift.1 h)
  · exact readExpression_sound he hend h

/-- A block is read as the grammar has it, and takes no more levels than there is room for. -/
theorem readBlock_sound (room : Nat) :
    (readBlock room).Sound (List.map shape) (Block 0 (Statement 0)) room := by
  induction room with
  | zero =>
      intro s t stmts _ h
      unfold readBlock at h
      obtain ⟨_, _, hcomplain, -⟩ := Rule.clean_bind.1 h
      exact absurd hcomplain Rule.not_clean_complain
  | succ room ih =>
      intro s t stmts he h
      unfold readBlock at h
      have hstep : ∀ ⦃s t : Cursor⦄ ⦃stmt : Stmt Range⦄, s.eof.kind = .eof → s.atEnd = false →
          stopsBlock s = false → Attempt.Clean (read room (Rule.defer fun _ => readBlock room)) s stmt t →
          ∃ n ts, n ≤ room ∧ s.Takes ts t ∧ Statement 0 n ts stmt.shape := by
        intro s t stmt he hs hstop h
        rw [stopsBlock, Bool.or_eq_false_iff] at hstop
        rw [Rule.defer_eq] at h
        exact read_sound ih he hs hstop.1 h
      obtain ⟨n, g, ts, hn, hts, hgap, hG, -⟩ :=
        Attempt.rounds_sound (advances_round room _) hstep he h
      exact ⟨n + 1, g ++ ts, by omega, hts, .mk hgap hG⟩

end Stmt

/-! ## Items and programs -/

namespace Item

theorem readFunction_sound {room : Nat} {s u t : Cursor} {x : Token} {item : Item Range}
    (he : s.eof.kind = .eof) (hx : s.Takes [x] u) (hk : x.kind = .keyword .FUNCTION)
    (h : (readFunction room).Clean s item t) :
    ∃ n ts, n ≤ room ∧ s.Takes ts t ∧ TopLevel 0 n ts item.shape := by
  obtain ⟨name, v, params, w, returns, y, body, z, i, hname, hnk, hp, hr, hb, hi, rfl⟩ :=
    (clean_readFunction hx).1 h
  obtain ⟨n, ts, hts, hP⟩ := Rule.parameters_sound (by rw [hname.eof, hx.eof, he]) hp
  obtain ⟨rs, hrs, hR⟩ := Rule.returning_sound (by rw [hts.eof, hname.eof, hx.eof, he]) hr
  have hheader : s.Takes (x :: name :: (ts ++ rs)) y :=
    Cursor.takes_cons.2 ⟨u, hx, Cursor.takes_cons.2 ⟨v, hname, hts.trans hrs⟩⟩
  obtain ⟨m, us, hm, hus, hB⟩ := Stmt.readBlock_sound room (by rw [hheader.eof, he]) hb
  obtain ⟨ends, hends, hE⟩ := Rule.routineEnd_sound (by rw [hus.eof, hheader.eof, he]) hi
  refine ⟨m, x :: name :: (ts ++ (rs ++ (us ++ ends))), hm, ?_, ?_⟩
  · simpa using hheader.trans (hus.trans hends)
  · exact .function hk hnk hP hR hB hE

theorem readProcedure_sound {room : Nat} {s u t : Cursor} {x : Token} {item : Item Range}
    (he : s.eof.kind = .eof) (hx : s.Takes [x] u) (hk : x.kind = .keyword .PROCEDURE)
    (h : (readProcedure room).Clean s item t) :
    ∃ n ts, n ≤ room ∧ s.Takes ts t ∧ TopLevel 0 n ts item.shape := by
  obtain ⟨name, v, params, w, body, z, i, hname, hnk, hp, hb, hi, rfl⟩ :=
    (clean_readProcedure hx).1 h
  obtain ⟨n, ts, hts, hP⟩ := Rule.parameters_sound (by rw [hname.eof, hx.eof, he]) hp
  have hheader : s.Takes (x :: name :: ts) w :=
    Cursor.takes_cons.2 ⟨u, hx, Cursor.takes_cons.2 ⟨v, hname, hts⟩⟩
  obtain ⟨m, us, hm, hus, hB⟩ := Stmt.readBlock_sound room (by rw [hheader.eof, he]) hb
  obtain ⟨ends, hends, hE⟩ := Rule.routineEnd_sound (by rw [hus.eof, hheader.eof, he]) hi
  refine ⟨m, x :: name :: (ts ++ (us ++ ends)), hm, ?_, ?_⟩
  · simpa using hheader.trans (hus.trans hends)
  · exact .procedure hk hnk hP hB hE

theorem read_sound {room : Nat} {s t : Cursor} {item : Item Range} (he : s.eof.kind = .eof)
    (hs : s.atEnd = false) (h : Attempt.Clean (read room) s item t) :
    ∃ n ts, n ≤ room ∧ s.Takes ts t ∧ TopLevel 0 n ts item.shape := by
  obtain ⟨x, -, hx⟩ := Cursor.exists_takes_of_atEnd hs
  obtain ⟨hk, h⟩ | ⟨hk, h⟩ | ⟨-, hend, stmt, hr, rfl⟩ := clean_read.1 h
  · rw [hx.kind_eq] at hk
    exact readFunction_sound he hx hk h
  · rw [hx.kind_eq] at hk
    exact readProcedure_sound he hx hk h
  · obtain ⟨n, ts, hn, hts, hG⟩ := Stmt.read_sound (Stmt.readBlock_sound room) he hs hend hr
    exact ⟨n, ts, hn, hts, .statement hG⟩

/-- A program that is read cleanly takes all the tokens there are. -/
theorem readProgram_sound {s t : Cursor} {items : List (Item Range)} (he : s.eof.kind = .eof)
    (h : readProgram.Clean s items t) :
    ∃ n ≤ maxNesting, Program 0 n s.ahead (items.map shape) := by
  obtain ⟨n, g, ts, hn, hts, hgap, hG, hend⟩ :=
    Attempt.rounds_sound (advances_round maxNesting) (fun _ _ _ he hs _ => read_sound he hs) he h
  have hnil : t.ahead = [] := by simpa [Cursor.atEnd] using hend
  refine ⟨n, hn, ?_⟩
  rw [hts.ahead, hnil, List.append_nil]
  exact .mk hgap hG

end Item

theorem parseTokens_sound {tokens : List Token} {eof : Token} (hts : ∀ t ∈ tokens, t.kind ≠ .eof)
    (he : eof.kind = .eof) (h : (parseTokens (tokens ++ [eof])).errors = []) :
    ∃ n ≤ maxNesting,
      Program 0 n tokens ((parseTokens (tokens ++ [eof])).items.map Item.shape) := by
  rw [parseTokens, Cursor.ofTokens_concat hts he, Cursor.parse] at h ⊢
  have hclean : Item.readProgram.Clean ⟨[], tokens, eof⟩
      (Item.readProgram.run ⟨[], tokens, eof⟩).value
      (Item.readProgram.run ⟨[], tokens, eof⟩).rest := by
    unfold Rule.Clean
    rw [← h]
  exact Item.readProgram_sound he hclean

/-- A parse without errors is a derivation of all the tokens: the items that are found are its tree,
    and it keeps within the levels of nesting that there are. This holds for all lists of tokens that
    end with their only token of kind `eof`, and so for the tokens of every text. -/
theorem derives_of_no_errors :
    (∀ (tokens : List Token) (eof : Token), eof.kind = .eof → (∀ t ∈ tokens, t.kind ≠ .eof) →
      (parseTokens (tokens ++ [eof])).errors = [] →
      ∃ n ≤ maxNesting,
        Program 0 n tokens ((parseTokens (tokens ++ [eof])).items.map Item.shape)) ∧
    ∀ text : String, (parse text).errors = [] →
      ∃ n ≤ maxNesting, Program 0 n (tokenize text).dropLast ((parse text).items.map Item.shape) := by
  refine ⟨fun tokens eof he hts h => parseTokens_sound hts he h, ?_⟩
  intro text h
  rw [parse, tokenize_eq] at h ⊢
  rw [List.dropLast_concat]
  exact parseTokens_sound (fun _ => ne_eof_of_mem_tokensOf) (eofOf_kind text) h

theorem derives_function :
    (∃ n ≤ maxNesting, Program 0 n (tokensOf "CALL f(1)\n")
      ((parseTokens (tokensOf "CALL f(1)\n" ++ [eofOf "CALL f(1)\n"])).items.map Item.shape)) ∧
    ∃ n ≤ maxNesting, Program 0 n
      (tokenize "FUNCTION f(a INTEGER)\nIF a = 1 THEN\nRETURN a\nEND IF\nEND\n").dropLast
      ((parse "FUNCTION f(a INTEGER)\nIF a = 1 THEN\nRETURN a\nEND IF\nEND\n").items.map
        Item.shape) :=
  ⟨derives_of_no_errors.1 _ _ rfl (by decide +kernel) (by decide +kernel),
    derives_of_no_errors.2 _ (by decide +kernel)⟩

end FourthGen
