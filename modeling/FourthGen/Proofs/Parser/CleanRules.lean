import FourthGen.Proofs.Parser.Clean

set_option autoImplicit false

/-! # Clean readings of the rules of the grammar

For every rule of the parser, what its clean readings are made of: the tokens that it takes by
itself and the clean readings of the rules that it calls. Each statement is an equivalence, so that it
serves to take a given reading apart and to build one. Rules that are only started at a known token
have that token, with the cursor behind it, as a hypothesis. -/

namespace FourthGen

/-! ## Expressions -/

namespace Expr

theorem primary_eq (room : Nat) : primary room = primaryBy (readBinding room 0) := by
  cases room with
  | zero => rw [primary]; rfl
  | succ room => rw [primary]; rfl

theorem clean_readBinding {room least : Nat} {s t : Cursor} {e : Expr Range} :
    Attempt.Clean (readBinding (room + 1) least) s e t ↔
      ∃ operand u, Attempt.Clean (primary room) s operand u ∧
        Attempt.Clean (chain room least operand) u e t := by
  rw [readBinding, Attempt.clean_bind]

theorem clean_chain {room least : Nat} {left e : Expr Range} {s t : Cursor} :
    Attempt.Clean (chain room least left) s e t ↔
      (s.operator? least = none ∧ e = left ∧ t = s) ∨
        ∃ next op x u right v, room = next + 1 ∧ s.operator? least = some op ∧
          Rule.advance.Clean s x u ∧ Attempt.Clean (readBinding room (op.power + 1)) u right v ∧
          Attempt.Clean (chain next least (.binary (left.range.cover right.range) op left right))
            v e t := by
  cases room with
  | zero =>
    rw [chain, Attempt.clean_bind]
    simp only [Attempt.clean_lift, Rule.operator?, Rule.clean_ask]
    constructor
    · rintro ⟨_, _, ⟨rfl, rfl⟩, h⟩
      split at h
      · next ho => exact .inl ⟨ho, Attempt.clean_pure.1 h⟩
      · exact absurd h Attempt.not_clean_tooDeep
    · rintro (⟨ho, h⟩ | ⟨_, _, _, _, _, _, h, _⟩)
      · exact ⟨none, s, ⟨ho.symm, rfl⟩, Attempt.clean_pure.2 h⟩
      · cases h
  | succ room =>
    rw [chain, Attempt.clean_bind]
    simp only [Attempt.clean_lift, Rule.operator?, Rule.clean_ask]
    constructor
    · rintro ⟨_, _, ⟨rfl, rfl⟩, h⟩
      split at h
      · next ho => exact .inl ⟨ho, Attempt.clean_pure.1 h⟩
      · next op ho =>
        obtain ⟨x, u, hx, h⟩ := Attempt.clean_bind.1 h
        obtain ⟨operand, w, hw, h⟩ := Attempt.clean_bind.1 h
        obtain ⟨right, v, hr, h⟩ := Attempt.clean_bind.1 h
        exact .inr ⟨room, op, x, u, right, v, rfl, ho, Attempt.clean_lift.1 hx,
          clean_readBinding.2 ⟨operand, w, hw, hr⟩, h⟩
    · rintro (⟨ho, h⟩ | ⟨next, op, x, u, right, v, hn, ho, hx, hr, h⟩)
      · exact ⟨none, s, ⟨ho.symm, rfl⟩, Attempt.clean_pure.2 h⟩
      · cases hn
        obtain ⟨operand, w, hw, hr⟩ := clean_readBinding.1 hr
        refine ⟨some op, s, ⟨ho.symm, rfl⟩, Attempt.clean_bind.2 ⟨x, u, Attempt.clean_lift.2 hx, ?_⟩⟩
        exact Attempt.clean_bind.2 ⟨operand, w, hw, Attempt.clean_bind.2 ⟨right, v, hr, h⟩⟩

/-- Arguments behind their opening parenthesis: none, or a list, and the closing parenthesis. -/
theorem clean_argumentsBy {inner : Attempt (Expr Range)} {s t : Cursor} {args : List (Expr Range)} :
    Attempt.Clean (argumentsBy inner) s args t ↔
      ∃ u closing, u.Takes [closing] t ∧ closing.kind = .symbol .rightParen ∧
        ((s.kind = .symbol .rightParen ∧ args = [] ∧ u = s) ∨
          (s.kind ≠ .symbol .rightParen ∧ Attempt.Clean (Attempt.commaList inner) s args u)) := by
  unfold argumentsBy
  rw [Attempt.clean_bind]
  simp only [Attempt.clean_lift, Rule.clean_peek]
  constructor
  · rintro ⟨_, _, ⟨rfl, rfl⟩, h⟩
    split at h
    · next hs =>
      simp only [Attempt.clean_bind, Attempt.clean_lift, Rule.clean_expect, Attempt.clean_pure] at h
      obtain ⟨_, _, ⟨rfl, rfl⟩, _, _, ⟨closing, hc, hk, -⟩, rfl, rfl⟩ := h
      exact ⟨_, closing, hc, hk, .inl ⟨hs, rfl, rfl⟩⟩
    · next hs =>
      simp only [Attempt.clean_bind, Attempt.clean_lift, Rule.clean_expect, Attempt.clean_pure] at h
      obtain ⟨_, u, hl, _, _, ⟨closing, hc, hk, -⟩, rfl, rfl⟩ := h
      exact ⟨u, closing, hc, hk, .inr ⟨hs, hl⟩⟩
  · rintro ⟨u, closing, hc, hk, h⟩
    refine ⟨_, _, ⟨rfl, rfl⟩, ?_⟩
    rcases h with ⟨hs, rfl, rfl⟩ | ⟨hs, hl⟩
    · rw [Cursor.kind] at hs
      rw [if_pos hs]
      simp only [Attempt.clean_bind, Attempt.clean_lift, Rule.clean_expect, Attempt.clean_pure]
      exact ⟨_, _, ⟨rfl, rfl⟩, _, _, ⟨closing, hc, hk, rfl⟩, rfl, rfl⟩
    · rw [Cursor.kind] at hs
      rw [if_neg hs]
      simp only [Attempt.clean_bind, Attempt.clean_lift, Rule.clean_expect, Attempt.clean_pure]
      exact ⟨_, u, hl, _, _, ⟨closing, hc, hk, rfl⟩, rfl, rfl⟩

/-- The clean readings of an operand, by the kind of its first token. -/
theorem clean_primaryBy {inner : Attempt (Expr Range)} {s t : Cursor} {e : Expr Range} {x : Token}
    {u : Cursor} (hx : s.Takes [x] u) :
    Attempt.Clean (primaryBy inner) s e t ↔
      (x.kind = .stringLiteral ∧ e = .literal x.range (.string x.text) ∧ t = u) ∨
      (x.kind = .numberLiteral ∧ e = .literal x.range (.number x.text) ∧ t = u) ∨
      (x.kind = .identifier ∧ u.check (.symbol .leftParen) = false ∧ e = .identifier x.range x.text ∧
        t = u) ∨
      (x.kind = .identifier ∧ ∃ opening v args, u.Takes [opening] v ∧
        opening.kind = .symbol .leftParen ∧ Attempt.Clean (argumentsBy inner) v args t ∧
        e = .call (x.range.cover t.previousRange) x.text args) ∨
      (x.kind = .symbol .leftParen ∧ ∃ content v closing, Attempt.Clean inner u content v ∧
        v.Takes [closing] t ∧ closing.kind = .symbol .rightParen ∧
        e = content.withRange (x.range.cover t.previousRange)) := by
  have hpeek : s.peek = x := hx.peek_eq
  have hadv {y : Token} {v : Cursor} : Rule.advance.Clean s y v ↔ y = x ∧ v = u :=
    Rule.clean_advance hx
  unfold primaryBy
  rw [Attempt.clean_bind]
  simp only [Attempt.clean_lift, Rule.clean_peek, hpeek]
  constructor
  · rintro ⟨_, _, ⟨rfl, rfl⟩, h⟩
    split at h
    · next hk =>
      simp only [Attempt.clean_bind, Attempt.clean_lift, hadv, Attempt.clean_pure] at h
      obtain ⟨_, _, ⟨rfl, rfl⟩, rfl, rfl⟩ := h
      exact .inl ⟨hk, rfl, rfl⟩
    · next hk =>
      simp only [Attempt.clean_bind, Attempt.clean_lift, hadv, Attempt.clean_pure] at h
      obtain ⟨_, _, ⟨rfl, rfl⟩, rfl, rfl⟩ := h
      exact .inr (.inl ⟨hk, rfl, rfl⟩)
    · next hk =>
      simp only [Attempt.clean_bind, Attempt.clean_lift, hadv, Rule.clean_accept] at h
      obtain ⟨_, _, ⟨rfl, rfl⟩, _, _, ⟨rfl, opening, ho, hok⟩ | ⟨rfl, rfl, hno⟩, h⟩ := h
      · simp only [if_true, Attempt.clean_bind, Attempt.clean_lift, Rule.clean_upToHere,
          Attempt.clean_pure] at h
        obtain ⟨args, _, ha, _, _, ⟨rfl, rfl⟩, rfl, rfl⟩ := h
        exact .inr (.inr (.inr (.inl ⟨hk, opening, _, args, ho, by simpa using hok, ha, rfl⟩)))
      · simp only [Bool.false_eq_true, if_false, Attempt.clean_pure] at h
        obtain ⟨rfl, rfl⟩ := h
        exact .inr (.inr (.inl ⟨hk, by simpa using hno, rfl, rfl⟩))
    · next hk =>
      simp only [Attempt.clean_bind, Attempt.clean_lift, hadv, Rule.clean_expect,
        Rule.clean_upToHere, Attempt.clean_pure] at h
      obtain ⟨_, _, ⟨rfl, rfl⟩, content, v, hi, _, _, ⟨closing, hc, hck, rfl⟩, _, _, ⟨rfl, rfl⟩, rfl,
        rfl⟩ := h
      exact .inr (.inr (.inr (.inr ⟨hk, content, v, closing, hi, hc, hck, rfl⟩)))
    · exact absurd h Attempt.not_clean_fail
  · intro h
    refine ⟨x, s, ⟨rfl, rfl⟩, ?_⟩
    rcases h with ⟨hk, rfl, rfl⟩ | ⟨hk, rfl, rfl⟩ | ⟨hk, hno, rfl, rfl⟩ |
      ⟨hk, opening, v, args, ho, hok, ha, rfl⟩ | ⟨hk, content, v, closing, hi, hc, hck, rfl⟩
    · simp only [hk, Attempt.clean_bind, Attempt.clean_lift, hadv, Attempt.clean_pure]
      exact ⟨_, _, ⟨rfl, rfl⟩, trivial, rfl⟩
    · simp only [hk, Attempt.clean_bind, Attempt.clean_lift, hadv, Attempt.clean_pure]
      exact ⟨_, _, ⟨rfl, rfl⟩, trivial, rfl⟩
    · simp only [hk, Attempt.clean_bind, Attempt.clean_lift, hadv, Rule.clean_accept]
      exact ⟨_, _, ⟨rfl, rfl⟩, false, _, .inr ⟨rfl, rfl, by simpa using hno⟩,
        Attempt.clean_pure.2 ⟨rfl, rfl⟩⟩
    · simp only [hk, Attempt.clean_bind, Attempt.clean_lift, hadv, Rule.clean_accept]
      refine ⟨_, _, ⟨rfl, rfl⟩, true, v, .inl ⟨rfl, opening, ho, by simpa using hok⟩, ?_⟩
      simp only [if_true, Attempt.clean_bind, Attempt.clean_lift, Rule.clean_upToHere,
        Attempt.clean_pure]
      exact ⟨args, t, ha, _, _, ⟨rfl, rfl⟩, rfl, rfl⟩
    · simp only [hk, Attempt.clean_bind, Attempt.clean_lift, hadv, Rule.clean_expect,
        Rule.clean_upToHere, Attempt.clean_pure]
      exact ⟨_, _, ⟨rfl, rfl⟩, content, v, hi, _, t, ⟨closing, hc, hck, rfl⟩, _, _, ⟨rfl, rfl⟩, rfl, rfl⟩

/-- An expression that must not be missing is there. -/
theorem clean_readOrError {room : Nat} {s t : Cursor} {e : Expr Range} :
    (readOrError room).Clean s e t ↔ Attempt.Clean (read room) s e t := by
  unfold readOrError
  rw [Rule.clean_bind]
  constructor
  · rintro ⟨r, u, hr, h⟩
    cases r with
    | error e => simp [Rule.Clean] at h
    | ok a =>
      obtain ⟨rfl, rfl⟩ := Rule.clean_pure.1 h
      exact hr
  · intro h
    exact ⟨.ok e, t, h, Rule.clean_pure.2 ⟨rfl, rfl⟩⟩

end Expr

/-! ## Names and types -/

namespace Rule

theorem clean_name {role : NameRole} {s t : Cursor} {text : String} :
    (name role).Clean s text t ↔ ∃ x, s.Takes [x] t ∧ x.kind = .identifier ∧ text = x.text := by
  unfold name
  simp only [clean_bind, clean_expect, clean_pure]
  constructor
  · rintro ⟨_, _, ⟨x, hx, hk, rfl⟩, rfl, rfl⟩
    exact ⟨x, hx, hk, rfl⟩
  · rintro ⟨x, hx, hk, rfl⟩
    exact ⟨_, _, ⟨x, hx, hk, rfl⟩, rfl, rfl⟩

/-- Whether sizes of a data type start at the cursor: a parenthesis and a number. -/
def atSizes (s : Cursor) : Bool :=
  s.check (.symbol .leftParen) && (s.peekNth 1).kind == .numberLiteral

theorem clean_typeSizes {s u t : Cursor} {x : Token} {sizes : List String} (hx : s.Takes [x] u) :
    typeSizes.Clean s sizes t ↔
      ∃ found v closing,
        (commaList Option.isSome (expect .numberLiteral .missingTypeSize)).Clean u found v ∧
        v.Takes [closing] t ∧ closing.kind = .symbol .rightParen ∧
        sizes = (found.filterMap id).map (·.text) := by
  unfold typeSizes
  simp only [clean_bind, clean_advance hx, clean_expect, clean_pure, List.map_filterMap, id]
  constructor
  · rintro ⟨_, _, ⟨rfl, rfl⟩, found, v, hl, _, _, ⟨closing, hc, hk, -⟩, rfl, rfl⟩
    exact ⟨found, v, closing, hl, hc, hk, rfl⟩
  · rintro ⟨found, v, closing, hl, hc, hk, rfl⟩
    exact ⟨_, _, ⟨rfl, rfl⟩, found, v, hl, _, _, ⟨closing, hc, hk, rfl⟩, rfl, rfl⟩

theorem clean_dataType {s u t : Cursor} {x : Token} {text : String} (hx : s.Takes [x] u) :
    dataType.Clean s text t ↔
      (x.kind.isDataType || x.kind == .identifier) = true ∧
        ((atSizes u = false ∧ text = x.text ∧ t = u) ∨
          (atSizes u = true ∧ ∃ sizes, typeSizes.Clean u sizes t ∧
            text = x.text ++ "(" ++ ",".intercalate sizes ++ ")")) := by
  unfold dataType
  simp only [clean_bind, clean_peek, hx.peek_eq]
  constructor
  · rintro ⟨_, _, ⟨rfl, rfl⟩, h⟩
    split at h
    · next hk =>
      simp only [clean_bind, clean_advance hx, clean_ask] at h
      obtain ⟨_, _, ⟨rfl, rfl⟩, _, _, ⟨rfl, rfl⟩, h⟩ := h
      refine ⟨hk, ?_⟩
      split at h
      · next hs =>
        simp only [clean_bind, clean_pure] at h
        obtain ⟨sizes, _, hl, rfl, rfl⟩ := h
        exact .inr ⟨hs, sizes, hl, rfl⟩
      · next hs => exact .inl ⟨by simpa [atSizes] using hs, clean_pure.1 h⟩
    · simp only [clean_bind] at h
      obtain ⟨_, _, h, -⟩ := h
      exact absurd h not_clean_complain
  · rintro ⟨hk, h⟩
    refine ⟨_, _, ⟨rfl, rfl⟩, ?_⟩
    rw [if_pos hk]
    simp only [clean_bind, clean_advance hx, clean_ask]
    refine ⟨_, _, ⟨rfl, rfl⟩, _, _, ⟨rfl, rfl⟩, ?_⟩
    rcases h with ⟨hs, rfl, rfl⟩ | ⟨hs, sizes, hl, rfl⟩
    · rw [atSizes] at hs
      simp only [hs, Bool.false_eq_true, if_false]
      exact clean_pure.2 ⟨rfl, rfl⟩
    · rw [atSizes] at hs
      simp only [hs, if_true, clean_bind, clean_pure]
      exact ⟨sizes, t, hl, rfl, rfl⟩

theorem clean_declared {role : NameRole} {s t : Cursor} {o : Option (Variable Range)} :
    (declared? role).Clean s o t ↔
      ∃ x u type, s.Takes [x] u ∧ x.kind = .identifier ∧ dataType.Clean u type t ∧
        o = some ⟨x.range.cover t.previousRange, x.text, type⟩ := by
  unfold declared?
  simp only [clean_bind, clean_expect]
  constructor
  · rintro ⟨_, _, ⟨x, hx, hk, rfl⟩, h⟩
    simp only [clean_bind, clean_upToHere, clean_pure] at h
    obtain ⟨type, _, ht, _, _, ⟨rfl, rfl⟩, rfl, rfl⟩ := h
    exact ⟨x, _, type, hx, hk, ht, rfl⟩
  · rintro ⟨x, u, type, hx, hk, ht, rfl⟩
    refine ⟨_, _, ⟨x, hx, hk, rfl⟩, ?_⟩
    simp only [clean_bind, clean_upToHere, clean_pure]
    exact ⟨type, t, ht, _, _, ⟨rfl, rfl⟩, rfl, rfl⟩

theorem clean_declaredList {role : NameRole} {s t : Cursor} {vars : List (Variable Range)} :
    (declaredList role).Clean s vars t ↔
      ∃ found, (commaList (fun _ => true) (declared? role)).Clean s found t ∧
        vars = found.filterMap id := by
  unfold declaredList
  simp only [clean_bind, clean_pure]
  constructor
  · rintro ⟨found, _, hl, rfl, rfl⟩
    exact ⟨found, hl, rfl⟩
  · rintro ⟨found, hl, rfl⟩
    exact ⟨found, t, hl, rfl, rfl⟩

/-! ## Closing words -/

theorem clean_compoundEnd {c : Compound} {s t : Cursor} {i : Unit} :
    (compoundEnd c).Clean s i t ↔
      (∃ x, s.Takes [x] t ∧ x.kind = .keyword c.closer) ∨
        (s.check (.keyword c.closer) = false ∧ s.atWord "END" = true ∧
          (s.peekNth 1).kind = .keyword c.opener ∧ t = s.advance.advance) := by
  unfold compoundEnd
  simp only [clean_bind, clean_accept, List.mem_singleton]
  constructor
  · rintro ⟨_, _, ⟨rfl, x, hx, hk⟩ | ⟨rfl, rfl, hno⟩, h⟩
    · obtain ⟨-, rfl⟩ := clean_pure.1 h
      exact .inl ⟨x, hx, hk⟩
    · simp only [Bool.false_eq_true, if_false, clean_bind, clean_ask] at h
      obtain ⟨_, _, ⟨rfl, rfl⟩, h⟩ := h
      split at h
      · next hw =>
        simp only [clean_bind, clean_advance_iff, clean_pure] at h
        obtain ⟨_, _, ⟨rfl, rfl⟩, _, _, ⟨rfl, rfl⟩, -, rfl⟩ := h
        simp only [Bool.and_eq_true, beq_iff_eq] at hw
        exact .inr ⟨by simpa using hno, hw.1, hw.2, rfl⟩
      · exact absurd h not_clean_complain
  · rintro (⟨x, hx, hk⟩ | ⟨hno, hw, hk, rfl⟩)
    · exact ⟨_, _, .inl ⟨rfl, x, hx, hk⟩, clean_pure.2 ⟨rfl, rfl⟩⟩
    · refine ⟨_, _, .inr ⟨rfl, rfl, by simpa using hno⟩, ?_⟩
      simp only [Bool.false_eq_true, if_false, clean_bind, clean_ask]
      refine ⟨_, _, ⟨rfl, rfl⟩, ?_⟩
      simp only [hw, hk, beq_self_eq_true, Bool.and_self, if_true, clean_bind, clean_advance_iff,
        clean_pure]
      exact ⟨_, _, ⟨rfl, rfl⟩, _, _, ⟨rfl, rfl⟩, trivial, rfl⟩

theorem clean_routineEnd {r : Routine} {s t : Cursor} {i : Unit} :
    (routineEnd r).Clean s i t ↔
      (s.atWord r.closingWord = true ∧ t = s.advance) ∨
        (s.atWord r.closingWord = false ∧ s.atWord "END" = true ∧
          ∃ b, (accept [.keyword r.opener]).Clean s.advance b t) := by
  unfold routineEnd
  simp only [clean_bind, clean_ask]
  constructor
  · rintro ⟨_, _, ⟨rfl, rfl⟩, h⟩
    split at h
    · next hw =>
      simp only [clean_bind, clean_advance_iff, clean_pure] at h
      obtain ⟨_, _, ⟨rfl, rfl⟩, -, rfl⟩ := h
      exact .inl ⟨hw, rfl⟩
    · next hw =>
      simp only [clean_bind, clean_ask] at h
      obtain ⟨_, _, ⟨rfl, rfl⟩, h⟩ := h
      split at h
      · next he =>
        simp only [clean_bind, clean_advance_iff, clean_pure] at h
        obtain ⟨_, _, ⟨rfl, rfl⟩, b, _, ha, -, rfl⟩ := h
        exact .inr ⟨by simpa using hw, he, b, ha⟩
      · exact absurd h not_clean_complain
  · rintro (⟨hw, rfl⟩ | ⟨hw, he, b, ha⟩)
    · refine ⟨_, _, ⟨rfl, rfl⟩, ?_⟩
      simp only [hw, if_true, clean_bind, clean_advance_iff, clean_pure]
      exact ⟨_, _, ⟨rfl, rfl⟩, trivial, rfl⟩
    · refine ⟨_, _, ⟨rfl, rfl⟩, ?_⟩
      simp only [hw, Bool.false_eq_true, if_false, clean_bind, clean_ask]
      refine ⟨_, _, ⟨rfl, rfl⟩, ?_⟩
      simp only [he, if_true, clean_bind, clean_advance_iff, clean_pure]
      exact ⟨_, _, ⟨rfl, rfl⟩, b, t, ha, trivial, rfl⟩

/-! ## Headers of declarations -/

theorem clean_parameters {r : Routine} {s t : Cursor} {params : List (Variable Range)} :
    (parameters r).Clean s params t ↔
      ∃ opening u v closing, s.Takes [opening] u ∧ opening.kind = .symbol .leftParen ∧
        v.Takes [closing] t ∧ closing.kind = .symbol .rightParen ∧
        ((u.check (.symbol .rightParen) = true ∧ params = [] ∧ v = u) ∨
          (u.check (.symbol .rightParen) = false ∧ (declaredList .parameter).Clean u params v)) := by
  unfold parameters
  simp only [clean_bind, clean_expect]
  constructor
  · rintro ⟨_, u, ⟨opening, ho, hok, rfl⟩, h⟩
    simp only [clean_bind, clean_ask] at h
    obtain ⟨_, _, ⟨rfl, rfl⟩, h⟩ := h
    split at h
    · next hc =>
      simp only [clean_bind, clean_expect, clean_pure] at h
      obtain ⟨_, _, ⟨rfl, rfl⟩, _, _, ⟨closing, hcl, hck, -⟩, rfl, rfl⟩ := h
      exact ⟨opening, _, _, closing, ho, hok, hcl, hck, .inl ⟨hc, rfl, rfl⟩⟩
    · next hc =>
      simp only [clean_bind, clean_expect, clean_pure] at h
      obtain ⟨_, v, hl, _, _, ⟨closing, hcl, hck, -⟩, rfl, rfl⟩ := h
      exact ⟨opening, _, v, closing, ho, hok, hcl, hck, .inr ⟨by simpa using hc, hl⟩⟩
  · rintro ⟨opening, u, v, closing, ho, hok, hcl, hck, h⟩
    refine ⟨_, u, ⟨opening, ho, hok, rfl⟩, ?_⟩
    simp only [clean_bind, clean_ask]
    refine ⟨_, _, ⟨rfl, rfl⟩, ?_⟩
    rcases h with ⟨hc, rfl, rfl⟩ | ⟨hc, hl⟩
    · simp only [hc, if_true, clean_bind, clean_expect, clean_pure]
      exact ⟨_, _, ⟨rfl, rfl⟩, _, _, ⟨closing, hcl, hck, rfl⟩, rfl, rfl⟩
    · simp only [hc, Bool.false_eq_true, if_false, clean_bind, clean_expect, clean_pure]
      exact ⟨_, v, hl, _, _, ⟨closing, hcl, hck, rfl⟩, rfl, rfl⟩

theorem clean_returning {s t : Cursor} {o : Option String} :
    returning?.Clean s o t ↔
      (s.atWord "RETURNING" = false ∧ o = none ∧ t = s) ∨
        (s.atWord "RETURNING" = true ∧ ∃ type, dataType.Clean s.advance type t ∧ o = some type) := by
  unfold returning?
  simp only [clean_bind, clean_ask]
  constructor
  · rintro ⟨_, _, ⟨rfl, rfl⟩, h⟩
    split at h
    · next hw =>
      simp only [clean_bind, clean_advance_iff, clean_pure] at h
      obtain ⟨_, _, ⟨rfl, rfl⟩, type, _, ht, rfl, rfl⟩ := h
      exact .inr ⟨hw, type, ht, rfl⟩
    · next hw => exact .inl ⟨by simpa using hw, clean_pure.1 h⟩
  · rintro (⟨hw, h⟩ | ⟨hw, type, ht, rfl⟩)
    · refine ⟨_, _, ⟨rfl, rfl⟩, ?_⟩
      simp only [hw, Bool.false_eq_true, if_false]
      exact clean_pure.2 h
    · refine ⟨_, _, ⟨rfl, rfl⟩, ?_⟩
      simp only [hw, if_true, clean_bind, clean_advance_iff, clean_pure]
      exact ⟨_, _, ⟨rfl, rfl⟩, type, t, ht, rfl, rfl⟩

end Rule

/-! ## Statements -/

namespace Stmt

open Rule

section

variable {room : Nat} {block : Rule (List (Stmt Range))} {s u t : Cursor} {x : Token}
  {stmt : Stmt Range} (hx : s.Takes [x] u)

include hx

theorem clean_readDefine :
    readDefine.Clean s stmt t ↔
      ∃ vars, (declaredList .target).Clean u vars t ∧
        stmt = .define (x.range.cover t.previousRange) vars := by
  unfold readDefine
  simp only [clean_bind, clean_advance hx, clean_upToHere, Rule.clean_pure]
  constructor
  · rintro ⟨_, _, ⟨rfl, rfl⟩, vars, _, hv, _, _, ⟨rfl, rfl⟩, rfl, rfl⟩
    exact ⟨vars, hv, rfl⟩
  · rintro ⟨vars, hv, rfl⟩
    exact ⟨_, _, ⟨rfl, rfl⟩, vars, t, hv, _, _, ⟨rfl, rfl⟩, rfl, rfl⟩

theorem clean_readAssign :
    (readAssign room).Clean s stmt t ↔
      ∃ target v equals w value, u.Takes [target] v ∧ target.kind = .identifier ∧
        v.Takes [equals] w ∧ equals.kind = .symbol .assign ∧ Attempt.Clean (Expr.read room) w value t ∧
        stmt = .assign (x.range.cover t.previousRange) target.text value := by
  unfold readAssign
  simp only [clean_bind, clean_advance hx, clean_name, clean_expect, Expr.clean_readOrError,
    clean_upToHere, Rule.clean_pure]
  constructor
  · rintro ⟨_, _, ⟨rfl, rfl⟩, _, v, ⟨target, ht, hk, rfl⟩, _, w, ⟨equals, he, hek, -⟩, value, _, hv,
      _, _, ⟨rfl, rfl⟩, rfl, rfl⟩
    exact ⟨target, v, equals, w, value, ht, hk, he, hek, hv, rfl⟩
  · rintro ⟨target, v, equals, w, value, ht, hk, he, hek, hv, rfl⟩
    exact ⟨_, _, ⟨rfl, rfl⟩, _, v, ⟨target, ht, hk, rfl⟩, _, w, ⟨equals, he, hek, rfl⟩, value, t, hv,
      _, _, ⟨rfl, rfl⟩, rfl, rfl⟩

theorem clean_readConditional :
    (readConditional room block).Clean s stmt t ↔
      ∃ condition v then_ w thenBlock y elseBlock z i,
        Attempt.Clean (Expr.read room) u condition v ∧ v.Takes [then_] w ∧
        then_.kind = .keyword .THEN ∧ block.Clean w thenBlock y ∧
        ((y.check (.keyword .ELSE) = false ∧ elseBlock = [] ∧ z = y) ∨
          ∃ else_ y', y.Takes [else_] y' ∧ else_.kind = .keyword .ELSE ∧
            block.Clean y' elseBlock z) ∧
        (compoundEnd .conditional).Clean z i t ∧
        stmt = .conditional (x.range.cover t.previousRange) condition thenBlock elseBlock := by
  unfold readConditional
  simp only [clean_bind, clean_advance hx, clean_expect, Expr.clean_readOrError, clean_accept,
    List.mem_singleton]
  constructor
  · rintro ⟨_, _, ⟨rfl, rfl⟩, condition, v, hc, _, w, ⟨then_, ht, hk, -⟩, thenBlock, y, hb, _, _,
      ⟨rfl, else_, he, hek⟩ | ⟨rfl, rfl, hno⟩, h⟩
    · simp only [if_true, clean_bind, clean_upToHere, Rule.clean_pure] at h
      obtain ⟨elseBlock, z, hd, i, _, hi, _, _, ⟨rfl, rfl⟩, rfl, rfl⟩ := h
      exact ⟨condition, v, then_, w, thenBlock, y, elseBlock, z, i, hc, ht, hk, hb,
        .inr ⟨else_, _, he, hek, hd⟩, hi, rfl⟩
    · simp only [Bool.false_eq_true, if_false, clean_bind, clean_upToHere, Rule.clean_pure] at h
      obtain ⟨elseBlock, _, ⟨rfl, rfl⟩, i, _, hi, _, _, ⟨rfl, rfl⟩, rfl, rfl⟩ := h
      exact ⟨condition, v, then_, w, thenBlock, _, [], _, i, hc, ht, hk, hb,
        .inl ⟨by simpa using hno, rfl, rfl⟩, hi, rfl⟩
  · rintro ⟨condition, v, then_, w, thenBlock, y, elseBlock, z, i, hc, ht, hk, hb, h, hi, rfl⟩
    refine ⟨_, _, ⟨rfl, rfl⟩, condition, v, hc, _, w, ⟨then_, ht, hk, rfl⟩, thenBlock, y, hb, ?_⟩
    rcases h with ⟨hno, rfl, rfl⟩ | ⟨else_, y', he, hek, hd⟩
    · refine ⟨false, _, .inr ⟨rfl, rfl, by simpa using hno⟩, ?_⟩
      simp only [Bool.false_eq_true, if_false, clean_bind, clean_upToHere, Rule.clean_pure]
      exact ⟨_, _, ⟨rfl, rfl⟩, i, t, hi, _, _, ⟨rfl, rfl⟩, rfl, rfl⟩
    · refine ⟨true, y', .inl ⟨rfl, else_, he, hek⟩, ?_⟩
      simp only [if_true, clean_bind, clean_upToHere, Rule.clean_pure]
      exact ⟨elseBlock, z, hd, i, t, hi, _, _, ⟨rfl, rfl⟩, rfl, rfl⟩

theorem clean_readWhile :
    (readWhile room block).Clean s stmt t ↔
      ∃ condition v body w i, Attempt.Clean (Expr.read room) u condition v ∧ block.Clean v body w ∧
        (compoundEnd .whileLoop).Clean w i t ∧
        stmt = .whileLoop (x.range.cover t.previousRange) condition body := by
  unfold readWhile
  simp only [clean_bind, clean_advance hx, Expr.clean_readOrError, clean_upToHere, Rule.clean_pure]
  constructor
  · rintro ⟨_, _, ⟨rfl, rfl⟩, condition, v, hc, body, w, hb, i, _, hi, _, _, ⟨rfl, rfl⟩, rfl, rfl⟩
    exact ⟨condition, v, body, w, i, hc, hb, hi, rfl⟩
  · rintro ⟨condition, v, body, w, i, hc, hb, hi, rfl⟩
    exact ⟨_, _, ⟨rfl, rfl⟩, condition, v, hc, body, w, hb, i, t, hi, _, _, ⟨rfl, rfl⟩, rfl, rfl⟩

theorem clean_readFor :
    (readFor block).Clean s stmt t ↔
      ∃ body w i, block.Clean u.skipLine body w ∧ (compoundEnd .forLoop).Clean w i t ∧
        stmt = .forLoop (x.range.cover t.previousRange) body := by
  unfold readFor
  simp only [clean_bind, clean_advance hx, clean_skipLine, clean_upToHere, Rule.clean_pure]
  constructor
  · rintro ⟨_, _, ⟨rfl, rfl⟩, _, _, rfl, body, w, hb, i, _, hi, _, _, ⟨rfl, rfl⟩, rfl, rfl⟩
    exact ⟨body, w, i, hb, hi, rfl⟩
  · rintro ⟨body, w, i, hb, hi, rfl⟩
    exact ⟨_, _, ⟨rfl, rfl⟩, (), _, rfl, body, w, hb, i, t, hi, _, _, ⟨rfl, rfl⟩, rfl, rfl⟩

theorem clean_readCall :
    Attempt.Clean (readCall room) s stmt t ↔
      ∃ name v args, u.Takes [name] v ∧ name.kind = .identifier ∧
        ((v.check (.symbol .leftParen) = false ∧ args = [] ∧ t = v) ∨
          ∃ opening w, v.Takes [opening] w ∧ opening.kind = .symbol .leftParen ∧
            Attempt.Clean (Expr.arguments room) w args t) ∧
        stmt = .call (x.range.cover t.previousRange) name.text args := by
  unfold readCall
  simp only [Attempt.clean_bind, Attempt.clean_lift, clean_advance hx, clean_name, clean_accept,
    List.mem_singleton]
  constructor
  · rintro ⟨_, _, ⟨rfl, rfl⟩, _, v, ⟨name, hn, hk, rfl⟩, _, _,
      ⟨rfl, opening, ho, hok⟩ | ⟨rfl, rfl, hno⟩, h⟩
    · simp only [if_true, Attempt.clean_bind, Attempt.clean_lift, clean_upToHere,
        Attempt.clean_pure] at h
      obtain ⟨args, _, ha, _, _, ⟨rfl, rfl⟩, rfl, rfl⟩ := h
      exact ⟨name, v, args, hn, hk, .inr ⟨opening, _, ho, hok, ha⟩, rfl⟩
    · simp only [Bool.false_eq_true, if_false, Attempt.clean_bind, Attempt.clean_lift,
        clean_upToHere, Attempt.clean_pure] at h
      obtain ⟨args, _, ⟨rfl, rfl⟩, _, _, ⟨rfl, rfl⟩, rfl, rfl⟩ := h
      exact ⟨name, _, [], hn, hk, .inl ⟨by simpa using hno, rfl, rfl⟩, rfl⟩
  · rintro ⟨name, v, args, hn, hk, h, rfl⟩
    refine ⟨_, _, ⟨rfl, rfl⟩, _, v, ⟨name, hn, hk, rfl⟩, ?_⟩
    rcases h with ⟨hno, rfl, rfl⟩ | ⟨opening, w, ho, hok, ha⟩
    · refine ⟨false, _, .inr ⟨rfl, rfl, by simpa using hno⟩, ?_⟩
      simp only [Bool.false_eq_true, if_false, Attempt.clean_bind, Attempt.clean_lift,
        clean_upToHere, Attempt.clean_pure]
      exact ⟨_, _, ⟨rfl, rfl⟩, _, _, ⟨rfl, rfl⟩, rfl, rfl⟩
    · refine ⟨true, w, .inl ⟨rfl, opening, ho, hok⟩, ?_⟩
      simp only [if_true, Attempt.clean_bind, Attempt.clean_lift, clean_upToHere,
        Attempt.clean_pure]
      exact ⟨args, t, ha, _, _, ⟨rfl, rfl⟩, rfl, rfl⟩

theorem clean_readReturn :
    (readReturn room).Clean s stmt t ↔
      ((u.atEnd || u.kind.isSeparator || u.atBlockEnd) = true ∧ t = u ∧
          stmt = .giveBack (x.range.cover t.previousRange) none) ∨
        ((u.atEnd || u.kind.isSeparator || u.atBlockEnd) = false ∧
          ∃ value, Attempt.Clean (Expr.read room) u value t ∧
            stmt = .giveBack (x.range.cover t.previousRange) (some value)) := by
  unfold readReturn
  simp only [clean_bind, clean_advance hx, clean_ask]
  constructor
  · rintro ⟨_, _, ⟨rfl, rfl⟩, _, _, ⟨rfl, rfl⟩, h⟩
    split at h
    · next hc =>
      simp only [clean_bind, clean_upToHere, Rule.clean_pure] at h
      obtain ⟨_, _, ⟨rfl, rfl⟩, rfl, rfl⟩ := h
      exact .inl ⟨hc, rfl, rfl⟩
    · next hc =>
      simp only [clean_bind, Expr.clean_readOrError, clean_upToHere, Rule.clean_pure] at h
      obtain ⟨value, _, hv, _, _, ⟨rfl, rfl⟩, rfl, rfl⟩ := h
      exact .inr ⟨Bool.eq_false_iff.2 hc, value, hv, rfl⟩
  · intro h
    refine ⟨_, _, ⟨rfl, rfl⟩, _, _, ⟨rfl, rfl⟩, ?_⟩
    rcases h with ⟨hc, rfl, rfl⟩ | ⟨hc, value, hv, rfl⟩
    · rw [if_pos hc]
      simp only [clean_bind, clean_upToHere, Rule.clean_pure]
      exact ⟨_, _, ⟨rfl, rfl⟩, rfl, rfl⟩
    · rw [if_neg (Bool.eq_false_iff.1 hc)]
      simp only [clean_bind, Expr.clean_readOrError, clean_upToHere, Rule.clean_pure]
      exact ⟨value, t, hv, _, _, ⟨rfl, rfl⟩, rfl, rfl⟩

theorem clean_readSql {kind : SqlKind} :
    (readSql kind).Clean s stmt t ↔
      t = u.skipLine ∧ stmt = .sql (x.range.cover t.previousRange) kind := by
  unfold readSql
  simp only [clean_bind, clean_advance hx, clean_skipLine, clean_upToHere, Rule.clean_pure]
  constructor
  · rintro ⟨_, _, ⟨rfl, rfl⟩, _, _, rfl, _, _, ⟨rfl, rfl⟩, rfl, rfl⟩
    exact ⟨rfl, rfl⟩
  · rintro ⟨rfl, rfl⟩
    exact ⟨_, _, ⟨rfl, rfl⟩, (), _, rfl, _, _, ⟨rfl, rfl⟩, rfl, rfl⟩

end

theorem clean_readExpression {room : Nat} {s t : Cursor} {stmt : Stmt Range} :
    Attempt.Clean (readExpression room) s stmt t ↔
      ∃ e, Attempt.Clean (Expr.read room) s e t ∧ stmt = .expression e.range e := by
  unfold readExpression
  simp only [Attempt.clean_bind, Attempt.clean_pure]
  constructor
  · rintro ⟨e, _, he, rfl, rfl⟩
    exact ⟨e, he, rfl⟩
  · rintro ⟨e, he, rfl⟩
    exact ⟨e, t, he, rfl, rfl⟩

end Stmt

/-! ## Declarations -/

theorem Cursor.atRoutine_eq_false {s : Cursor} :
    s.atRoutine = false ↔ s.kind ≠ .keyword .FUNCTION ∧ s.kind ≠ .keyword .PROCEDURE := by
  unfold Cursor.atRoutine
  split
  · next hk => simp [hk]
  · next hk => simp [hk]
  · next hf hp => exact ⟨fun _ => ⟨hf, hp⟩, fun _ => rfl⟩

namespace Item

open Rule

theorem clean_readFunction {room : Nat} {s u t : Cursor} {x : Token} {item : Item Range}
    (hx : s.Takes [x] u) :
    (readFunction room).Clean s item t ↔
      ∃ name v params w returns y body z i, u.Takes [name] v ∧ name.kind = .identifier ∧
        (parameters .function).Clean v params w ∧ returning?.Clean w returns y ∧
        (Stmt.readBlock room).Clean y body z ∧ (routineEnd .function).Clean z i t ∧
        item = .function (x.range.cover t.previousRange) name.text params returns body := by
  unfold readFunction
  simp only [clean_bind, clean_advance hx, clean_name, clean_upToHere, Rule.clean_pure]
  constructor
  · rintro ⟨_, _, ⟨rfl, rfl⟩, _, v, ⟨name, hn, hk, rfl⟩, params, w, hp, returns, y, hr, body, z, hb, i,
      _, hi, _, _, ⟨rfl, rfl⟩, rfl, rfl⟩
    exact ⟨name, v, params, w, returns, y, body, z, i, hn, hk, hp, hr, hb, hi, rfl⟩
  · rintro ⟨name, v, params, w, returns, y, body, z, i, hn, hk, hp, hr, hb, hi, rfl⟩
    exact ⟨_, _, ⟨rfl, rfl⟩, _, v, ⟨name, hn, hk, rfl⟩, params, w, hp, returns, y, hr, body, z, hb, i,
      t, hi, _, _, ⟨rfl, rfl⟩, rfl, rfl⟩

theorem clean_readProcedure {room : Nat} {s u t : Cursor} {x : Token} {item : Item Range}
    (hx : s.Takes [x] u) :
    (readProcedure room).Clean s item t ↔
      ∃ name v params w body z i, u.Takes [name] v ∧ name.kind = .identifier ∧
        (parameters .procedure).Clean v params w ∧ (Stmt.readBlock room).Clean w body z ∧
        (routineEnd .procedure).Clean z i t ∧
        item = .procedure (x.range.cover t.previousRange) name.text params body := by
  unfold readProcedure
  simp only [clean_bind, clean_advance hx, clean_name, clean_upToHere, Rule.clean_pure]
  constructor
  · rintro ⟨_, _, ⟨rfl, rfl⟩, _, v, ⟨name, hn, hk, rfl⟩, params, w, hp, body, z, hb, i, _, hi, _, _,
      ⟨rfl, rfl⟩, rfl, rfl⟩
    exact ⟨name, v, params, w, body, z, i, hn, hk, hp, hb, hi, rfl⟩
  · rintro ⟨name, v, params, w, body, z, i, hn, hk, hp, hb, hi, rfl⟩
    exact ⟨_, _, ⟨rfl, rfl⟩, _, v, ⟨name, hn, hk, rfl⟩, params, w, hp, body, z, hb, i, t, hi, _, _,
      ⟨rfl, rfl⟩, rfl, rfl⟩

/-- The clean readings of an item, by the kind of its first token. -/
theorem clean_read {room : Nat} {s t : Cursor} {item : Item Range} :
    Attempt.Clean (read room) s item t ↔
      (s.kind = .keyword .FUNCTION ∧ (readFunction room).Clean s item t) ∨
      (s.kind = .keyword .PROCEDURE ∧ (readProcedure room).Clean s item t) ∨
      (s.atRoutine = false ∧ s.atBlockEnd = false ∧ ∃ stmt,
        Attempt.Clean (Stmt.read room (Stmt.readBlock room)) s stmt t ∧ item = .statement stmt) := by
  unfold read
  rw [Attempt.clean_bind]
  simp only [Attempt.clean_lift, clean_peek, Cursor.atRoutine_eq_false, Cursor.kind]
  constructor
  · rintro ⟨_, _, ⟨rfl, rfl⟩, h⟩
    split at h
    · next hk => exact .inl ⟨hk, Attempt.clean_lift.1 h⟩
    · next hk => exact .inr (.inl ⟨hk, Attempt.clean_lift.1 h⟩)
    · next hf hp =>
      obtain ⟨_, _, hb, h⟩ := Attempt.clean_bind.1 h
      obtain ⟨rfl, rfl⟩ := clean_ask.1 (Attempt.clean_lift.1 hb)
      split at h
      · exact absurd h Attempt.not_clean_fail
      · next hend =>
        simp only [Attempt.clean_bind, Attempt.clean_pure] at h
        obtain ⟨stmt, _, hs, rfl, rfl⟩ := h
        exact .inr (.inr ⟨⟨hf, hp⟩, Bool.eq_false_iff.2 hend, stmt, hs, rfl⟩)
  · rintro (⟨hk, h⟩ | ⟨hk, h⟩ | ⟨⟨hf, hp⟩, hend, stmt, hs, rfl⟩)
    · refine ⟨_, _, ⟨rfl, rfl⟩, ?_⟩
      rw [hk]
      exact Attempt.clean_lift.2 h
    · refine ⟨_, _, ⟨rfl, rfl⟩, ?_⟩
      rw [hk]
      exact Attempt.clean_lift.2 h
    · refine ⟨_, _, ⟨rfl, rfl⟩, ?_⟩
      split
      · next hk => exact absurd hk hf
      · next hk => exact absurd hk hp
      · refine Attempt.clean_bind.2 ⟨_, _, Attempt.clean_lift.2 (clean_ask.2 ⟨rfl, rfl⟩), ?_⟩
        rw [hend]
        exact Attempt.clean_bind.2 ⟨stmt, t, hs, Attempt.clean_pure.2 ⟨rfl, rfl⟩⟩

end Item

end FourthGen
