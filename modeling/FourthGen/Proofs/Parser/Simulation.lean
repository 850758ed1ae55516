import FourthGen.Proofs.Parser.Agreement

set_option autoImplicit false

/-! # Whole programs side by side

The rules for names, statements, blocks and items agree at aligned cursors. A block ends in both texts
at the same place, also where the first text ends and a declaration follows in the second; so only
the loop over the items of a program goes on in the second text (`Near.readProgram`). -/

namespace FourthGen

namespace Likeness

variable (L : Likeness)

/-! ## Trees -/

/-- Variables whose ranges, names and types stand for each other. -/
structure VarLike (v v' : Variable Range) : Prop where
  range : L.range v.range v'.range
  name : L.text v.name v'.name
  type : L.text v.type v'.type

/-- Statements of the same shape whose ranges and texts stand for each other. -/
inductive StmtLike : Stmt Range → Stmt Range → Prop
  | define {r r' : Range} {vars vars' : List (Variable Range)} (hr : L.range r r')
      (hv : List.Forall₂ L.VarLike vars vars') : StmtLike (.define r vars) (.define r' vars')
  | assign {r r' : Range} {n n' : String} {e e' : Expr Range} (hr : L.range r r')
      (hn : L.text n n') (he : L.ValueLike e e') : StmtLike (.assign r n e) (.assign r' n' e')
  | conditional {r r' : Range} {e e' : Expr Range} {ts ts' es es' : List (Stmt Range)}
      (hr : L.range r r') (he : L.ValueLike e e') (hts : List.Forall₂ StmtLike ts ts')
      (hes : List.Forall₂ StmtLike es es') : StmtLike (.conditional r e ts es) (.conditional r' e' ts' es')
  | whileLoop {r r' : Range} {e e' : Expr Range} {body body' : List (Stmt Range)}
      (hr : L.range r r') (he : L.ValueLike e e') (hb : List.Forall₂ StmtLike body body') :
      StmtLike (.whileLoop r e body) (.whileLoop r' e' body')
  | forLoop {r r' : Range} {body body' : List (Stmt Range)} (hr : L.range r r')
      (hb : List.Forall₂ StmtLike body body') : StmtLike (.forLoop r body) (.forLoop r' body')
  | call {r r' : Range} {n n' : String} {args args' : List (Expr Range)} (hr : L.range r r')
      (hn : L.text n n') (hargs : List.Forall₂ L.ExprLike args args') :
      StmtLike (.call r n args) (.call r' n' args')
  | giveBackNothing {r r' : Range} (hr : L.range r r') :
      StmtLike (.giveBack r none) (.giveBack r' none)
  | giveBack {r r' : Range} {e e' : Expr Range} (hr : L.range r r') (he : L.ValueLike e e') :
      StmtLike (.giveBack r (some e)) (.giveBack r' (some e'))
  | sql {r r' : Range} {kind : SqlKind} (hr : L.range r r') : StmtLike (.sql r kind) (.sql r' kind)
  | expression {r r' : Range} {e e' : Expr Range} (hr : L.range r r') (he : L.ExprLike e e') :
      StmtLike (.expression r e) (.expression r' e')

/-- Items of the same shape whose ranges and texts stand for each other. -/
inductive ItemLike : Item Range → Item Range → Prop
  | function {r r' : Range} {n n' : String} {params params' : List (Variable Range)}
      {returns returns' : Option String} {body body' : List (Stmt Range)} (hr : L.range r r')
      (hn : L.text n n') (hp : List.Forall₂ L.VarLike params params')
      (ht : Option.Rel L.text returns returns') (hb : List.Forall₂ L.StmtLike body body') :
      ItemLike (.function r n params returns body) (.function r' n' params' returns' body')
  | procedure {r r' : Range} {n n' : String} {params params' : List (Variable Range)}
      {body body' : List (Stmt Range)} (hr : L.range r r') (hn : L.text n n')
      (hp : List.Forall₂ L.VarLike params params') (hb : List.Forall₂ L.StmtLike body body') :
      ItemLike (.procedure r n params body) (.procedure r' n' params' body')
  | statement {s s' : Stmt Range} (h : L.StmtLike s s') : ItemLike (.statement s) (.statement s')

variable {L} {s s' : Cursor}

/-! ## Names and types -/

theorem Inside.name (h : L.Inside s s') (role : NameRole) :
    L.Agrees s s' (Rule.name role) (Rule.name role) fun n n' t t' => L.text n n' ∧ L.Inside t t' := by
  unfold Rule.name
  refine (h.expect rfl (by decide) _).bind ?_
  intro o o' t t' hpost
  obtain ⟨⟨hrel, hkind⟩, ht⟩ := hpost
  cases hrel with
  | none => exact agrees_pure ⟨L.text_empty, ht⟩
  | some hx => exact agrees_pure ⟨L.token_text hx (by simp [hkind _ rfl]), ht⟩

/-- The values that are there stand for each other. -/
theorem forall₂_filterMap {α β : Type} {V : α → α → Prop} {W : β → β → Prop} {f : α → Option β}
    (hf : ∀ a b, V a b → Option.Rel W (f a) (f b)) {as bs : List α} (h : List.Forall₂ V as bs) :
    List.Forall₂ W (as.filterMap f) (bs.filterMap f) := by
  induction h with
  | nil => exact .nil
  | @cons a b as bs hab _ ih =>
      have hrel := hf a b hab
      rw [List.filterMap_cons, List.filterMap_cons]
      cases ha : f a with
      | none =>
          rw [ha] at hrel
          cases hb : f b with
          | none => exact ih
          | some d =>
              rw [hb] at hrel
              cases hrel
      | some c =>
          rw [ha] at hrel
          cases hb : f b with
          | none =>
              rw [hb] at hrel
              cases hrel
          | some d =>
              rw [hb] at hrel
              cases hrel with
              | some hcd => exact .cons hcd ih

theorem Inside.typeSizes (h : L.Inside s s') (hc : s.check (.symbol .leftParen) = true) :
    L.Agrees s s' Rule.typeSizes Rule.typeSizes
      fun ts ts' t t' => List.Forall₂ L.text ts ts' ∧ L.Inside t t' := by
  obtain ⟨x, hx, hxk⟩ := Cursor.check_iff.1 hc
  have hk : s.kind = .symbol .leftParen := hx.kind_eq.trans hxk
  unfold Rule.typeSizes
  refine (agrees_advance h.1 (by rw [hk]; rfl) (by rw [hk]; decide)).bind fun _ _ t t' ht => ?_
  have hsize ⦃t t' : Cursor⦄ (ht : L.Inside t t') :
      L.Agrees t t' (Rule.expect .numberLiteral .missingTypeSize)
        (Rule.expect .numberLiteral .missingTypeSize)
        fun o o' u u' => Option.Rel L.text (o.map (·.text)) (o'.map (·.text)) ∧ L.Inside u u' := by
    refine (ht.expect rfl (by decide) _).mono ?_
    rintro o o' u u' ⟨⟨hrel, hkind⟩, hu⟩
    cases hrel with
    | none => exact ⟨.none, hu⟩
    | some hx => exact ⟨.some (L.token_text hx (by simp [hkind _ rfl])), hu⟩
  have hmore (o o' : Option Token) (hrel : Option.Rel L.text (o.map (·.text)) (o'.map (·.text))) :
      o'.isSome = o.isSome := by
    cases o <;> cases o' <;> cases hrel <;> rfl
  refine (ht.2.commaList hmore hsize).bind fun os os' u u' hu => ?_
  refine (hu.2.expect rfl (by decide) _).bind fun _ _ v v' hv => ?_
  exact agrees_pure ⟨forall₂_filterMap (fun _ _ hrel => hrel) hu.1, hv.2⟩

theorem Inside.atSizes (h : L.Inside s s') :
    (s'.check (.symbol .leftParen) && (s'.peekNth 1).kind == .numberLiteral) =
      (s.check (.symbol .leftParen) && (s.peekNth 1).kind == .numberLiteral) := by
  rw [h.1.check]
  cases hc : s.check (.symbol .leftParen) with
  | false => rfl
  | true =>
      obtain ⟨x, hx, hxk⟩ := Cursor.check_iff.1 hc
      have hk : s.kind = .symbol .leftParen := hx.kind_eq.trans hxk
      rw [h.1.peekNth_one (by rw [hk]; rfl) hx.atEnd_eq]

theorem isSeparator_of_dataType {k : TokenKind} (h : (k.isDataType || k == .identifier) = true) :
    k.isSeparator = false ∧ k ≠ .eof ∧ k ≠ .stringLiteral := by
  cases k with
  | keyword word => exact ⟨rfl, by simp⟩
  | identifier => exact ⟨rfl, by simp⟩
  | _ => cases h

theorem Inside.dataType (h : L.Inside s s') :
    L.Agrees s s' Rule.dataType Rule.dataType fun n n' t t' => L.text n n' ∧ L.Inside t t' := by
  have hpeek := h.1.peek
  have hk : s'.peek.kind = s.peek.kind := h.1.kind
  unfold Rule.dataType
  refine agrees_ask ?_
  rw [hk]
  split
  · next htype =>
    obtain ⟨hs, he, hquoted⟩ := isSeparator_of_dataType htype
    refine (agrees_advance h.1 hs he).bind fun _ _ t t' ht => ?_
    refine agrees_ask ?_
    rw [ht.2.atSizes]
    split
    · next hsizes =>
      rw [Bool.and_eq_true] at hsizes
      refine (ht.2.typeSizes hsizes.1).bind fun ts ts' u u' hu => ?_
      exact agrees_pure ⟨L.text_sized (L.token_text hpeek hquoted) hu.1, hu.2⟩
    · exact agrees_pure ⟨L.token_text hpeek hquoted, ht.2⟩
  · exact (h.complain _).bind fun _ _ t t' ht => agrees_pure ⟨L.text_unknown, ht⟩

theorem Inside.declared (h : L.Inside s s') (role : NameRole) :
    L.Agrees s s' (Rule.declared? role) (Rule.declared? role)
      fun v v' t t' => Option.Rel L.VarLike v v' ∧ L.Inside t t' := by
  unfold Rule.declared?
  refine (h.expect rfl (by decide) _).bind ?_
  intro o o' t t' hpost
  obtain ⟨⟨hrel, hkind⟩, ht⟩ := hpost
  cases hrel with
  | none => exact agrees_pure ⟨.none, ht⟩
  | some hx =>
      refine ht.dataType.bind fun n n' u u' hu => ?_
      refine (hu.2.upToHere hx (by rw [hkind _ rfl]; rfl)).bind fun r r' v v' hv => ?_
      exact agrees_pure ⟨.some ⟨hv.1, L.token_text hx (by simp [hkind _ rfl]), hu.1⟩, hv.2⟩

theorem Inside.declaredList (h : L.Inside s s') (role : NameRole) :
    L.Agrees s s' (Rule.declaredList role) (Rule.declaredList role)
      fun vs vs' t t' => List.Forall₂ L.VarLike vs vs' ∧ L.Inside t t' := by
  unfold Rule.declaredList
  refine (h.commaList (fun _ _ _ => rfl) fun _ _ ht => ht.declared role).bind fun os os' t t' ht => ?_
  exact agrees_pure ⟨forall₂_filterMap (fun _ _ hrel => hrel) ht.1, ht.2⟩

theorem Inside.parameters (h : L.Inside s s') (routine : Routine) :
    L.Agrees s s' (Rule.parameters routine) (Rule.parameters routine)
      fun vs vs' t t' => List.Forall₂ L.VarLike vs vs' ∧ L.Inside t t' := by
  have hclose (vs vs' : List (Variable Range)) (t t' : Cursor)
      (hvs : List.Forall₂ L.VarLike vs vs' ∧ L.Inside t t') :
      L.Agrees t t'
        (do let _ ← Rule.expect (.symbol .rightParen) (.missingCloser .parameters); return vs)
        (do let _ ← Rule.expect (.symbol .rightParen) (.missingCloser .parameters); return vs')
        fun vs vs' t t' => List.Forall₂ L.VarLike vs vs' ∧ L.Inside t t' :=
    (hvs.2.expect rfl (by decide) _).bind fun _ _ _ _ hu => agrees_pure ⟨hvs.1, hu.2⟩
  unfold Rule.parameters
  refine (h.expect rfl (by decide) _).bind ?_
  intro o o' t t' hpost
  obtain ⟨⟨hrel, -⟩, ht⟩ := hpost
  cases hrel with
  | none => exact agrees_pure ⟨.nil, ht⟩
  | some hx =>
      refine agrees_ask ?_
      rw [ht.1.check]
      split
      · exact Agrees.bind (agrees_pure ⟨.nil, ht⟩) hclose
      · exact (ht.declaredList .parameter).bind hclose

theorem Inside.returning (h : L.Inside s s') :
    L.Agrees s s' Rule.returning? Rule.returning?
      fun o o' t t' => Option.Rel L.text o o' ∧ L.Inside t t' := by
  unfold Rule.returning?
  refine agrees_ask ?_
  rw [h.1.atWord]
  split
  · next hw =>
    have hk := Cursor.kind_of_atWord hw
    refine (agrees_advance h.1 (by rw [hk]; rfl) (by rw [hk]; decide)).bind fun _ _ t t' ht => ?_
    exact ht.2.dataType.bind fun n n' u u' hu => agrees_pure ⟨.some hu.1, hu.2⟩
  · exact agrees_pure ⟨.none, h⟩

/-! ## Behind blocks and statements -/

variable (L) in
/-- Behind a block: no separators are left, and the next token should be one that closes it. -/
def AfterBlock (s s' : Cursor) : Prop := L.AtStart s s' ∧ L.Begun s s'

variable (L) in
/-- Behind a statement or an item, before the separators that follow it. -/
def AfterStatement (s s' : Cursor) : Prop := L.Near s s' ∧ L.Begun s s'

theorem Inside.afterStatement (h : L.Inside s s') : L.AfterStatement s s' := ⟨h.1.near, h.2⟩

theorem AfterBlock.afterStatement (h : L.AfterBlock s s') : L.AfterStatement s s' := ⟨h.1.near, h.2⟩

theorem AfterStatement.upToHere {x x' : Token} (h : L.AfterStatement s s') (hx : L.token x x')
    (hs : x.kind.isSeparator = false) :
    L.Agrees s s' (Rule.upToHere x) (Rule.upToHere x')
      fun r r' t t' => L.range r r' ∧ L.AfterStatement t t' := by
  refine (h.2.upToHere hx hs).mono ?_
  intro r r' t t' hpost
  obtain ⟨hr, rfl, rfl⟩ := hpost
  exact ⟨hr, h⟩

/-- Where a token is left in the first text, the cursors are aligned. -/
theorem AtStart.ready (h : L.AtStart s s') (he : s.atEnd = false) : L.Ready s s' := by
  obtain ⟨h, hs⟩ | h := h
  · exact ⟨h, .inr ⟨hs, he⟩⟩
  · rw [h.atEnd] at he
    cases he

theorem AtStart.atWord (h : L.AtStart s s') (word : String) : s'.atWord word = s.atWord word := by
  obtain ⟨h, -⟩ | h := h
  · exact h.atWord word
  · have hk : (s.peek.kind == .identifier) = false := by
      rw [Cursor.peek, h.ahead, List.headD_nil, h.eof]
      rfl
    have hk' : (s'.kind == .identifier) = false := by
      rcases h.routine with hr | hr <;> rw [hr] <;> rfl
    rw [Cursor.kind] at hk'
    rw [Cursor.atWord, Cursor.atWord, Token.isWord, Token.isWord, hk, hk']
    rfl

/-- A token of a kind that starts no declaration stands in both texts or in none. -/
theorem AtStart.check (h : L.AtStart s s') {k : TokenKind}
    (hk : k ≠ .keyword .FUNCTION ∧ k ≠ .keyword .PROCEDURE) : s'.check k = s.check k := by
  obtain ⟨h, -⟩ | h := h
  · exact h.check k
  · have hnone : s.check k = false := by
      rw [Cursor.check, h.ahead]
      rfl
    rw [hnone, Bool.eq_false_iff]
    intro hc
    obtain ⟨x, hx, rfl⟩ := Cursor.check_iff.1 hc
    rw [← hx.kind_eq] at hk
    exact h.routine.elim hk.1 hk.2

theorem AfterBlock.complain (h : L.AfterBlock s s') (c : Complaint) :
    L.Agrees s s' (Rule.complain c) (Rule.complain c) fun _ _ t t' => L.AfterBlock t t' := by
  have herror : L.error (.about s.peek c) (.about s'.peek c) := by
    obtain ⟨⟨hal, -⟩ | hstop, -⟩ := h
    · exact L.token_error hal.peek c
    · rw [Cursor.peek, hstop.ahead]
      exact L.stop_error hstop.stop c
  refine (agrees_complain c rfl rfl herror).mono ?_
  intro _ _ t t' hpost
  obtain ⟨rfl, rfl⟩ := hpost
  exact h

/-- A word behind a block, if it stands there in the one text, is passed in both. -/
theorem AfterBlock.accept (h : L.AfterBlock s s') {k : Keyword} (hk : k ≠ .FUNCTION ∧ k ≠ .PROCEDURE) :
    L.Agrees s s' (Rule.accept [.keyword k]) (Rule.accept [.keyword k])
      fun b b' t t' => b' = b ∧ if b then L.Inside t t' else L.AfterBlock t t' := by
  unfold Rule.accept
  refine agrees_ask ?_
  simp only [List.any_cons, List.any_nil, Bool.or_false]
  rw [h.1.check (by simpa using hk)]
  cases hc : s.check (.keyword k) with
  | false => exact agrees_pure ⟨rfl, h⟩
  | true =>
      obtain ⟨x, hx, hxk⟩ := Cursor.check_iff.1 hc
      have hsk : s.kind = .keyword k := hx.kind_eq.trans hxk
      have hal := (h.1.ready hx.atEnd_eq).1
      refine (agrees_advance hal (by rw [hsk]; rfl) (by rw [hsk]; simp)).bind ?_
      intro _ _ t t' hpost
      exact agrees_pure ⟨rfl, hpost.2⟩

/-- Both texts move on over a word behind a block. -/
theorem AfterBlock.advance (h : L.AfterBlock s s') {word : String} (hw : s.atWord word = true) :
    L.Inside s.advance s'.advance ∧ (s'.peekNth 1).kind = (s.peekNth 1).kind ∧
      s.advance.kind = (s.peekNth 1).kind := by
  have hk := Cursor.kind_of_atWord hw
  have hend : s.atEnd = false := by
    obtain ⟨⟨hal, -⟩ | hstop, -⟩ := h
    · exact hal.not_atEnd (by rw [hk]; decide)
    · rw [Cursor.kind, Cursor.peek, hstop.ahead, List.headD_nil, hstop.eof] at hk
      cases hk
  have hal := (h.1.ready hend).1
  obtain ⟨x, -, hx⟩ := Cursor.exists_takes_of_atEnd hend
  exact ⟨(hal.advance (by rw [hk]; rfl) hend).2, hal.atWord_next hw, by rw [hx.peekNth_one]; rfl⟩

theorem AfterBlock.compoundEnd (h : L.AfterBlock s s') (c : Compound) :
    L.Agrees s s' (Rule.compoundEnd c) (Rule.compoundEnd c) fun _ _ t t' => L.AfterStatement t t' := by
  unfold Rule.compoundEnd
  refine (h.accept (by cases c <;> decide)).bind ?_
  intro closed closed' t t' hpost
  obtain ⟨rfl, ht⟩ := hpost
  cases closed' with
  | true => exact agrees_pure ht.afterStatement
  | false =>
      refine agrees_ask ?_
      rw [ht.1.atWord]
      cases hw : t.atWord "END" with
      | false => exact (ht.complain _).mono fun _ _ _ _ hu => hu.afterStatement
      | true =>
          obtain ⟨hin, hnext, hkind⟩ := ht.advance hw
          rw [hnext]
          cases hk : (t.peekNth 1).kind == .keyword c.opener with
          | false => exact (ht.complain _).mono fun _ _ _ _ hu => hu.afterStatement
          | true =>
              rw [beq_iff_eq] at hk
              rw [hk] at hkind
              have hend := hin.1.not_atEnd (by rw [hkind]; simp)
              exact ⟨.nil, (hin.1.advance (by rw [hkind]; rfl) hend).2.afterStatement⟩

theorem AfterBlock.routineEnd (h : L.AfterBlock s s') (r : Routine) :
    L.Agrees s s' (Rule.routineEnd r) (Rule.routineEnd r) fun _ _ t t' => L.AfterStatement t t' := by
  unfold Rule.routineEnd
  refine agrees_ask ?_
  rw [h.1.atWord]
  cases hw : s.atWord r.closingWord with
  | true => exact ⟨.nil, (h.advance hw).1.afterStatement⟩
  | false =>
      refine agrees_ask ?_
      rw [h.1.atWord]
      cases hend : s.atWord "END" with
      | false => exact (h.complain _).mono fun _ _ _ _ hu => hu.afterStatement
      | true =>
          have hpass : L.Agrees s s' Rule.advance Rule.advance fun _ _ t t' => L.Inside t t' :=
            ⟨.nil, (h.advance hend).1⟩
          refine hpass.bind fun _ _ t t' ht => ?_
          refine (ht.accept rfl (by simp)).bind fun _ _ u u' hu => ?_
          exact agrees_pure hu.2.afterStatement

/-! ## Statements -/

/-- The first word of a statement or of a declaration is consumed in both texts. -/
theorem Aligned.start (h : L.Aligned s s') {k : Keyword} (hk : s.kind = .keyword k) :
    L.Agrees s s' Rule.advance Rule.advance
      fun x x' t t' => (L.token x x' ∧ x.kind.isSeparator = false) ∧ L.Inside t t' := by
  refine (agrees_advance h (by rw [hk]; rfl) (by rw [hk]; simp)).mono ?_
  intro x x' t t' hpost
  obtain ⟨⟨rfl, hx⟩, ht⟩ := hpost
  have hs : s.peek.kind = .keyword k := hk
  exact ⟨⟨hx, by rw [hs]; rfl⟩, ht⟩

theorem Inside.skipLine (h : L.Inside s s') :
    L.Agrees s s' Rule.skipLine Rule.skipLine fun _ _ t t' => L.Inside t t' :=
  ⟨.nil, h.ready.skipLine⟩

variable (L) in
/-- Within a line, `block` reads blocks that stand for each other. -/
def BlocksAgree (block : Rule (List (Stmt Range))) : Prop :=
  ∀ ⦃s s' : Cursor⦄, L.Inside s s' → L.Agrees s s' block block
    fun ss ss' t t' => List.Forall₂ L.StmtLike ss ss' ∧ L.AfterBlock t t'

section

variable {k : Keyword} {room : Nat} {block : Rule (List (Stmt Range))}

theorem Aligned.readDefine (h : L.Aligned s s') (hk : s.kind = .keyword k) :
    L.Agrees s s' Stmt.readDefine Stmt.readDefine
      fun a b t t' => L.StmtLike a b ∧ L.AfterStatement t t' := by
  unfold Stmt.readDefine
  refine (h.start hk).bind fun x x' t t' ht => ?_
  refine (ht.2.declaredList .target).bind fun vs vs' u u' hu => ?_
  refine (hu.2.afterStatement.upToHere ht.1.1 ht.1.2).bind fun r r' v v' hv => ?_
  exact agrees_pure ⟨.define hv.1 hu.1, hv.2⟩

theorem Aligned.readAssign (h : L.Aligned s s') (hk : s.kind = .keyword k) :
    L.Agrees s s' (Stmt.readAssign room) (Stmt.readAssign room)
      fun a b t t' => L.StmtLike a b ∧ L.AfterStatement t t' := by
  unfold Stmt.readAssign
  refine (h.start hk).bind fun x x' t t' ht => ?_
  refine (ht.2.name .target).bind fun n n' u u' hu => ?_
  refine (hu.2.expect rfl (by decide) _).bind fun _ _ v v' hv => ?_
  refine (hv.2.readOrError room).bind fun e e' w w' hw => ?_
  refine (hw.2.afterStatement.upToHere ht.1.1 ht.1.2).bind fun r r' y y' hy => ?_
  exact agrees_pure ⟨.assign hy.1 hu.1 hw.1, hy.2⟩

theorem Aligned.readConditional (hblock : L.BlocksAgree block) (h : L.Aligned s s')
    (hk : s.kind = .keyword k) :
    L.Agrees s s' (Stmt.readConditional room block) (Stmt.readConditional room block)
      fun a b t t' => L.StmtLike a b ∧ L.AfterStatement t t' := by
  unfold Stmt.readConditional
  refine (h.start hk).bind fun x x' t t' ht => ?_
  refine (ht.2.readOrError room).bind fun e e' u u' hu => ?_
  refine (hu.2.expect rfl (by decide) _).bind fun _ _ v v' hv => ?_
  refine (hblock hv.2).bind fun ts ts' w w' hw => ?_
  -- what follows the second branch, which may be empty
  have hclose (es es' : List (Stmt Range)) (y y' : Cursor)
      (hy : List.Forall₂ L.StmtLike es es' ∧ L.AfterBlock y y') :
      L.Agrees y y'
        (do Rule.compoundEnd .conditional; return .conditional (← Rule.upToHere x) e ts es)
        (do Rule.compoundEnd .conditional; return .conditional (← Rule.upToHere x') e' ts' es')
        fun a b t t' => L.StmtLike a b ∧ L.AfterStatement t t' := by
    refine (hy.2.compoundEnd .conditional).bind fun _ _ z z' hz => ?_
    refine (hz.upToHere ht.1.1 ht.1.2).bind fun r r' o o' ho => ?_
    exact agrees_pure ⟨.conditional ho.1 hu.1 hw.1 hy.1, ho.2⟩
  refine (hw.2.accept (by decide)).bind ?_
  intro more more' y y' hpost
  obtain ⟨rfl, hy⟩ := hpost
  cases more' with
  | true => exact (hblock hy).bind hclose
  | false => exact Agrees.bind (agrees_pure ⟨.nil, hy⟩) hclose

theorem Aligned.readWhile (hblock : L.BlocksAgree block) (h : L.Aligned s s')
    (hk : s.kind = .keyword k) :
    L.Agrees s s' (Stmt.readWhile room block) (Stmt.readWhile room block)
      fun a b t t' => L.StmtLike a b ∧ L.AfterStatement t t' := by
  unfold Stmt.readWhile
  refine (h.start hk).bind fun x x' t t' ht => ?_
  refine (ht.2.readOrError room).bind fun e e' u u' hu => ?_
  refine (hblock hu.2).bind fun ss ss' v v' hv => ?_
  refine (hv.2.compoundEnd .whileLoop).bind fun _ _ w w' hw => ?_
  refine (hw.upToHere ht.1.1 ht.1.2).bind fun r r' y y' hy => ?_
  exact agrees_pure ⟨.whileLoop hy.1 hu.1 hv.1, hy.2⟩

theorem Aligned.readFor (hblock : L.BlocksAgree block) (h : L.Aligned s s')
    (hk : s.kind = .keyword k) :
    L.Agrees s s' (Stmt.readFor block) (Stmt.readFor block)
      fun a b t t' => L.StmtLike a b ∧ L.AfterStatement t t' := by
  unfold Stmt.readFor
  refine (h.start hk).bind fun x x' t t' ht => ?_
  refine ht.2.skipLine.bind fun _ _ u u' hu => ?_
  refine (hblock hu).bind fun ss ss' v v' hv => ?_
  refine (hv.2.compoundEnd .forLoop).bind fun _ _ w w' hw => ?_
  refine (hw.upToHere ht.1.1 ht.1.2).bind fun r r' y y' hy => ?_
  exact agrees_pure ⟨.forLoop hy.1 hv.1, hy.2⟩

theorem Aligned.readReturn (h : L.Aligned s s') (hk : s.kind = .keyword k) :
    L.Agrees s s' (Stmt.readReturn room) (Stmt.readReturn room)
      fun a b t t' => L.StmtLike a b ∧ L.AfterStatement t t' := by
  unfold Stmt.readReturn
  refine (h.start hk).bind fun x x' t t' ht => ?_
  refine agrees_ask ?_
  rw [ht.2.1.atEnd, ht.2.1.kind, ht.2.1.atBlockEnd]
  split
  · refine (ht.2.afterStatement.upToHere ht.1.1 ht.1.2).bind fun r r' u u' hu => ?_
    exact agrees_pure ⟨.giveBackNothing hu.1, hu.2⟩
  · refine (ht.2.readOrError room).bind fun e e' u u' hu => ?_
    refine (hu.2.afterStatement.upToHere ht.1.1 ht.1.2).bind fun r r' v v' hv => ?_
    exact agrees_pure ⟨.giveBack hv.1 hu.1, hv.2⟩

theorem Aligned.readSql (h : L.Aligned s s') (hk : s.kind = .keyword k) (kind : SqlKind) :
    L.Agrees s s' (Stmt.readSql kind) (Stmt.readSql kind)
      fun a b t t' => L.StmtLike a b ∧ L.AfterStatement t t' := by
  unfold Stmt.readSql
  refine (h.start hk).bind fun x x' t t' ht => ?_
  refine ht.2.skipLine.bind fun _ _ u u' hu => ?_
  refine (hu.afterStatement.upToHere ht.1.1 ht.1.2).bind fun r r' v v' hv => ?_
  exact agrees_pure ⟨.sql hv.1, hv.2⟩

theorem Aligned.readCall (h : L.Aligned s s') (hk : s.kind = .keyword k) :
    L.TryAgrees s s' (Stmt.readCall room) (Stmt.readCall room)
      fun a b t t' => L.StmtLike a b ∧ L.AfterStatement t t' := by
  unfold Stmt.readCall
  refine (h.start hk).lift.bind fun x x' t t' hx ht => ?_
  refine (ht.name _).lift.bind fun n n' u u' hn hu => ?_
  -- what follows the arguments, which may be missing
  have hclose (es es' : List (Expr Range)) (v v' : Cursor) (hes : List.Forall₂ L.ExprLike es es')
      (hv : L.Inside v v') :
      L.TryAgrees v v' (do return .call (← Rule.upToHere x) n es)
        (do return .call (← Rule.upToHere x') n' es')
        fun a b t t' => L.StmtLike a b ∧ L.AfterStatement t t' := by
    refine (hv.upToHere hx.1 hx.2).lift.bind fun r r' w w' hr hw => ?_
    exact tryAgrees_pure ⟨.call hr hn hes, hw.afterStatement⟩
  refine (hu.accept rfl (by decide)).lift.bind fun called called' v v' heq hv => ?_
  subst heq
  cases called' with
  | true => exact (hv.argumentsBy fun _ _ hw => hw.read room).bind hclose
  | false =>
      have hnone : L.TryAgrees v v' (pure []) (pure [])
          fun es es' w w' => List.Forall₂ L.ExprLike es es' ∧ L.Inside w w' :=
        tryAgrees_pure ⟨.nil, hv⟩
      exact hnone.bind hclose

theorem Ready.readExpression (h : L.Ready s s') :
    L.TryAgrees s s' (Stmt.readExpression room) (Stmt.readExpression room)
      fun a b t t' => L.StmtLike a b ∧ L.AfterStatement t t' := by
  unfold Stmt.readExpression
  refine (h.read room).bind fun e e' t t' he ht => ?_
  exact tryAgrees_pure ⟨.expression he.range he, ht.afterStatement⟩

theorem Ready.readStatement (hblock : L.BlocksAgree block) (h : L.Ready s s') :
    L.TryAgrees s s' (Stmt.read room block) (Stmt.read room block)
      fun a b t t' => L.StmtLike a b ∧ L.AfterStatement t t' := by
  have hk : s'.peek.kind = s.peek.kind := h.1.kind
  unfold Stmt.read
  refine tryAgrees_ask ?_
  rw [hk]
  split
  · next hx => exact (h.1.readDefine hx).lift
  · next hx => exact (h.1.readAssign hx).lift
  · next hx => exact (h.1.readConditional hblock hx).lift
  · next hx => exact (h.1.readWhile hblock hx).lift
  · next hx => exact (h.1.readFor hblock hx).lift
  · next hx => exact h.1.readCall hx
  · next hx => exact (h.1.readReturn hx).lift
  · next hx => exact (h.1.readSql hx .select).lift
  · next hx => exact (h.1.readSql hx .insert).lift
  · next hx => exact (h.1.readSql hx .update).lift
  · next hx => exact (h.1.readSql hx .delete).lift
  · exact h.readExpression

end

/-! ## Rounds -/

theorem Ready.recovering {α : Type} {p : Attempt α} {V : α → α → Prop} (h : L.Ready s s')
    (hp : L.TryAgrees s s' p p fun a b t t' => V a b ∧ L.AfterStatement t t') :
    L.Agrees s s' (Attempt.recovering p) (Attempt.recovering p)
      fun o o' t t' => Option.Rel V o o' ∧ L.AfterStatement t t' := by
  unfold Attempt.recovering
  refine Agrees.bind hp ?_
  intro a b t t' hpost
  cases hpost with
  | ok hpost => exact agrees_pure ⟨.some hpost.1, hpost.2⟩
  | error he _ ht hb =>
      have hready : L.Ready t t' := by
        obtain hb | ⟨rfl, rfl⟩ := hb
        · exact ⟨ht, .inl hb⟩
        · exact h
      exact ⟨.cons he .nil, .none, hready.synchronize⟩

/-- What the rounds in the first text read is read in the second text, too, and `u'` is where the
    second text goes on. -/
structure Continues {α : Type} (L : Likeness) (V : α → α → Prop) (p : Rule (List α)) (s s' u' : Cursor)
    (vs : List α) (es : List SyntaxError) : Prop where
  value : List.Forall₂ V (p.run s).value vs
  recorded : List.Forall₂ L.error (p.run s).recorded es
  atStart : L.AtStart (p.run s).rest u'
  begun : L.Begun s s' → L.Begun (p.run s).rest u'
  reaches : s'.Reaches u'
  run_eq : p.run s' = ⟨vs ++ (p.run u').value, es ++ (p.run u').recorded, (p.run u').rest⟩

section

variable {α : Type} {stop : Cursor → Bool} {round : Rule (Option α)} {V : α → α → Prop}

/-- Rounds that start with separators start behind them. -/
theorem run_rounds_skipSeparators (hadv : round.Advances)
    (h : s.skipSeparators.skipSeparators = s.skipSeparators) :
    (Rule.rounds stop round).run s = (Rule.rounds stop round).run s.skipSeparators := by
  rw [Rule.run_rounds_of_advances hadv s, Rule.run_rounds_of_advances hadv s.skipSeparators, h]

theorem forall₂_toList {o o' : Option α} (h : Option.Rel V o o') :
    List.Forall₂ V o.toList o'.toList := by
  cases h with
  | none => exact .nil
  | some h => exact .cons h .nil

/-- The rounds in the first text are the first of those in the second. -/
theorem Near.rounds (hadv : round.Advances) (hstop : ∀ ⦃t t'⦄, L.Aligned t t' → stop t' = stop t)
    (hround : ∀ ⦃t t'⦄, L.Ready t t' → L.Agrees t t' round round
      fun o o' u u' => Option.Rel V o o' ∧ L.AfterStatement u u')
    (h : L.Near s s') :
    (((Rule.rounds stop round).run s).rest.atEnd || stop ((Rule.rounds stop round).run s).rest) = true ∧
      ∃ vs es u', L.Continues V (Rule.rounds stop round) s s' u' vs es := by
  -- along what is left of the first text, of which every round consumes a token
  obtain ⟨n, hn⟩ : ∃ n, s.ahead.length = n := ⟨_, rfl⟩
  induction n using Nat.strongRecOn generalizing s s' with
  | ind n ih =>
    have hrun := @Rule.run_rounds_of_advances α stop round hadv s
    cases hend : s.skipSeparators.atEnd || stop s.skipSeparators with
    | true =>
        rw [hend, if_pos rfl] at hrun
        rw [hrun]
        refine ⟨hend, [], [], s'.skipSeparators, ?_⟩
        refine ⟨?_, ?_, ?_, ?_, s'.reaches_skipSeparators, ?_⟩
        · rw [hrun]
          exact .nil
        · rw [hrun]
          exact .nil
        · rw [hrun]
          exact h
        · rw [hrun]
          exact fun hb => hb.skipSeparators
        · exact run_rounds_skipSeparators hadv h.skipSeparators_eq.2
    | false =>
        rw [hend, if_neg (by simp)] at hrun
        have hend := Bool.or_eq_false_iff.1 hend
        have hready := AtStart.ready h hend.1
        obtain ⟨hrecorded, hvalue, hafter⟩ := hround hready
        have hlt := Nat.lt_of_lt_of_le (hadv _ hend.1) s.reaches_skipSeparators.length_le
        obtain ⟨hfin, vs, es, u', hrest⟩ := ih _ (by omega) hafter.1 rfl
        have hrun' := @Rule.run_rounds_of_advances α stop round hadv s'
        rw [hready.1.atEnd, hstop hready.1, hend.1, hend.2, Bool.or_false, if_neg (by simp)] at hrun'
        rw [hrun]
        refine ⟨hfin, (round.run s'.skipSeparators).value.toList ++ vs,
          (round.run s'.skipSeparators).recorded ++ es, u', ?_⟩
        refine ⟨?_, ?_, ?_, ?_, ?_, ?_⟩
        · rw [hrun]
          exact List.rel_append (forall₂_toList hvalue) hrest.value
        · rw [hrun]
          exact List.rel_append hrecorded hrest.recorded
        · rw [hrun]
          exact hrest.atStart
        · rw [hrun]
          exact fun _ => hrest.begun hafter.2
        · exact s'.reaches_skipSeparators.trans ((round.reaches _).trans hrest.reaches)
        · rw [hrun', List.append_assoc, List.append_assoc]
          simp only [hrest.run_eq]

end

/-! ## Blocks -/

/-- A block ends in both texts. Without room for it, the block is skipped in both; with room, the
    rounds over its statements stop before a declaration, so also where the first text ends. -/
theorem blocksAgree (room : Nat) : L.BlocksAgree (Stmt.readBlock room) := by
  induction room with
  | zero =>
      intro s s' h
      rw [Stmt.readBlock]
      refine (h.complain _).bind fun _ _ t t' ht => ?_
      have hskip : L.Agrees t t' Rule.skipBlock Rule.skipBlock fun _ _ u u' => L.AfterBlock u u' :=
        ⟨.nil, ht.1.near.skipBlock ht.2 0⟩
      exact hskip.bind fun _ _ u u' hu => agrees_pure ⟨.nil, hu⟩
  | succ room ih =>
      intro s s' h
      rw [Stmt.readBlock, Rule.defer_eq]
      have hstop ⦃t t' : Cursor⦄ (ht : L.Aligned t t') : Stmt.stopsBlock t' = Stmt.stopsBlock t := by
        rw [Stmt.stopsBlock, Stmt.stopsBlock, ht.atBlockEnd, ht.atRoutine]
      obtain ⟨hend, ss, es, u', hc⟩ := h.1.near.rounds (Stmt.advances_round room _) hstop
        fun _ _ ht => ht.recovering (ht.readStatement ih)
      -- the second text stops there as well, if only before a declaration
      have hend' : (u'.atEnd || Stmt.stopsBlock u') = true := by
        obtain ⟨hal, -⟩ | hst := hc.atStart
        · rw [hal.atEnd, hstop hal, hend]
        · rw [Stmt.stopsBlock, hst.atRoutine, Bool.or_true, Bool.or_true]
      have hdone := @Rule.run_rounds_of_advances _ Stmt.stopsBlock _
        (Stmt.advances_round room (Stmt.readBlock room)) u'
      rw [hc.atStart.skipSeparators_eq.2, if_pos hend'] at hdone
      have hrun := hc.run_eq
      rw [hdone, List.append_nil, List.append_nil] at hrun
      unfold Agrees
      rw [hrun]
      exact ⟨hc.recorded, hc.value, hc.atStart, hc.begun h.2⟩

/-! ## Declarations and programs -/

theorem Aligned.readFunction (h : L.Aligned s s') {k : Keyword} (hk : s.kind = .keyword k)
    (room : Nat) :
    L.Agrees s s' (Item.readFunction room) (Item.readFunction room)
      fun i i' t t' => L.ItemLike i i' ∧ L.AfterStatement t t' := by
  unfold Item.readFunction
  refine (h.start hk).bind fun x x' t t' ht => ?_
  refine (ht.2.name _).bind fun n n' u u' hu => ?_
  refine (hu.2.parameters .function).bind fun ps ps' v v' hv => ?_
  refine hv.2.returning.bind fun o o' w w' hw => ?_
  refine (blocksAgree room hw.2).bind fun ss ss' y y' hy => ?_
  refine (hy.2.routineEnd .function).bind fun _ _ z z' hz => ?_
  refine (hz.upToHere ht.1.1 ht.1.2).bind fun r r' q q' hq => ?_
  exact agrees_pure ⟨.function hq.1 hu.1 hv.1 hw.1 hy.1, hq.2⟩

theorem Aligned.readProcedure (h : L.Aligned s s') {k : Keyword} (hk : s.kind = .keyword k)
    (room : Nat) :
    L.Agrees s s' (Item.readProcedure room) (Item.readProcedure room)
      fun i i' t t' => L.ItemLike i i' ∧ L.AfterStatement t t' := by
  unfold Item.readProcedure
  refine (h.start hk).bind fun x x' t t' ht => ?_
  refine (ht.2.name _).bind fun n n' u u' hu => ?_
  refine (hu.2.parameters .procedure).bind fun ps ps' v v' hv => ?_
  refine (blocksAgree room hv.2).bind fun ss ss' w w' hw => ?_
  refine (hw.2.routineEnd .procedure).bind fun _ _ y y' hy => ?_
  refine (hy.upToHere ht.1.1 ht.1.2).bind fun r r' z z' hz => ?_
  exact agrees_pure ⟨.procedure hz.1 hu.1 hv.1 hw.1, hz.2⟩

theorem kind_ne_stringLiteral_of_atBlockEnd {s : Cursor} (h : s.atBlockEnd = true) :
    s.kind ≠ .stringLiteral := by
  intro hk
  rw [Cursor.atBlockEnd, hk] at h
  cases h

theorem Ready.readItem (h : L.Ready s s') (room : Nat) :
    L.TryAgrees s s' (Item.read room) (Item.read room)
      fun i i' t t' => L.ItemLike i i' ∧ L.AfterStatement t t' := by
  have hk : s'.peek.kind = s.peek.kind := h.1.kind
  unfold Item.read
  refine tryAgrees_ask ?_
  simp only [hk]
  split
  · next hx => exact (h.1.readFunction hx room).lift
  · next hx => exact (h.1.readProcedure hx room).lift
  · refine tryAgrees_ask ?_
    rw [h.1.atBlockEnd]
    split
    · next hb =>
      have hstray := L.token_stray h.1.peek (kind_ne_stringLiteral_of_atBlockEnd hb)
      exact ⟨.nil, .error hstray (L.token_hole h.1.peek) h.1 (.inr ⟨rfl, rfl⟩)⟩
    · exact (h.readStatement (blocksAgree room)).map fun _ _ _ _ hpost => ⟨.statement hpost.1, hpost.2⟩

/-- The parse of the second text starts with that of the first. It goes on from a cursor where the
    second text is at its end, too, or where a declaration starts. -/
theorem Near.parse (h : L.Near s s') :
    ∃ items errors u', List.Forall₂ L.ItemLike s.parse.items items ∧
      List.Forall₂ L.error s.parse.errors errors ∧ s'.Reaches u' ∧
      ((u'.atEnd = true ∧ L.token s.eof u'.eof) ∨ L.stop s.eof u'.ahead) ∧
      s'.parse = ⟨items ++ u'.parse.items, errors ++ u'.parse.errors⟩ := by
  have hstop ⦃t t' : Cursor⦄ (_ : L.Aligned t t') : (fun _ => false) t' = (fun _ => false) t := rfl
  obtain ⟨hend, items, errors, u', hc⟩ := h.rounds (Item.advances_round maxNesting) hstop
    fun _ _ ht => ht.recovering (ht.readItem maxNesting)
  rw [Bool.or_false] at hend
  refine ⟨items, errors, u', hc.value, hc.recorded, hc.reaches, ?_, ?_⟩
  · obtain ⟨-, -, -, heof⟩ := Item.readProgram.reaches s
    rw [Item.readProgram] at heof
    obtain ⟨hal, -⟩ | hst := hc.atStart
    · have hend' := hal.atEnd.trans hend
      have htoken := hal.peek
      rw [Cursor.peek_of_atEnd hend, Cursor.peek_of_atEnd hend', heof] at htoken
      exact .inl ⟨hend', htoken⟩
    · exact .inr (heof ▸ hst.stop)
  · unfold Cursor.parse
    rw [Item.readProgram, hc.run_eq]

end Likeness

end FourthGen
