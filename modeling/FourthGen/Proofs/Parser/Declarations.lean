import FourthGen.Proofs.Parser.Ranges
import FourthGen.Symbol.OfSyntax

set_option autoImplicit false

/-! # Declared names stand in the text

A parameter or a variable is read only where its name is: the parser makes up no variable. So every
variable of a parsed text, however broken the text is, has the name that an identifier of the text
spells, and its range starts with that identifier (`parse_declares`). -/

namespace FourthGen

namespace Cursor

/-- An identifier ahead of the cursor spells the name of the variable, whose range starts there. -/
def Declares (s : Cursor) (v : Variable Range) : Prop :=
  s.InOrder → ∃ x ∈ s.ahead, x.kind = .identifier ∧ x.text = v.name ∧ x.start = v.range.start

/-- From `s` up to `t` these variables are declared. -/
def DeclaresAll (s : Cursor) (vs : List (Variable Range)) (t : Cursor) : Prop :=
  s.Reaches t ∧ ∀ v ∈ vs, s.Declares v

/-- What stands ahead of a cursor stands ahead of those before it. -/
theorem exists_ahead_of_reaches {P : Token → Prop} {s t : Cursor} (hst : s.Reaches t)
    (h : t.InOrder → ∃ x ∈ t.ahead, P x) (hs : s.InOrder) : ∃ x ∈ s.ahead, P x := by
  obtain ⟨us, hus⟩ := reaches_iff_takes.1 hst
  obtain ⟨x, hx, hspec⟩ := h (hs.of_takes hus).2
  refine ⟨x, ?_, hspec⟩
  rw [hus.ahead]
  exact List.mem_append_right us hx

theorem Declares.behind {s t : Cursor} {v : Variable Range} (hst : s.Reaches t) (h : t.Declares v) :
    s.Declares v := exists_ahead_of_reaches hst h

/-- What is known of each thing that is read, if it is known at the cursors before, too. -/
theorem path_each {β : Type} {P : Cursor → β → Prop}
    (hP : ∀ {s t : Cursor} {b : β}, s.Reaches t → P t b → P s b) :
    Path fun s bs t => s.Reaches t ∧ ∀ b ∈ bs, P s b := by
  constructor
  · intro s t h
    exact ⟨h, by simp⟩
  · intro s t u as bs has hbs
    refine ⟨has.1.trans hbs.1, ?_⟩
    intro b hb
    rcases List.mem_append.1 hb with hb | hb
    · exact has.2 b hb
    · exact hP has.1 (hbs.2 b hb)

theorem path_declaresAll : Path DeclaresAll := path_each Declares.behind

theorem DeclaresAll.skip {s t u : Cursor} {vs : List (Variable Range)} (h : s.DeclaresAll vs t)
    (htu : t.Reaches u) : s.DeclaresAll vs u := ⟨h.1.trans htu, h.2⟩

/-- A range that starts with a token, which is no separator, starts where the token does. -/
theorem Begins.start_cover {s t u : Cursor} {x : Token} (hx : s.Begins x t) (htu : t.Reaches u)
    (hs : s.InOrder) : x ∈ s.ahead ∧ x.start = (x.range.cover u.previousRange).start := by
  obtain ⟨htakes, hsep⟩ := hx hs
  obtain ⟨us, hus⟩ := reaches_iff_takes.1 htu
  have hall := htakes.trans hus
  have horder := (hs.of_takes hall).1
  obtain ⟨vs, z, ws, hsplit, hz, hws, hprevious⟩ := hall.previousRange_eq hsep
  have hzmem : z ∈ [x] ++ us := by
    show z ∈ x :: us
    rw [show x :: us = vs ++ z :: ws from hsplit]
    simp
  refine ⟨by rw [htakes.ahead]; simp, ?_⟩
  have hmin : min x.start z.start = x.start := if_pos (horder.first_le hzmem)
  rw [hprevious, Range.cover, horder.range_eq (by simp), horder.range_eq hzmem]
  exact hmin.symm

/-- A variable starts with its name. -/
theorem declares_of_begins {s t u : Cursor} {x : Token} {type : String} (hx : s.Begins x t)
    (hk : x.kind = .identifier) (htu : t.Reaches u) :
    s.Declares ⟨x.range.cover u.previousRange, x.text, type⟩ := by
  intro hs
  obtain ⟨hmem, hstart⟩ := hx.start_cover htu hs
  exact ⟨x, hmem, hk, rfl, hstart⟩

end Cursor

open Cursor

/-- What is known of what is made of all that is read. -/
theorem Path.flatMap {α β : Type} {Q : Cursor → List β → Cursor → Prop} (hQ : Path Q) (f : α → List β) :
    Path fun s as t => Q s (as.flatMap f) t := by
  constructor
  · intro s t h
    exact hQ.skip h
  · intro s t u as bs has hbs
    rw [List.flatMap_append]
    exact hQ.append has hbs

/-! ## Names -/

namespace Rule

theorem declared_declares (role : NameRole) (s : Cursor) :
    (declared? role).Ensures s fun o t => s.DeclaresAll o.toList t := by
  unfold declared?
  have hname : (expect .identifier (.missingName role)).Ensures s fun o t =>
      s.Reaches t ∧ ∀ x, o = some x → s.Begins x t ∧ x.kind = .identifier := by
    refine ⟨Rule.reaches _ s, ?_⟩
    intro x hx
    refine ⟨(expect_begins rfl (.missingName role)).2 x hx, ?_⟩
    rw [run_expect] at hx
    split at hx
    · next hc =>
      obtain ⟨y, hy, hk⟩ := check_iff.1 hc
      cases hx
      rw [hy.previous_eq, hk]
    · cases hx
  refine hname.bind fun o t ho => ?_
  cases o with
  | none => exact ensures_pure (path_declaresAll.skip ho.1)
  | some x =>
      obtain ⟨hx, hk⟩ := ho.2 x rfl
      refine (ensures_reaches dataType t).bind fun type u hu => ?_
      refine ensures_upToHere ?_
      refine ensures_pure ⟨ho.1.trans hu, ?_⟩
      intro v hv
      rw [List.mem_singleton.1 hv]
      exact declares_of_begins hx hk hu

theorem declaredList_declares (role : NameRole) (s : Cursor) :
    (declaredList role).Ensures s s.DeclaresAll := by
  unfold declaredList
  refine (path_declaresAll.commaList (declared_declares role) (fun _ => true) s).bind fun found t h => ?_
  refine ensures_pure ?_
  rw [List.filterMap_eq_flatMap_toList]
  exact h

theorem parameters_declares (routine : Routine) (s : Cursor) :
    (parameters routine).Ensures s s.DeclaresAll := by
  have hclose (vs : List (Variable Range)) (t : Cursor) (hvs : s.DeclaresAll vs t) :
      (do let _ ← expect (.symbol .rightParen) (.missingCloser .parameters); return vs : Rule _).Ensures t
        s.DeclaresAll := by
    refine (ensures_reaches _ t).bind fun _ u hu => ?_
    exact ensures_pure (hvs.skip hu)
  unfold parameters
  refine (ensures_reaches _ s).bind fun o t ht => ?_
  cases o with
  | none => exact ensures_pure (path_declaresAll.skip ht)
  | some x =>
      refine ensures_ask ?_
      split
      · exact Ensures.bind (ensures_pure (path_declaresAll.skip ht)) hclose
      · refine (declaredList_declares .parameter t).bind fun vs u hvs => ?_
        exact hclose vs u (path_declaresAll.behind ht hvs)

end Rule

/-! ## Statements and blocks -/

namespace Stmt

variable {s : Cursor}

theorem readDefine_declares (s : Cursor) :
    readDefine.Ensures s fun stmt t => s.DeclaresAll stmt.definedVariables t := by
  unfold readDefine
  refine (Rule.ensures_reaches _ s).bind fun _ t ht => ?_
  refine (Rule.declaredList_declares .target t).bind fun vs u hvs => ?_
  refine Rule.ensures_upToHere ?_
  exact Rule.ensures_pure (path_declaresAll.behind ht hvs)

section

variable {block : Rule (List (Stmt Range))}
  (hblock : ∀ s, block.Ensures s fun ss t => s.DeclaresAll (ss.flatMap definedVariables) t)

include hblock

theorem readConditional_declares (room : Nat) (s : Cursor) :
    (readConditional room block).Ensures s fun stmt t => s.DeclaresAll stmt.definedVariables t := by
  unfold readConditional
  refine (Rule.ensures_reaches _ s).bind fun start t ht => ?_
  refine (Rule.ensures_reaches _ t).bind fun condition u hu => ?_
  refine (Rule.ensures_reaches _ u).bind fun _ v hv => ?_
  refine (hblock v).bind fun thenBlock w hthen => ?_
  -- what follows the second branch, which may be empty
  have hclose (elseBlock : List (Stmt Range)) (x : Cursor)
      (helse : w.DeclaresAll (elseBlock.flatMap definedVariables) x) :
      Rule.Ensures (do
          Rule.compoundEnd .conditional
          return .conditional (← Rule.upToHere start) condition thenBlock elseBlock : Rule (Stmt Range)) x
        fun stmt t => s.DeclaresAll stmt.definedVariables t := by
    refine (Rule.ensures_reaches _ x).bind fun _ y hy => ?_
    refine Rule.ensures_upToHere ?_
    refine Rule.ensures_pure ?_
    rw [definedVariables, variablesOfBlock_eq_flatMap, variablesOfBlock_eq_flatMap]
    have hboth := path_declaresAll.append hthen (helse.skip hy)
    exact path_declaresAll.behind ((ht.trans hu).trans hv) hboth
  refine (Rule.ensures_reaches _ w).bind fun more x hx => ?_
  cases more with
  | true =>
      refine (hblock x).bind fun elseBlock y helse => ?_
      exact hclose elseBlock y (path_declaresAll.behind hx helse)
  | false => exact Rule.Ensures.bind (Rule.ensures_pure (path_declaresAll.skip hx)) hclose

theorem readWhile_declares (room : Nat) (s : Cursor) :
    (readWhile room block).Ensures s fun stmt t => s.DeclaresAll stmt.definedVariables t := by
  unfold readWhile
  refine (Rule.ensures_reaches _ s).bind fun _ t ht => ?_
  refine (Rule.ensures_reaches _ t).bind fun condition u hu => ?_
  refine (hblock u).bind fun body v hbody => ?_
  refine (Rule.ensures_reaches _ v).bind fun _ w hw => ?_
  refine Rule.ensures_upToHere ?_
  refine Rule.ensures_pure ?_
  rw [definedVariables, variablesOfBlock_eq_flatMap]
  exact path_declaresAll.behind (ht.trans hu) (hbody.skip hw)

theorem readFor_declares (s : Cursor) :
    (readFor block).Ensures s fun stmt t => s.DeclaresAll stmt.definedVariables t := by
  unfold readFor
  refine (Rule.ensures_reaches _ s).bind fun _ t ht => ?_
  refine (Rule.ensures_reaches _ t).bind fun _ u hu => ?_
  refine (hblock u).bind fun body v hbody => ?_
  refine (Rule.ensures_reaches _ v).bind fun _ w hw => ?_
  refine Rule.ensures_upToHere ?_
  refine Rule.ensures_pure ?_
  rw [definedVariables, variablesOfBlock_eq_flatMap]
  exact path_declaresAll.behind (ht.trans hu) (hbody.skip hw)

end

/-! ### Statements that declare nothing -/

/-- A rule for statements that declare nothing. -/
theorem declares_of_eq_nil {p : Rule (Stmt Range)}
    (h : p.Ensures s fun stmt _ => stmt.definedVariables = []) :
    p.Ensures s fun stmt t => s.DeclaresAll stmt.definedVariables t := by
  have hnil : (p.run s).value.definedVariables = [] := h
  show s.DeclaresAll (p.run s).value.definedVariables (p.run s).rest
  rw [hnil]
  exact path_declaresAll.skip (p.reaches s)

theorem attempt_declares_of_eq_nil {p : Attempt (Stmt Range)}
    (h : Attempt.Ensures p s fun stmt _ => stmt.definedVariables = []) :
    Attempt.Ensures p s fun stmt t => s.DeclaresAll stmt.definedVariables t := by
  intro stmt hstmt
  rw [h stmt hstmt]
  exact path_declaresAll.skip (Rule.reaches p.run s)

theorem readAssign_declares (room : Nat) (s : Cursor) :
    (readAssign room).Ensures s fun stmt t => s.DeclaresAll stmt.definedVariables t := by
  refine declares_of_eq_nil ?_
  unfold readAssign
  refine Rule.ensures_behind fun _ t => ?_
  refine Rule.ensures_behind fun _ u => ?_
  refine Rule.ensures_behind fun _ v => ?_
  refine Rule.ensures_behind fun _ w => ?_
  refine Rule.ensures_behind fun _ x => ?_
  exact Rule.ensures_pure rfl

theorem readReturn_declares (room : Nat) (s : Cursor) :
    (readReturn room).Ensures s fun stmt t => s.DeclaresAll stmt.definedVariables t := by
  refine declares_of_eq_nil ?_
  unfold readReturn
  refine Rule.ensures_behind fun _ t => ?_
  refine Rule.ensures_ask ?_
  split
  · refine Rule.ensures_behind fun _ u => ?_
    exact Rule.ensures_pure rfl
  · refine Rule.ensures_behind fun _ u => ?_
    refine Rule.ensures_behind fun _ v => ?_
    exact Rule.ensures_pure rfl

theorem readSql_declares (kind : SqlKind) (s : Cursor) :
    (readSql kind).Ensures s fun stmt t => s.DeclaresAll stmt.definedVariables t := by
  refine declares_of_eq_nil ?_
  unfold readSql
  refine Rule.ensures_behind fun _ t => ?_
  refine Rule.ensures_behind fun _ u => ?_
  refine Rule.ensures_behind fun _ v => ?_
  exact Rule.ensures_pure rfl

theorem readCall_declares (room : Nat) (s : Cursor) :
    Attempt.Ensures (readCall room) s fun stmt t => s.DeclaresAll stmt.definedVariables t := by
  refine attempt_declares_of_eq_nil ?_
  unfold readCall
  refine Attempt.ensures_behind fun _ t => ?_
  refine Attempt.ensures_behind fun _ u => ?_
  refine Attempt.ensures_behind fun called v => ?_
  cases called with
  | true =>
      refine Attempt.ensures_behind fun _ w => ?_
      refine Attempt.ensures_behind fun _ x => ?_
      exact Attempt.ensures_pure rfl
  | false =>
      refine Attempt.ensures_behind fun _ w => ?_
      refine Attempt.ensures_behind fun _ x => ?_
      exact Attempt.ensures_pure rfl

theorem readExpression_declares (room : Nat) (s : Cursor) :
    Attempt.Ensures (readExpression room) s fun stmt t => s.DeclaresAll stmt.definedVariables t := by
  refine attempt_declares_of_eq_nil ?_
  unfold readExpression
  refine Attempt.ensures_behind fun _ t => ?_
  exact Attempt.ensures_pure rfl

/-! ### All statements -/

theorem read_declares {block : Rule (List (Stmt Range))}
    (hblock : ∀ s, block.Ensures s fun ss t => s.DeclaresAll (ss.flatMap definedVariables) t)
    (room : Nat) (s : Cursor) :
    Attempt.Ensures (read room block) s fun stmt t => s.DeclaresAll stmt.definedVariables t := by
  unfold read
  refine Attempt.ensures_ask ?_
  split
  · exact Attempt.ensures_lift (readDefine_declares s)
  · exact Attempt.ensures_lift (readAssign_declares room s)
  · exact Attempt.ensures_lift (readConditional_declares hblock room s)
  · exact Attempt.ensures_lift (readWhile_declares hblock room s)
  · exact Attempt.ensures_lift (readFor_declares hblock s)
  · exact readCall_declares room s
  · exact Attempt.ensures_lift (readReturn_declares room s)
  · exact Attempt.ensures_lift (readSql_declares .select s)
  · exact Attempt.ensures_lift (readSql_declares .insert s)
  · exact Attempt.ensures_lift (readSql_declares .update s)
  · exact Attempt.ensures_lift (readSql_declares .delete s)
  · exact readExpression_declares room s

theorem readBlock_declares (room : Nat) (s : Cursor) :
    (readBlock room).Ensures s fun ss t => s.DeclaresAll (ss.flatMap definedVariables) t := by
  have hpath := path_declaresAll.flatMap fun stmt : Stmt Range => stmt.definedVariables
  induction room generalizing s with
  | zero => exact hpath.skip ((readBlock 0).reaches s)
  | succ room ih =>
      have hone (s : Cursor) : Attempt.Ensures (read room (readBlock room)) s fun stmt t =>
          s.DeclaresAll ([stmt].flatMap definedVariables) t := by
        refine (read_declares ih room s).mono fun stmt t h => ?_
        rw [List.flatMap_singleton]
        exact h
      rw [readBlock, Rule.defer_eq]
      exact hpath.rounds (fun s => hpath.recovering (hone s)) stopsBlock s

end Stmt

/-! ## Items and programs -/

/-- The variables of an item: the parameters of a routine, and all variables that are defined in it, at
    any depth of blocks. -/
def Item.declared {ρ : Type} : Item ρ → List (Variable ρ)
  | .function _ _ params _ body => params ++ Stmt.variablesOfBlock body
  | .procedure _ _ params body => params ++ Stmt.variablesOfBlock body
  | .statement stmt => stmt.definedVariables

namespace Item

theorem readFunction_declares (room : Nat) (s : Cursor) :
    (readFunction room).Ensures s fun item t => s.DeclaresAll item.declared t := by
  unfold readFunction
  refine (Rule.ensures_reaches _ s).bind fun _ t ht => ?_
  refine (Rule.ensures_reaches _ t).bind fun _ u hu => ?_
  refine (Rule.parameters_declares .function u).bind fun params v hparams => ?_
  refine (Rule.ensures_reaches _ v).bind fun _ w hw => ?_
  refine (Stmt.readBlock_declares room w).bind fun body x hbody => ?_
  refine (Rule.ensures_reaches _ x).bind fun _ y hy => ?_
  refine Rule.ensures_upToHere ?_
  refine Rule.ensures_pure ?_
  rw [declared, Stmt.variablesOfBlock_eq_flatMap]
  have hall := path_declaresAll.append hparams (path_declaresAll.behind hw (hbody.skip hy))
  exact path_declaresAll.behind (ht.trans hu) hall

theorem readProcedure_declares (room : Nat) (s : Cursor) :
    (readProcedure room).Ensures s fun item t => s.DeclaresAll item.declared t := by
  unfold readProcedure
  refine (Rule.ensures_reaches _ s).bind fun _ t ht => ?_
  refine (Rule.ensures_reaches _ t).bind fun _ u hu => ?_
  refine (Rule.parameters_declares .procedure u).bind fun params v hparams => ?_
  refine (Stmt.readBlock_declares room v).bind fun body w hbody => ?_
  refine (Rule.ensures_reaches _ w).bind fun _ x hx => ?_
  refine Rule.ensures_upToHere ?_
  refine Rule.ensures_pure ?_
  rw [declared, Stmt.variablesOfBlock_eq_flatMap]
  have hall := path_declaresAll.append hparams (hbody.skip hx)
  exact path_declaresAll.behind (ht.trans hu) hall

theorem read_declares (room : Nat) (s : Cursor) :
    Attempt.Ensures (read room) s fun item t => s.DeclaresAll item.declared t := by
  unfold read
  refine Attempt.ensures_ask ?_
  split
  · exact Attempt.ensures_lift (readFunction_declares room s)
  · exact Attempt.ensures_lift (readProcedure_declares room s)
  · refine Attempt.ensures_ask ?_
    split
    · exact Attempt.ensures_fail
    · refine (Stmt.read_declares (Stmt.readBlock_declares room) room s).bind fun stmt t hstmt => ?_
      exact Attempt.ensures_pure hstmt

theorem readProgram_declares (s : Cursor) :
    readProgram.Ensures s fun items t => s.DeclaresAll (items.flatMap declared) t := by
  have hpath := path_declaresAll.flatMap fun item : Item Range => item.declared
  have hone (s : Cursor) : Attempt.Ensures (read maxNesting) s fun item t =>
      s.DeclaresAll ([item].flatMap declared) t := by
    refine (read_declares maxNesting s).mono fun item t h => ?_
    rw [List.flatMap_singleton]
    exact h
  exact hpath.rounds (fun s => hpath.recovering (hone s)) (fun _ => false) s

end Item

/-- The variables of a text have the names that identifiers of the text spell, and start with these. -/
theorem parse_declares {text : String} {item : Item Range} (hitem : item ∈ (parse text).items)
    {v : Variable Range} (hv : v ∈ item.declared) :
    ∃ t ∈ tokensOf text, t.kind = .identifier ∧ t.text = v.name ∧ t.start = v.range.start := by
  have hread := Item.readProgram_declares ⟨[], tokensOf text, eofOf text⟩
  rw [parse_eq] at hitem
  exact hread.2 v (List.mem_flatMap.2 ⟨item, hitem, hv⟩) ⟨eofOf_kind text, inOrder_tokensOf text⟩

/-- No variable is without a name. -/
theorem name_ne_empty_of_mem {text : String} {item : Item Range} (hitem : item ∈ (parse text).items)
    {v : Variable Range} (hv : v ∈ item.declared) : v.name ≠ "" := by
  obtain ⟨t, ht, -, hname, -⟩ := parse_declares hitem hv
  obtain ⟨m, kind, cs, hmem, rfl⟩ := Location.exists_of_mem_tokens ht
  intro hempty
  rw [hempty] at hname
  have hnil : cs = [] := by simpa [Location.token] using hname
  exact Lexeme.text_ne_nil hmem hnil

end FourthGen
