import FourthGen.Proofs.Parser.Declarations
import FourthGen.Proofs.Parser.Operations

set_option autoImplicit false

/-! # What stands around declared names

Where no error is found, a declared name stands right behind the word `DEFINE`, a comma or an opening
parenthesis, and its type follows. The proofs go along the rules, from what they read cleanly
(`Rule.Clean`): a cursor behind a token that announces a name is `Announced`, and what is read from there
on is framed by that token and by the type. -/

namespace FourthGen

/-- The tokens behind which a name is declared. -/
def TokenKind.announcesName : TokenKind → Bool
  | .keyword .DEFINE | .symbol .comma | .symbol .leftParen => true
  | _ => false

/-- The tokens with which a data type starts. -/
def TokenKind.startsType (kind : TokenKind) : Bool := kind.isDataType || kind == .identifier

/-- The name of the variable is one of the tokens; it stands between one that announces it and one that
    starts its type, and the range of the variable starts there. -/
def Variable.FramedIn (v : Variable Range) (tokens : List Token) : Prop :=
  ∃ us p x y ws, tokens = us ++ p :: x :: y :: ws ∧ p.kind.announcesName = true ∧
    x.kind = .identifier ∧ x.text = v.name ∧ x.start = v.range.start ∧ y.kind.startsType = true

namespace Cursor

theorem Takes.reaches {s t : Cursor} {us : List Token} (h : s.Takes us t) : s.Reaches t :=
  reaches_iff_takes.2 ⟨us, h⟩

/-- The variable is framed by the tokens around the cursor. -/
def Frames (s : Cursor) (v : Variable Range) : Prop := s.InOrder → v.FramedIn s.tokens

/-- From `s` up to `t` these variables are declared, and they are framed. -/
def FramesAll (s : Cursor) (vs : List (Variable Range)) (t : Cursor) : Prop :=
  s.Reaches t ∧ ∀ v ∈ vs, s.Frames v

theorem path_framesAll : Path FramesAll := by
  refine path_each ?_
  intro s t v hst h hs
  obtain ⟨us, hus⟩ := reaches_iff_takes.1 hst
  rw [← hst.tokens_eq]
  exact h (hs.of_takes hus).2

theorem FramesAll.skip {s t u : Cursor} {vs : List (Variable Range)} (h : s.FramesAll vs t)
    (htu : t.Reaches u) : s.FramesAll vs u := ⟨h.1.trans htu, h.2⟩

/-- The cursor stands behind a token that announces a name. -/
def Announced (s : Cursor) : Prop := ∃ p rest, s.before = p :: rest ∧ p.kind.announcesName = true

theorem Takes.announced {s t : Cursor} {p : Token} (h : s.Takes [p] t)
    (hp : p.kind.announcesName = true) : t.Announced := ⟨p, s.before, h.before, hp⟩

end Cursor

open Cursor

/-! ## Repetition -/

theorem Rule.Clean.reaches {α : Type} {p : Rule α} {s t : Cursor} {a : α} (h : p.Clean s a t) :
    s.Reaches t := by
  have hreaches := p.reaches s
  rwa [show p.run s = ⟨a, [], t⟩ from h] at hreaches

namespace Path

variable {α β : Type} {Q : Cursor → List β → Cursor → Prop}

/-- A list that is read cleanly, from what is known of things that are read behind an announcement. -/
theorem commaList_of_clean (hQ : Path Q) {more : α → Bool} {p : Rule α} {f : α → List β}
    (hp : ∀ ⦃s a t⦄, s.Announced → p.Clean s a t → Q s (f a) t) {s u : Cursor} {as : List α}
    (hs : s.Announced) (h : (Rule.commaList more p).Clean s as u) : Q s (as.flatMap f) u := by
  induction as generalizing s with
  | nil =>
      obtain ⟨a, t, -, ⟨has, -⟩ | ⟨-, _, _, _, -, -, -, has⟩⟩ := Rule.clean_commaList.1 h
      · cases has
      · cases has
  | cons a as ih =>
      obtain ⟨b, t, hb, ⟨has, rfl, -⟩ | ⟨-, comma, v, bs, hv, hk, hbs, has⟩⟩ :=
        Rule.clean_commaList.1 h
      · cases has
        rw [List.flatMap_singleton]
        exact hp hs hb
      · cases has
        have hnext : v.Announced := hv.announced (by rw [hk]; rfl)
        rw [List.flatMap_cons]
        exact hQ.append (hp hs hb) (hQ.behind hv.reaches (ih hnext hbs))

/-- Rounds that are read cleanly. -/
theorem rounds_of_clean (hQ : Path Q) {stop : Cursor → Bool} {p : Attempt β}
    (hadvances : (Attempt.recovering p).Advances)
    (hp : ∀ ⦃s b t⦄, s.atEnd = false → Attempt.Clean p s b t → Q s [b] t) {s u : Cursor} {bs : List β}
    (h : (Rule.rounds stop (Attempt.recovering p)).Clean s bs u) : Q s bs u := by
  induction bs generalizing s with
  | nil => exact hQ.skip h.reaches
  | cons b bs ih =>
      obtain ⟨-, hbs, -⟩ | ⟨hstop, b', t, bs', hb, hrest, hbs⟩ := (Attempt.clean_rounds hadvances).1 h
      · cases hbs
      · cases hbs
        rw [Bool.or_eq_false_iff] at hstop
        exact hQ.behind s.reaches_skipSeparators (hQ.append (hp hstop.1 hb) (ih hrest))

end Path

/-! ## Names -/

namespace Rule

variable {s t : Cursor}

theorem startsType_of_clean {type : String} (h : dataType.Clean s type t) :
    s.kind.startsType = true := by
  unfold dataType at h
  obtain ⟨_, _, hpeek, h⟩ := clean_bind.1 h
  obtain ⟨rfl, rfl⟩ := clean_peek.1 hpeek
  split at h
  · next hk => exact hk
  · obtain ⟨_, _, hcomplain, -⟩ := clean_bind.1 h
    exact absurd hcomplain not_clean_complain

theorem declared_frames {role : NameRole} {o : Option (Variable Range)} (hs : s.Announced)
    (h : (declared? role).Clean s o t) : s.FramesAll o.toList t := by
  refine ⟨h.reaches, ?_⟩
  obtain ⟨x, u, type, hx, hk, htype, rfl⟩ := clean_declared.1 h
  obtain ⟨p, rest, hbefore, hp⟩ := hs
  rw [Option.toList_some, List.forall_mem_singleton]
  intro hin
  have hstarts := startsType_of_clean htype
  have heof : u.eof.kind = .eof := by rw [hx.eof, hin.eof]
  have hne : u.kind ≠ .eof := by
    intro hend
    rw [hend] at hstarts
    cases hstarts
  obtain ⟨y, rfl, hy⟩ := exists_takes_of_kind heof hne
  have hbegins : s.Begins x u := fun _ => ⟨hx, by rw [hk]; rfl⟩
  refine ⟨rest.reverse, p, x, u.peek, u.advance.ahead ++ [s.eof], ?_, hp, hk, rfl,
    (hbegins.start_cover htype.reaches hin).2, hstarts⟩
  simp [tokens, hbefore, hx.ahead, hy.ahead]

theorem declaredList_frames {role : NameRole} {vs : List (Variable Range)} (hs : s.Announced)
    (h : (declaredList role).Clean s vs t) : s.FramesAll vs t := by
  obtain ⟨found, hfound, rfl⟩ := clean_declaredList.1 h
  rw [List.filterMap_eq_flatMap_toList]
  exact path_framesAll.commaList_of_clean (fun _ _ _ => declared_frames) hs hfound

theorem parameters_frames {routine : Routine} {vs : List (Variable Range)}
    (h : (parameters routine).Clean s vs t) : s.FramesAll vs t := by
  obtain ⟨opening, u, v, closing, ho, hok, hc, -, ⟨-, rfl, rfl⟩ | ⟨-, hvs⟩⟩ := clean_parameters.1 h
  · exact path_framesAll.skip h.reaches
  · have hlist := declaredList_frames (ho.announced (by rw [hok]; rfl)) hvs
    exact path_framesAll.behind ho.reaches (hlist.skip hc.reaches)

end Rule

/-! ## Statements and blocks -/

namespace Stmt

variable {room : Nat} {block : Rule (List (Stmt Range))} {s u t : Cursor} {x : Token}
  {stmt : Stmt Range}

theorem readDefine_frames (hx : s.Takes [x] u) (hk : x.kind = .keyword .DEFINE)
    (h : readDefine.Clean s stmt t) : s.FramesAll stmt.definedVariables t := by
  obtain ⟨vars, hvars, rfl⟩ := (clean_readDefine hx).1 h
  have hlist := Rule.declaredList_frames (hx.announced (by rw [hk]; rfl)) hvars
  exact path_framesAll.behind hx.reaches hlist

section

variable (hblock : ∀ ⦃s ss t⦄, block.Clean s ss t → s.FramesAll (ss.flatMap definedVariables) t)

include hblock

theorem readConditional_frames (hx : s.Takes [x] u) (h : (readConditional room block).Clean s stmt t) :
    s.FramesAll stmt.definedVariables t := by
  obtain ⟨condition, v, then_, w, thenBlock, y, elseBlock, z, i, hc, ht, -, hthen, helse, hend, rfl⟩ :=
    (clean_readConditional hx).1 h
  rw [definedVariables, variablesOfBlock_eq_flatMap, variablesOfBlock_eq_flatMap]
  have hboth : w.FramesAll (thenBlock.flatMap definedVariables ++ elseBlock.flatMap definedVariables)
      z := by
    refine path_framesAll.append (hblock hthen) ?_
    obtain ⟨-, rfl, rfl⟩ | ⟨else_, y', hel, -, helse⟩ := helse
    · exact path_framesAll.skip (.refl _)
    · exact path_framesAll.behind hel.reaches (hblock helse)
  have hstart : s.Reaches w := (hx.reaches.trans (Rule.Clean.reaches hc)).trans ht.reaches
  exact path_framesAll.behind hstart (hboth.skip hend.reaches)

theorem readWhile_frames (hx : s.Takes [x] u) (h : (readWhile room block).Clean s stmt t) :
    s.FramesAll stmt.definedVariables t := by
  obtain ⟨condition, v, body, w, i, hc, hbody, hend, rfl⟩ := (clean_readWhile hx).1 h
  rw [definedVariables, variablesOfBlock_eq_flatMap]
  exact path_framesAll.behind (hx.reaches.trans (Rule.Clean.reaches hc))
    ((hblock hbody).skip hend.reaches)

theorem readFor_frames (hx : s.Takes [x] u) (h : (readFor block).Clean s stmt t) :
    s.FramesAll stmt.definedVariables t := by
  obtain ⟨body, w, i, hbody, hend, rfl⟩ := (clean_readFor hx).1 h
  rw [definedVariables, variablesOfBlock_eq_flatMap]
  exact path_framesAll.behind (hx.reaches.trans u.reaches_skipLine) ((hblock hbody).skip hend.reaches)

theorem read_frames (hs : s.atEnd = false) (h : Attempt.Clean (read room block) s stmt t) :
    s.FramesAll stmt.definedVariables t := by
  -- statements that declare nothing
  have hnothing (hnil : stmt.definedVariables = []) : s.FramesAll stmt.definedVariables t := by
    rw [hnil]
    exact path_framesAll.skip (Rule.Clean.reaches h)
  obtain ⟨x, hpeek, hx⟩ := exists_takes_of_atEnd hs
  unfold read at h
  rw [Attempt.clean_peek_bind, hpeek] at h
  split at h
  · next hk => exact readDefine_frames hx hk (Attempt.clean_lift.1 h)
  · obtain ⟨_, _, _, _, _, -, -, -, -, -, rfl⟩ := (clean_readAssign hx).1 (Attempt.clean_lift.1 h)
    exact hnothing rfl
  · exact readConditional_frames hblock hx (Attempt.clean_lift.1 h)
  · exact readWhile_frames hblock hx (Attempt.clean_lift.1 h)
  · exact readFor_frames hblock hx (Attempt.clean_lift.1 h)
  · obtain ⟨_, _, _, -, -, -, rfl⟩ := (clean_readCall hx).1 h
    exact hnothing rfl
  · obtain ⟨-, -, rfl⟩ | ⟨-, _, -, rfl⟩ := (clean_readReturn hx).1 (Attempt.clean_lift.1 h)
    · exact hnothing rfl
    · exact hnothing rfl
  iterate 4
    · obtain ⟨-, rfl⟩ := (clean_readSql hx).1 (Attempt.clean_lift.1 h)
      exact hnothing rfl
  · obtain ⟨_, -, rfl⟩ := clean_readExpression.1 h
    exact hnothing rfl

end

theorem readBlock_frames (room : Nat) ⦃s : Cursor⦄ ⦃ss : List (Stmt Range)⦄ ⦃t : Cursor⦄
    (h : (readBlock room).Clean s ss t) : s.FramesAll (ss.flatMap definedVariables) t := by
  have hpath := path_framesAll.flatMap fun stmt : Stmt Range => stmt.definedVariables
  induction room generalizing s t ss with
  | zero =>
      unfold readBlock at h
      obtain ⟨_, _, hcomplain, -⟩ := Rule.clean_bind.1 h
      exact absurd hcomplain Rule.not_clean_complain
  | succ room ih =>
      rw [readBlock, Rule.defer_eq] at h
      refine hpath.rounds_of_clean (advances_round room _) ?_ h
      intro s stmt t hs h
      rw [List.flatMap_singleton]
      exact read_frames ih hs h

end Stmt

/-! ## Items and programs -/

namespace Item

variable {room : Nat} {s u t : Cursor} {x : Token} {item : Item Range}

theorem readFunction_frames (hx : s.Takes [x] u) (h : (readFunction room).Clean s item t) :
    s.FramesAll item.declared t := by
  obtain ⟨name, v, params, w, returns, y, body, z, i, hn, -, hp, hr, hb, hi, rfl⟩ :=
    (clean_readFunction hx).1 h
  rw [declared, Stmt.variablesOfBlock_eq_flatMap]
  have hbody := path_framesAll.behind hr.reaches ((Stmt.readBlock_frames room hb).skip hi.reaches)
  exact path_framesAll.behind (hx.reaches.trans hn.reaches)
    (path_framesAll.append (Rule.parameters_frames hp) hbody)

theorem readProcedure_frames (hx : s.Takes [x] u) (h : (readProcedure room).Clean s item t) :
    s.FramesAll item.declared t := by
  obtain ⟨name, v, params, w, body, z, i, hn, -, hp, hb, hi, rfl⟩ := (clean_readProcedure hx).1 h
  rw [declared, Stmt.variablesOfBlock_eq_flatMap]
  have hbody := (Stmt.readBlock_frames room hb).skip hi.reaches
  exact path_framesAll.behind (hx.reaches.trans hn.reaches)
    (path_framesAll.append (Rule.parameters_frames hp) hbody)

theorem read_frames (hs : s.atEnd = false) (h : Attempt.Clean (read room) s item t) :
    s.FramesAll item.declared t := by
  obtain ⟨x, -, hx⟩ := exists_takes_of_atEnd hs
  obtain ⟨-, h⟩ | ⟨-, h⟩ | ⟨-, -, stmt, hstmt, rfl⟩ := clean_read.1 h
  · exact readFunction_frames hx h
  · exact readProcedure_frames hx h
  · exact Stmt.read_frames (Stmt.readBlock_frames room) hs hstmt

theorem readProgram_frames {items : List (Item Range)} (h : readProgram.Clean s items t) :
    s.FramesAll (items.flatMap declared) t := by
  have hpath := path_framesAll.flatMap fun item : Item Range => item.declared
  refine hpath.rounds_of_clean (advances_round maxNesting) ?_ h
  intro s item t hs h
  rw [List.flatMap_singleton]
  exact read_frames hs h

end Item

/-- The variables of a text without errors are framed by its tokens. -/
theorem parse_frames {text : String} (h : (parse text).errors = []) {item : Item Range}
    (hitem : item ∈ (parse text).items) {v : Variable Range} (hv : v ∈ item.declared) :
    v.FramedIn (tokenize text) := by
  rw [parse_eq, Cursor.parse] at h hitem
  have hclean : Item.readProgram.Clean ⟨[], tokensOf text, eofOf text⟩
      (Item.readProgram.run ⟨[], tokensOf text, eofOf text⟩).value
      (Item.readProgram.run ⟨[], tokensOf text, eofOf text⟩).rest := by
    unfold Rule.Clean
    rw [← h]
  have hframes := (Item.readProgram_frames hclean).2 v (List.mem_flatMap.2 ⟨item, hitem, hv⟩)
  rw [tokenize_eq]
  exact hframes ⟨eofOf_kind text, inOrder_tokensOf text⟩

end FourthGen
