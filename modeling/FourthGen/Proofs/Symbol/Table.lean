import FourthGen.Proofs.Symbol.Scope
import Mathlib.Data.List.Nodup

set_option autoImplicit false

/-! # The table of symbols of a text

The symbols of a parsed text stand for what the tree declares, each thing once, in the order of the text,
and each symbol starts at a token that shows what it is: the word that opens a routine, or the name of a
parameter or a variable. That a routine starts strictly before its first parameter needs this: their
ranges are nested, but the tokens where they start are of different kinds, so they are different ones.

A table in the order of the text is searched from the front, and so the first symbol around a position is
the one that starts first. All this is stated once, in `symbols_parse`. -/

namespace FourthGen

/-! ## The words that open routines -/

/-- The word that opens a function or a procedure. -/
def Item.opener? {ρ : Type} : Item ρ → Option Keyword
  | .function .. => some .FUNCTION
  | .procedure .. => some .PROCEDURE
  | .statement _ => none

namespace Cursor

/-- If the item is a routine, the word that opens it stands ahead of the cursor, and it starts there. -/
def Opens (s : Cursor) (item : Item Range) : Prop :=
  ∀ k, item.opener? = some k →
    s.InOrder → ∃ x ∈ s.ahead, x.kind = .keyword k ∧ x.start = item.range.start

/-- From `s` up to `t` these items are opened. -/
def OpensAll (s : Cursor) (items : List (Item Range)) (t : Cursor) : Prop :=
  s.Reaches t ∧ ∀ item ∈ items, s.Opens item

theorem path_opensAll : Path OpensAll := by
  refine path_each ?_
  intro s t item hst h k hk
  exact exists_ahead_of_reaches hst (h k hk)

/-- An item that goes from a keyword up to `u`. -/
theorem opens_of_begins {s t u : Cursor} {x : Token} {k : Keyword} {item : Item Range}
    (hk : s.kind = .keyword k) (hopener : item.opener? = some k) (hx : s.Begins x t) (htu : t.Reaches u)
    (hrange : item.range = x.range.cover u.previousRange) : s.Opens item := by
  intro k' hk' hs
  obtain rfl : k = k' := Option.some.inj (hopener.symm.trans hk')
  obtain ⟨hmem, hstart⟩ := hx.start_cover htu hs
  refine ⟨x, hmem, ?_, hrange ▸ hstart⟩
  rw [← (hx hs).1.kind_eq, hk]

end Cursor

open Cursor

namespace Item

theorem readFunction_opens {s : Cursor} (hk : s.kind = .keyword .FUNCTION) (room : Nat) :
    (readFunction room).Ensures s fun item _ => s.Opens item := by
  unfold readFunction
  refine (Rule.keyword_begins hk).bind fun start t hstart => ?_
  refine (Rule.ensures_reaches _ t).bind fun name u hu => ?_
  refine (Rule.ensures_reaches _ u).bind fun params v hv => ?_
  refine (Rule.ensures_reaches _ v).bind fun returns w hw => ?_
  refine (Rule.ensures_reaches _ w).bind fun body x hx => ?_
  refine (Rule.ensures_reaches _ x).bind fun _ y hy => ?_
  refine Rule.ensures_upToHere ?_
  exact Rule.ensures_pure
    (opens_of_begins hk rfl hstart ((((hu.trans hv).trans hw).trans hx).trans hy) rfl)

theorem readProcedure_opens {s : Cursor} (hk : s.kind = .keyword .PROCEDURE) (room : Nat) :
    (readProcedure room).Ensures s fun item _ => s.Opens item := by
  unfold readProcedure
  refine (Rule.keyword_begins hk).bind fun start t hstart => ?_
  refine (Rule.ensures_reaches _ t).bind fun name u hu => ?_
  refine (Rule.ensures_reaches _ u).bind fun params v hv => ?_
  refine (Rule.ensures_reaches _ v).bind fun body w hw => ?_
  refine (Rule.ensures_reaches _ w).bind fun _ x hx => ?_
  refine Rule.ensures_upToHere ?_
  exact Rule.ensures_pure (opens_of_begins hk rfl hstart (((hu.trans hv).trans hw).trans hx) rfl)

theorem read_opens (room : Nat) (s : Cursor) :
    Attempt.Ensures (read room) s fun item _ => s.Opens item := by
  unfold read
  refine Attempt.ensures_ask ?_
  split
  · next hk => exact Attempt.ensures_lift (readFunction_opens hk room)
  · next hk => exact Attempt.ensures_lift (readProcedure_opens hk room)
  · refine Attempt.ensures_ask ?_
    split
    · exact Attempt.ensures_fail
    · -- a statement is opened by no such word
      refine Attempt.ensures_behind fun stmt t => ?_
      exact Attempt.ensures_pure (by intro k hk; cases hk)

theorem readProgram_opens (s : Cursor) : readProgram.Ensures s s.OpensAll := by
  have hone (s : Cursor) : Attempt.Ensures (read maxNesting) s fun item t => s.OpensAll [item] t := by
    intro item hitem
    refine ⟨Rule.reaches (read maxNesting).run s, ?_⟩
    rw [List.forall_mem_singleton]
    exact read_opens maxNesting s item hitem
  exact path_opensAll.rounds (fun s => path_opensAll.recovering (hone s)) (fun _ => false) s

end Item

/-- A routine of a text starts with the word that opens it. -/
theorem parse_opens {text : String} {item : Item Range} (hitem : item ∈ (parse text).items) {k : Keyword}
    (hk : item.opener? = some k) :
    ∃ t ∈ tokensOf text, t.kind = .keyword k ∧ t.start = item.range.start := by
  have hread := Item.readProgram_opens ⟨[], tokensOf text, eofOf text⟩
  rw [parse_eq] at hitem
  exact hread.2 item hitem k hk ⟨eofOf_kind text, inOrder_tokensOf text⟩

/-! ## Where symbols start -/

namespace Symbol

/-- The symbol starts at the token, which is the word that opens a routine of the symbol's kind, or the
    name of the symbol, if it is a parameter or a variable. -/
def StartsAt (s : Symbol) (t : Token) : Prop :=
  t.start = s.range.start ∧
    match s.kind with
    | .function => t.kind = .keyword .FUNCTION
    | .procedure => t.kind = .keyword .PROCEDURE
    | .param | .var => t.kind = .identifier ∧ t.text = s.name

variable {id : DocumentId} {text : String} {item : Item Range} {s : Symbol}

theorem exists_startsAt_of_routine (hitem : item ∈ (parse text).items) (h : routine? id item = some s) :
    ∃ t ∈ tokensOf text, s.StartsAt t := by
  cases item with
  | function =>
      obtain ⟨t, ht, hk, hstart⟩ := parse_opens hitem rfl
      cases h
      exact ⟨t, ht, hstart, hk⟩
  | procedure =>
      obtain ⟨t, ht, hk, hstart⟩ := parse_opens hitem rfl
      cases h
      exact ⟨t, ht, hstart, hk⟩
  | statement => cases h

theorem exists_startsAt_of_value (hitem : item ∈ (parse text).items) (hs : s ∈ values id item) :
    ∃ t ∈ tokensOf text, s.StartsAt t := by
  obtain ⟨hvalue, v, hv, hrange, hname⟩ := exists_of_mem_values hs
  obtain ⟨t, ht, hk, htext, hstart⟩ := parse_declares hitem hv
  refine ⟨t, ht, hrange ▸ hstart, ?_⟩
  have hspelled : t.kind = .identifier ∧ t.text = s.name := ⟨hk, htext.trans hname.symm⟩
  cases hkind : s.kind with
  | function => simp [SymbolKind.isValue, SymbolKind.isCallable, hkind] at hvalue
  | procedure => simp [SymbolKind.isValue, SymbolKind.isCallable, hkind] at hvalue
  | var => exact hspelled
  | param => exact hspelled

theorem exists_startsAt (hitem : item ∈ (parse text).items) (hs : s ∈ ofItem id item) :
    ∃ t ∈ tokensOf text, s.StartsAt t := by
  rw [ofItem_eq] at hs
  rcases List.mem_append.1 hs with hs | hs
  · exact exists_startsAt_of_routine hitem (Option.mem_toList.1 hs)
  · exact exists_startsAt_of_value hitem hs

theorem StartsAt.kind_of_callable {t : Token} (h : s.StartsAt t) (hs : s.kind.isCallable = true) :
    ∃ k, t.kind = .keyword k := by
  have hkind := h.2
  cases hk : s.kind <;> simp only [hk] at hkind
  · exact ⟨_, hkind⟩
  · exact ⟨_, hkind⟩
  · simp [SymbolKind.isCallable, hk] at hs
  · simp [SymbolKind.isCallable, hk] at hs

theorem StartsAt.kind_of_value {t : Token} (h : s.StartsAt t) (hs : s.kind.isValue = true) :
    t.kind = .identifier := by
  have hkind := h.2
  cases hk : s.kind <;> simp only [hk] at hkind
  · simp [SymbolKind.isValue, SymbolKind.isCallable, hk] at hs
  · simp [SymbolKind.isValue, SymbolKind.isCallable, hk] at hs
  · exact hkind.1
  · exact hkind.1

end Symbol

/-! ## The order of the symbols -/

theorem Position.lt_of_le_of_ne {p q : Position} (h : p ≤ q) (hne : p ≠ q) : p < q := by
  by_contra hlt
  refine hne (le_antisymm h ?_)
  rw [lt_def] at hlt
  rw [le_def] at h ⊢
  omega

theorem Position.lt_irrefl (p : Position) : ¬ p < p := by
  rw [lt_def]
  omega

/-- Tokens in order are told apart by where they start. -/
theorem InOrder.eq_of_start_eq {tokens : List Token} (h : InOrder tokens) {t u : Token} (ht : t ∈ tokens)
    (hu : u ∈ tokens) (heq : t.start = u.start) : t = u := by
  have hnodup : (tokens.map (·.start)).Nodup := by
    refine List.pairwise_map.2 (h.pairwise.imp_of_mem fun {a b} ha _ hab hstart => ?_)
    have hlt := Position.lt_of_lt_of_le (h.forward a ha) hab
    rw [hstart] at hlt
    exact Position.lt_irrefl _ hlt
  exact List.inj_on_of_nodup_map hnodup ht hu heq

namespace Symbol

variable {id : DocumentId} {text : String} {item : Item Range}

/-- A symbol lies in the range of its item. -/
theorem within_of_mem {tokens : List Token} {items : List (Item Range)} (h : Item.InTurn tokens items)
    (hitem : item ∈ items) {s : Symbol} (hs : s ∈ ofItem id item) :
    item.range.containsRange s.range = true ∧ s.range.start < s.range.stop := by
  rw [ofItem_eq] at hs
  rcases List.mem_append.1 hs with hs | hs
  · rw [(routine?_spec (Option.mem_toList.1 hs)).2.2.2, Range.containsRange_iff, ← item.range_outline]
    exact ⟨⟨Position.le_refl _, Position.le_refl _⟩, (h.wellNested item hitem).aligned.2.2⟩
  · obtain ⟨-, v, hv, hrange, -⟩ := exists_of_mem_values hs
    rw [hrange]
    exact h.contains hitem hv

/-- A routine starts before all it declares. -/
theorem start_lt_of_value (hitem : item ∈ (parse text).items) {s v : Symbol}
    (hs : routine? id item = some s) (hv : v ∈ values id item) : s.range.start < v.range.start := by
  obtain ⟨-, -, hcallable, hrange⟩ := routine?_spec hs
  obtain ⟨hvalue, w, hw, hvrange, -⟩ := exists_of_mem_values hv
  have hwithin := ((Item.inTurn_parse text).contains hitem hw).1
  rw [Range.containsRange_iff, ← hrange, ← hvrange] at hwithin
  refine Position.lt_of_le_of_ne hwithin.1 ?_
  intro heq
  -- both would start at one token, which cannot be a keyword and an identifier
  obtain ⟨t, ht, hst⟩ := exists_startsAt_of_routine hitem hs
  obtain ⟨u, hu, hvu⟩ := exists_startsAt_of_value hitem hv
  obtain rfl : t = u :=
    (inOrder_tokensOf text).eq_of_start_eq ht hu (hst.1.trans (heq.trans hvu.1.symm))
  obtain ⟨k, hk⟩ := hst.kind_of_callable hcallable
  rw [hvu.kind_of_value hvalue] at hk
  cases hk

theorem pairwise_ofItem (hitem : item ∈ (parse text).items) :
    (ofItem id item).Pairwise (·.range.start < ·.range.start) := by
  have hturn := (Item.inTurn_parse text).sublist (List.singleton_sublist.2 hitem)
  have hmem := List.mem_singleton_self item
  rw [ofItem_eq, List.pairwise_append]
  refine ⟨?_, ?_, ?_⟩
  · cases routine? id item with
    | none => exact List.Pairwise.nil
    | some s => exact List.pairwise_singleton _ s
  · have hvalues : (values id item).Pairwise (·.range.stop ≤ ·.range.start) := by
      rw [← List.flatMap_singleton (values id) item]
      exact pairwise_values hturn
    refine hvalues.imp_of_mem fun {v w} hv _ hvw => ?_
    have hin : v ∈ ofItem id item := by
      rw [ofItem_eq]
      exact List.mem_append_right _ hv
    exact Position.lt_of_lt_of_le (within_of_mem hturn hmem hin).2 hvw
  · intro s hs v hv
    exact start_lt_of_value hitem (Option.mem_toList.1 hs) hv

theorem pairwise_ofItems (id : DocumentId) (text : String) :
    (ofItems id (parse text).items).Pairwise (·.range.start < ·.range.start) := by
  have hturn := Item.inTurn_parse text
  refine List.Pairwise.filter _ (List.pairwise_flatMap.2 ⟨fun item hitem => pairwise_ofItem hitem, ?_⟩)
  have hitems := List.pairwise_map.1 hturn.inTurn
  -- the symbols of an item end before the next item starts
  refine hitems.imp_of_mem fun {a b} ha hb hab s hs t ht => ?_
  rw [a.range_outline, b.range_outline] at hab
  obtain ⟨hsin, hforward⟩ := within_of_mem hturn ha hs
  have htin := (within_of_mem hturn hb ht).1
  rw [Range.containsRange_iff] at hsin htin
  have hle := Position.le_trans hsin.2 (Position.le_trans hab htin.1)
  exact Position.lt_of_lt_of_le hforward hle

end Symbol

/-! ## Nothing is left out, nothing is made up -/

namespace Symbol

variable {id : DocumentId} {items : List (Item Range)}

theorem filter_ofItems (q : Symbol → Bool) :
    (ofItems id items).filter q =
      (items.flatMap fun item => (ofItem id item).filter q).filter (·.name != "") := by
  rw [ofItems, List.filter_comm, List.filter_flatMap]

/-- The symbols of routines are those of the functions and procedures that have names. -/
theorem callable_ofItems :
    (ofItems id items).filter (·.kind.isCallable) =
      (items.filterMap (routine? id)).filter (·.name != "") := by
  have hone (item : Item Range) :
      (ofItem id item).filter (·.kind.isCallable) = (routine? id item).toList := by
    rw [ofItem_eq, List.filter_append, List.filter_eq_self.2, List.filter_eq_nil_iff.2, List.append_nil]
    · intro s hs hcallable
      have hvalue := (exists_of_mem_values hs).1
      rw [SymbolKind.isValue, hcallable] at hvalue
      cases hvalue
    · intro s hs
      exact (routine?_spec (Option.mem_toList.1 hs)).2.2.1
  rw [filter_ofItems, List.filterMap_eq_flatMap_toList]
  simp only [hone]

/-- The symbols of one kind of values are those of a part of what is declared. -/
theorem values_ofItems {kind : SymbolKind} {part : Item Range → List (Variable Range)}
    (hkind : kind.isCallable = false)
    (hpart : ∀ item, (values id item).filter (·.kind == kind) = (part item).map (ofVariable id kind))
    (hnames : ∀ item ∈ items, ∀ v ∈ part item, v.name ≠ "") :
    (ofItems id items).filter (·.kind == kind) = (items.flatMap part).map (ofVariable id kind) := by
  have hcallable (s : Symbol) (hs : s.kind.isCallable = true) : (s.kind == kind) = false := by
    rw [beq_eq_false_iff_ne]
    rintro rfl
    rw [hs] at hkind
    cases hkind
  rw [filter_ofItems, List.map_flatMap]
  simp only [SymbolIndex.filter_ofItem hcallable, hpart]
  refine List.filter_eq_self.2 ?_
  intro s hs
  obtain ⟨item, hitem, hs⟩ := List.mem_flatMap.1 hs
  obtain ⟨v, hv, rfl⟩ := List.mem_map.1 hs
  simpa [ofVariable] using hnames item hitem v hv

/-- All symbols of variables, or none. -/
theorem filter_map_ofVariable (kind other : SymbolKind) (vs : List (Variable Range)) :
    (vs.map (ofVariable id kind)).filter (·.kind == other) =
      if kind = other then vs.map (ofVariable id kind) else [] := by
  split
  · next h => exact List.filter_eq_self.2 (by simp [ofVariable, h])
  · next h => exact List.filter_eq_nil_iff.2 (by simp [ofVariable, h])

theorem filter_values_param (item : Item Range) :
    (values id item).filter (·.kind == .param) = item.params.map (ofVariable id .param) := by
  rw [values, List.filter_append, filter_map_ofVariable, filter_map_ofVariable]
  simp

theorem filter_values_var (item : Item Range) :
    (values id item).filter (·.kind == .var) = item.defines.map (ofVariable id .var) := by
  rw [values, List.filter_append, filter_map_ofVariable, filter_map_ofVariable]
  simp

end Symbol

/-! ## Looking up a position -/

/-- In a table in the order of the text, the first symbol that passes a test starts first. -/
theorem Symbol.find?_eq_some_iff {table : List Symbol}
    (h : table.Pairwise (·.range.start < ·.range.start)) (q : Symbol → Bool) (s : Symbol) :
    table.find? q = some s ↔
      s ∈ table ∧ q s = true ∧ ∀ t ∈ table, q t = true → s.range.start ≤ t.range.start := by
  induction table with
  | nil => simp
  | cons a rest ih =>
      obtain ⟨hfirst, hrest⟩ := List.pairwise_cons.1 h
      by_cases ha : q a = true
      · rw [List.find?_cons_of_pos ha]
        constructor
        · rintro ⟨⟩
          refine ⟨List.mem_cons_self, ha, ?_⟩
          intro t ht _
          rcases List.mem_cons.1 ht with rfl | ht
          · exact Position.le_refl _
          · exact Position.le_of_lt (hfirst t ht)
        · rintro ⟨hs, -, hleast⟩
          rcases List.mem_cons.1 hs with rfl | hs
          · rfl
          · have hlt := Position.lt_of_lt_of_le (hfirst s hs) (hleast a List.mem_cons_self ha)
            exact absurd hlt (Position.lt_irrefl _)
      · rw [List.find?_cons_of_neg ha, ih hrest]
        constructor
        · rintro ⟨hs, hq, hleast⟩
          refine ⟨List.mem_cons_of_mem a hs, hq, List.forall_mem_cons.2 ⟨?_, hleast⟩⟩
          intro hqa
          exact absurd hqa ha
        · rintro ⟨hs, hq, hleast⟩
          rcases List.mem_cons.1 hs with rfl | hs
          · exact absurd hq ha
          · exact ⟨hs, hq, fun t ht => hleast t (List.mem_cons_of_mem a ht)⟩

/-- The symbols of a text are those of its functions and procedures that have names, of all its
    parameters and of all variables of its `DEFINE` statements, at any depth of blocks, each once and in
    the order of the text. Each starts at its own token. So the symbol found at a position is the first
    one around it. -/
theorem symbols_parse (text : String) (index : SymbolIndex) (id : DocumentId) :
    let items := (parse text).items
    let symbols := Symbol.ofItems id items
    symbols.filter (·.kind.isCallable) = (items.filterMap (Symbol.routine? id)).filter (·.name != "") ∧
    symbols.filter (·.kind == .param) = (items.flatMap Item.params).map (Symbol.ofVariable id .param) ∧
    symbols.filter (·.kind == .var) = (items.flatMap Item.defines).map (Symbol.ofVariable id .var) ∧
    symbols.Pairwise (·.range.start < ·.range.start) ∧
    (∀ s ∈ symbols, ∃ t ∈ tokenize text, s.StartsAt t) ∧
    ∀ p, ((index.update id symbols).at? id p = none ↔
        ∀ s ∈ symbols, s.range.containsInclusive p = false) ∧
      ∀ s, (index.update id symbols).at? id p = some s ↔
        s ∈ symbols ∧ s.range.containsInclusive p = true ∧
          ∀ t ∈ symbols, t.range.containsInclusive p = true → s.range.start ≤ t.range.start := by
  intro items symbols
  have hnames (item : Item Range) (hitem : item ∈ items) (v : Variable Range)
      (hv : v ∈ item.params ++ item.defines) : v.name ≠ "" := by
    rw [← Item.declared_eq] at hv
    exact name_ne_empty_of_mem hitem hv
  have hordered : symbols.Pairwise (·.range.start < ·.range.start) := Symbol.pairwise_ofItems id text
  refine ⟨Symbol.callable_ofItems, ?_, ?_, hordered, ?_, ?_⟩
  · refine Symbol.values_ofItems rfl Symbol.filter_values_param fun item hitem v hv => ?_
    exact hnames item hitem v (List.mem_append_left _ hv)
  · refine Symbol.values_ofItems rfl Symbol.filter_values_var fun item hitem v hv => ?_
    exact hnames item hitem v (List.mem_append_right _ hv)
  · intro s hs
    obtain ⟨item, hitem, hs⟩ := List.mem_flatMap.1 (List.mem_filter.1 hs).1
    obtain ⟨t, ht, hstarts⟩ := Symbol.exists_startsAt hitem hs
    refine ⟨t, ?_, hstarts⟩
    rw [tokenize_eq]
    exact List.mem_append_left _ ht
  · intro p
    have hat : (index.update id symbols).at? id p = symbols.find? (·.range.containsInclusive p) := by
      rw [SymbolIndex.at?, SymbolIndex.symbolsOf_update]
    rw [hat]
    refine ⟨?_, Symbol.find?_eq_some_iff hordered _⟩
    simp

end FourthGen
