import FourthGen.Proofs.Document.Numbering
import FourthGen.Proofs.Parser.Declarations
import FourthGen.Symbol.Index

set_option autoImplicit false

/-! # Scopes and the syntax tree

The index of symbols knows no syntax tree: it tells what belongs to a routine by comparing ranges. This
gives what the tree says, since the ranges of a parsed text are well nested. The variables of a routine
lie within its range (`Outline.Holds`), and so not within the range of any other item, for items follow
each other; two routines may touch at a position, but no variable is so short that it would lie in
both. -/

namespace FourthGen

/-! ## What the tree says -/

section

variable {ρ : Type}

mutual

/-- The statement and all statements in its blocks, at any depth, in the order of the text. -/
def Stmt.within : Stmt ρ → List (Stmt ρ)
  | .conditional r condition thenBlock elseBlock =>
    .conditional r condition thenBlock elseBlock ::
      (Stmt.allWithin thenBlock ++ Stmt.allWithin elseBlock)
  | .whileLoop r condition body => .whileLoop r condition body :: Stmt.allWithin body
  | .forLoop r body => .forLoop r body :: Stmt.allWithin body
  | stmt => [stmt]

/-- All statements of a block, at any depth. -/
def Stmt.allWithin : List (Stmt ρ) → List (Stmt ρ)
  | [] => []
  | s :: ss => s.within ++ Stmt.allWithin ss

end

/-- The variables of a `DEFINE` statement. -/
def Stmt.ownVariables : Stmt ρ → List (Variable ρ)
  | .define _ vars => vars
  | _ => []

mutual

/-- The variables that a statement defines are those of the `DEFINE` statements in it. -/
theorem Stmt.definedVariables_eq (s : Stmt ρ) :
    s.definedVariables = s.within.flatMap Stmt.ownVariables := by
  match s with
  | .conditional _ _ thenBlock elseBlock =>
      rw [Stmt.definedVariables, Stmt.variablesOfBlock_eq thenBlock, Stmt.variablesOfBlock_eq elseBlock,
        Stmt.within, List.flatMap_cons, List.flatMap_append]
      rfl
  | .whileLoop _ _ body =>
      rw [Stmt.definedVariables, Stmt.variablesOfBlock_eq body, Stmt.within, List.flatMap_cons]
      rfl
  | .forLoop _ body =>
      rw [Stmt.definedVariables, Stmt.variablesOfBlock_eq body, Stmt.within, List.flatMap_cons]
      rfl
  | .define _ vars => simp [Stmt.definedVariables, Stmt.within, Stmt.ownVariables]
  | .assign .. | .call .. | .giveBack .. | .sql .. | .expression .. => rfl

theorem Stmt.variablesOfBlock_eq (ss : List (Stmt ρ)) :
    Stmt.variablesOfBlock ss = (Stmt.allWithin ss).flatMap Stmt.ownVariables := by
  match ss with
  | [] => rfl
  | s :: ss =>
      rw [Stmt.variablesOfBlock, Stmt.definedVariables_eq s, Stmt.variablesOfBlock_eq ss, Stmt.allWithin,
        List.flatMap_append]

end

namespace Item

/-- Whether the item is a function or a procedure. -/
def isRoutine : Item ρ → Bool
  | function .. | procedure .. => true
  | statement _ => false

/-- The name of a function or a procedure. -/
def routineName? : Item ρ → Option String
  | function _ name _ _ _ => some name
  | procedure _ name _ _ => some name
  | statement _ => none

/-- The parameters of a function or a procedure. -/
def params : Item ρ → List (Variable ρ)
  | function _ _ params _ _ => params
  | procedure _ _ params _ => params
  | statement _ => []

/-- The statements of an item. -/
def body : Item ρ → List (Stmt ρ)
  | function _ _ _ _ body => body
  | procedure _ _ _ body => body
  | statement stmt => [stmt]

/-- The variables of the `DEFINE` statements of an item, at any depth of blocks, in the order of the
    text. -/
def defines (item : Item ρ) : List (Variable ρ) := (Stmt.allWithin item.body).flatMap Stmt.ownVariables

theorem declared_eq (item : Item ρ) : item.declared = item.params ++ item.defines := by
  unfold declared defines
  rw [← Stmt.variablesOfBlock_eq]
  cases item with
  | function => rfl
  | procedure => rfl
  | statement stmt => simp [params, body, Stmt.variablesOfBlock]

theorem params_of_not_isRoutine {item : Item ρ} (h : item.isRoutine = false) : item.params = [] := by
  cases item with
  | function => cases h
  | procedure => cases h
  | statement => rfl

end Item

end

theorem Item.range_outline (item : Item Range) : item.outline.range = item.range := by
  cases item with
  | function => rfl
  | procedure => rfl
  | statement stmt =>
      cases stmt with
      | giveBack _ value => cases value <;> rfl
      | _ => rfl

/-! ## Variables lie within the outlines of what declares them -/

theorem Range.containsRange_iff {r s : Range} :
    r.containsRange s = true ↔ r.start ≤ s.start ∧ s.stop ≤ r.stop := by
  rw [containsRange, decide_eq_true_eq]

theorem Range.containsRange_trans {r s t : Range} (hrs : r.containsRange s = true)
    (hst : s.containsRange t = true) : r.containsRange t = true := by
  rw [containsRange_iff] at *
  exact ⟨Position.le_trans hrs.1 hst.1, Position.le_trans hst.2 hrs.2⟩

/-- What lies in one of two ranges that follow each other does not lie in the other. -/
theorem Range.not_contains_of_le {r s t : Range} (hrs : r.stop ≤ s.start) (ht : t.start < t.stop)
    (hr : r.containsRange t = true) (hs : s.containsRange t = true) : False := by
  rw [containsRange_iff] at hr hs
  have hle := Position.le_trans hr.2 (Position.le_trans hrs hs.1)
  have hlt := Position.lt_of_le_of_lt hle ht
  rw [Position.lt_def] at hlt
  omega

namespace Outline

/-- The variables lie each in one of the outlines, and they follow each other. -/
structure Holds (os : List Outline) (vs : List (Variable Range)) : Prop where
  within : ∀ v ∈ vs, ∃ o ∈ os, o.range.containsRange v.range = true
  forward : ∀ v ∈ vs, v.range.start < v.range.stop
  inTurn : vs.Pairwise fun v w => v.range.stop ≤ w.range.start

namespace Holds

theorem nil (os : List Outline) : Holds os [] := ⟨by simp, by simp, .nil⟩

theorem mono {os qs : List Outline} {vs : List (Variable Range)} (h : Holds os vs) (hsub : os ⊆ qs) :
    Holds qs vs := by
  refine ⟨?_, h.forward, h.inTurn⟩
  intro v hv
  obtain ⟨o, ho, hin⟩ := h.within v hv
  exact ⟨o, hsub ho, hin⟩

theorem append {os qs : List Outline} {vs ws : List (Variable Range)} (hturn : InTurn (os ++ qs))
    (hvs : Holds os vs) (hws : Holds qs ws) : Holds (os ++ qs) (vs ++ ws) := by
  refine ⟨?_, ?_, List.pairwise_append.2 ⟨hvs.inTurn, hws.inTurn, ?_⟩⟩
  · intro v hv
    rcases List.mem_append.1 hv with hv | hv
    · obtain ⟨o, ho, hin⟩ := hvs.within v hv
      exact ⟨o, List.mem_append_left qs ho, hin⟩
    · obtain ⟨o, ho, hin⟩ := hws.within v hv
      exact ⟨o, List.mem_append_right os ho, hin⟩
  · intro v hv
    rcases List.mem_append.1 hv with hv | hv
    · exact hvs.forward v hv
    · exact hws.forward v hv
  · intro v hv w hw
    obtain ⟨o, ho, hov⟩ := hvs.within v hv
    obtain ⟨q, hq, hqw⟩ := hws.within w hw
    rw [Range.containsRange_iff] at hov hqw
    have hoq := (List.pairwise_append.1 hturn).2.2 o ho q hq
    exact Position.le_trans hov.2 (Position.le_trans hoq hqw.1)

/-- What lies in the parts of a node lies in the node. -/
theorem node {tokens : List Token} {r : Range} {os : List Outline} {vs : List (Variable Range)}
    (hn : (Outline.node r os).WellNested tokens) (h : Holds os vs) : Holds [.node r os] vs := by
  cases hn with
  | node _ hin _ _ =>
      refine ⟨?_, h.forward, h.inTurn⟩
      intro v hv
      obtain ⟨o, ho, hov⟩ := h.within v hv
      exact ⟨.node r os, List.mem_singleton_self _, Range.containsRange_trans (hin o ho) hov⟩

/-- Variables lie in their own outlines. -/
theorem vars {tokens : List Token} {vs : List (Variable Range)}
    (hturn : InTurn (vs.map Variable.outline))
    (hwn : ∀ o ∈ vs.map Variable.outline, o.WellNested tokens) :
    Holds (vs.map Variable.outline) vs := by
  refine ⟨?_, ?_, List.pairwise_map.1 hturn⟩
  · intro v hv
    refine ⟨v.outline, List.mem_map_of_mem hv, ?_⟩
    rw [Range.containsRange_iff]
    exact ⟨Position.le_refl _, Position.le_refl _⟩
  · intro v hv
    exact (hwn v.outline (List.mem_map_of_mem hv)).aligned.2.2

end Holds

end Outline

open Outline

mutual

theorem Stmt.holds {tokens : List Token} (s : Stmt Range) (h : s.outline.WellNested tokens) :
    Holds [s.outline] s.definedVariables := by
  match s with
  | .define r vars =>
      refine Holds.node h ?_
      cases h with
      | node _ _ hturn hwn => exact Holds.vars hturn hwn
  | .conditional r condition thenBlock elseBlock =>
      refine Holds.node h ?_
      cases h with
      | node _ _ hturn hwn =>
          have hblocks := (List.pairwise_append.1 hturn).2.1
          have hthen := Stmt.holdsAll thenBlock (List.pairwise_append.1 hblocks).1
            fun o ho => hwn o (List.mem_append_right _ (List.mem_append_left _ ho))
          have helse := Stmt.holdsAll elseBlock (List.pairwise_append.1 hblocks).2.1
            fun o ho => hwn o (List.mem_append_right _ (List.mem_append_right _ ho))
          exact (Holds.append hblocks hthen helse).mono (List.subset_append_right _ _)
  | .whileLoop r condition body =>
      refine Holds.node h ?_
      cases h with
      | node _ _ hturn hwn =>
          have hbody := Stmt.holdsAll body (List.pairwise_append.1 hturn).2.1
            fun o ho => hwn o (List.mem_append_right _ ho)
          exact hbody.mono (List.subset_append_right _ _)
  | .forLoop r body =>
      refine Holds.node h ?_
      cases h with
      | node _ _ hturn hwn => exact Stmt.holdsAll body hturn hwn
  | .assign .. | .call .. | .giveBack .. | .sql .. | .expression .. => exact Holds.nil _

theorem Stmt.holdsAll {tokens : List Token} (ss : List (Stmt Range))
    (hturn : InTurn (Stmt.outlineAll ss)) (h : ∀ o ∈ Stmt.outlineAll ss, o.WellNested tokens) :
    Holds (Stmt.outlineAll ss) (Stmt.variablesOfBlock ss) := by
  match ss with
  | [] => exact Holds.nil []
  | s :: ss =>
      rw [Stmt.outlineAll, List.forall_mem_cons] at h
      have htail : InTurn (Stmt.outlineAll ss) := (List.pairwise_cons.1 hturn).2
      exact Holds.append hturn (Stmt.holds s h.1) (Stmt.holdsAll ss htail h.2)

end

namespace Item

theorem holds {tokens : List Token} {item : Item Range} (h : item.outline.WellNested tokens) :
    Holds [item.outline] item.declared := by
  -- the parameters of a routine stand before its statements
  have hroutine {r : Range} {params : List (Variable Range)} {body : List (Stmt Range)}
      (h : (Outline.node r (params.map Variable.outline ++ body.map Stmt.outline)).WellNested tokens) :
      Holds [.node r (params.map Variable.outline ++ body.map Stmt.outline)]
        (params ++ Stmt.variablesOfBlock body) := by
    refine Holds.node h ?_
    cases h with
    | node _ _ hturn hwn =>
        have hparts := List.pairwise_append.1 hturn
        have hparams := Holds.vars hparts.1 fun o ho => hwn o (List.mem_append_left _ ho)
        have hbody : Holds (body.map Stmt.outline) (Stmt.variablesOfBlock body) := by
          rw [← Stmt.outlineAll_eq_map] at hwn hparts ⊢
          exact Stmt.holdsAll body hparts.2.1 fun o ho => hwn o (List.mem_append_right _ ho)
        exact Holds.append hturn hparams hbody
  cases item with
  | function => exact hroutine h
  | procedure => exact hroutine h
  | statement stmt => exact Stmt.holds stmt h

/-- Items with outlines that are well nested and follow each other. -/
structure InTurn (tokens : List Token) (items : List (Item Range)) : Prop where
  inTurn : Outline.InTurn (items.map outline)
  wellNested : ∀ item ∈ items, item.outline.WellNested tokens

namespace InTurn

variable {tokens : List Token} {items : List (Item Range)}

theorem sublist {items' : List (Item Range)} (h : InTurn tokens items) (hsub : items'.Sublist items) :
    InTurn tokens items' :=
  ⟨h.inTurn.sublist (hsub.map outline), fun item hitem => h.wellNested item (hsub.subset hitem)⟩

theorem holds (h : InTurn tokens items) : Holds (items.map outline) (items.flatMap declared) := by
  induction items with
  | nil => exact Holds.nil []
  | cons item items ih =>
      have hhead := Item.holds (h.wellNested item List.mem_cons_self)
      have htail := ih (h.sublist (List.sublist_cons_self item items))
      exact Holds.append h.inTurn hhead htail

theorem contains (h : InTurn tokens items) {item : Item Range} (hitem : item ∈ items)
    {v : Variable Range} (hv : v ∈ item.declared) :
    item.range.containsRange v.range = true ∧ v.range.start < v.range.stop := by
  have hholds := Item.holds (h.wellNested item hitem)
  obtain ⟨o, ho, hin⟩ := hholds.within v hv
  rw [List.mem_singleton.1 ho, item.range_outline] at hin
  exact ⟨hin, hholds.forward v hv⟩

/-- A variable of one item lies in the range of no other. -/
theorem not_contains {before after : List (Item Range)} {item other : Item Range}
    (h : InTurn tokens (before ++ item :: after)) (hother : other ∈ before ++ after)
    {v : Variable Range} (hv : v ∈ other.declared) : item.range.containsRange v.range = false := by
  have hmem : other ∈ before ++ item :: after := by
    rcases List.mem_append.1 hother with hother | hother
    · exact List.mem_append_left _ hother
    · exact List.mem_append_right _ (List.mem_cons_of_mem _ hother)
  obtain ⟨hin, hforward⟩ := h.contains hmem hv
  have hparts := List.pairwise_append.1 (List.pairwise_map.1 h.inTurn)
  simp only [range_outline] at hparts
  rw [Bool.eq_false_iff]
  intro hitem
  rcases List.mem_append.1 hother with hother | hother
  · exact Range.not_contains_of_le (hparts.2.2 other hother item List.mem_cons_self) hforward hin hitem
  · exact Range.not_contains_of_le ((List.pairwise_cons.1 hparts.2.1).1 other hother) hforward hitem hin

theorem not_contains_of_ne (h : InTurn tokens items) {item other : Item Range} (hitem : item ∈ items)
    (hother : other ∈ items) (hne : item ≠ other) {v : Variable Range} (hv : v ∈ other.declared) :
    item.range.containsRange v.range = false := by
  obtain ⟨before, after, rfl⟩ := List.append_of_mem hitem
  refine h.not_contains ?_ hv
  rcases List.mem_append.1 hother with hmem | hmem
  · exact List.mem_append_left _ hmem
  · rcases List.mem_cons.1 hmem with rfl | hmem
    · exact absurd rfl hne
    · exact List.mem_append_right _ hmem

end InTurn

/-- The items of a text are in turn. -/
theorem inTurn_parse (text : String) : InTurn (tokensOf text) (parse text).items := by
  have hread := readProgram_spans ⟨[], tokensOf text, eofOf text⟩
  obtain ⟨us, hus, hfits⟩ := hread.2 ⟨eofOf_kind text, inOrder_tokensOf text⟩
  have hsub : us ⊆ tokensOf text := by
    have hahead : tokensOf text = us ++ _ := hus.ahead
    rw [hahead]
    exact List.subset_append_left us _
  rw [parse_eq]
  refine ⟨hfits.inTurn, ?_⟩
  intro item hitem
  exact (hfits.wellNested _ (List.mem_map_of_mem hitem)).mono hsub

end Item

/-! ## The symbols of an item -/

namespace Symbol

variable (id : DocumentId)

/-- The symbol of an item that is a routine. -/
def routine? : Item Range → Option Symbol
  | .function range name params returns _ => some (ofRoutine id .function range name params returns)
  | .procedure range name params _ => some (ofRoutine id .procedure range name params none)
  | .statement _ => none

/-- The symbols of the parameters and variables of an item. -/
def values (item : Item Range) : List Symbol :=
  item.params.map (ofVariable id .param) ++ item.defines.map (ofVariable id .var)

variable {id}

theorem ofItem_eq (item : Item Range) : ofItem id item = (routine? id item).toList ++ values id item := by
  unfold values Item.defines
  rw [← Stmt.variablesOfBlock_eq]
  cases item with
  | function => rfl
  | procedure => rfl
  | statement stmt => simp [ofItem, routine?, Item.params, Item.body, Stmt.variablesOfBlock]

theorem routine?_spec {item : Item Range} {s : Symbol} (h : routine? id item = some s) :
    item.isRoutine = true ∧ item.routineName? = some s.name ∧ s.kind.isCallable = true ∧
      s.range = item.range := by
  cases item with
  | function =>
      cases h
      exact ⟨rfl, rfl, rfl, rfl⟩
  | procedure =>
      cases h
      exact ⟨rfl, rfl, rfl, rfl⟩
  | statement => cases h

theorem exists_routine (id : DocumentId) {item : Item Range} (h : item.isRoutine = true) :
    ∃ s, routine? id item = some s := by
  cases item with
  | function => exact ⟨_, rfl⟩
  | procedure => exact ⟨_, rfl⟩
  | statement => cases h

/-- A value of an item is a parameter or a variable that it declares. -/
theorem exists_of_mem_values {item : Item Range} {s : Symbol} (h : s ∈ values id item) :
    s.kind.isValue = true ∧ ∃ v ∈ item.declared, s.range = v.range ∧ s.name = v.name := by
  rw [Item.declared_eq]
  rcases List.mem_append.1 h with h | h
  · obtain ⟨v, hv, rfl⟩ := List.mem_map.1 h
    exact ⟨rfl, v, List.mem_append_left _ hv, rfl, rfl⟩
  · obtain ⟨v, hv, rfl⟩ := List.mem_map.1 h
    exact ⟨rfl, v, List.mem_append_right _ hv, rfl, rfl⟩

theorem values_of_not_isRoutine {item : Item Range} (h : item.isRoutine = false) :
    values id item = item.defines.map (ofVariable id .var) := by
  rw [values, Item.params_of_not_isRoutine h, List.map_nil, List.nil_append]

theorem range_values (item : Item Range) :
    (values id item).map (·.range) = item.declared.map (·.range) := by
  rw [Item.declared_eq]
  simp [values, ofVariable, Function.comp_def]

/-- Values follow each other as what they stand for does. -/
theorem pairwise_values {items : List (Item Range)} {tokens : List Token}
    (h : Item.InTurn tokens items) :
    (items.flatMap (values id)).Pairwise (·.range.stop ≤ ·.range.start) := by
  have hranges : ((items.flatMap Item.declared).map (·.range)).Pairwise (·.stop ≤ ·.start) :=
    List.pairwise_map.2 h.holds.inTurn
  have hmap : (items.flatMap (values id)).map (·.range) =
      (items.flatMap Item.declared).map (·.range) := by
    simp only [List.map_flatMap, range_values]
  rw [← hmap] at hranges
  exact List.pairwise_map.1 hranges

/-- No symbol is left out where all have names. -/
theorem ofItems_eq {items : List (Item Range)}
    (hroutines : ∀ item ∈ items, item.routineName? ≠ some "")
    (hvars : ∀ item ∈ items, ∀ v ∈ item.declared, v.name ≠ "") :
    ofItems id items = items.flatMap (ofItem id) := by
  refine List.filter_eq_self.2 ?_
  intro s hs
  obtain ⟨item, hitem, hs⟩ := List.mem_flatMap.1 hs
  rw [ofItem_eq] at hs
  rw [bne_iff_ne]
  intro hempty
  rcases List.mem_append.1 hs with hs | hs
  · have hname := (routine?_spec (Option.mem_toList.1 hs)).2.1
    exact hroutines item hitem (by rw [hname, hempty])
  · obtain ⟨-, v, hv, -, hname⟩ := exists_of_mem_values hs
    exact hvars item hitem v hv (by rw [← hname, hempty])

end Symbol

/-! ## What the index says -/

namespace SymbolIndex

theorem symbolsOf_update (index : SymbolIndex) (id : DocumentId) (table : List Symbol) :
    (index.update id table).symbolsOf id = table := by
  rw [symbolsOf, table?, update, DocumentId.find?_insert_self]
  rfl

theorem variablesInScope_of_some {index : SymbolIndex} {id : DocumentId} {symbols : List Symbol}
    {p : Position} {scope : Symbol} (hsymbols : index.symbolsOf id = symbols)
    (hscope : scopeAt? symbols p = some scope) :
    index.variablesInScope id p = valuesIn symbols scope.range := by
  rw [variablesInScope, hsymbols, hscope]

theorem variablesInScope_of_none {index : SymbolIndex} {id : DocumentId} {symbols : List Symbol}
    {p : Position} (hsymbols : index.symbolsOf id = symbols) (hscope : scopeAt? symbols p = none) :
    index.variablesInScope id p = globals symbols := by
  rw [variablesInScope, hsymbols, hscope]

theorem narrowest?_mem {symbols : List Symbol} {s : Symbol} (h : narrowest? symbols = some s) :
    s ∈ symbols := by
  induction symbols with
  | nil => cases h
  | cons t rest ih =>
      unfold narrowest? at h
      split at h
      · cases h
        exact List.mem_cons_self
      · next u hu =>
        split at h
        · cases h
          exact List.mem_cons_of_mem t (ih hu)
        · cases h
          exact List.mem_cons_self

theorem narrowest?_eq_none {symbols : List Symbol} (h : narrowest? symbols = none) : symbols = [] := by
  cases symbols with
  | nil => rfl
  | cons t rest =>
      unfold narrowest? at h
      split at h
      · cases h
      · split at h <;> cases h

section

variable {id : DocumentId} {tokens : List Token} {items : List (Item Range)}

/-- The callable symbols of items are those of the routines among them. -/
theorem exists_routine_of_callable {s : Symbol} (hs : s ∈ items.flatMap (Symbol.ofItem id))
    (hk : s.kind.isCallable = true) :
    ∃ item ∈ items, item.isRoutine = true ∧ s.range = item.range := by
  obtain ⟨item, hitem, hs⟩ := List.mem_flatMap.1 hs
  rw [Symbol.ofItem_eq] at hs
  rcases List.mem_append.1 hs with hs | hs
  · obtain ⟨hroutine, -, -, hrange⟩ := Symbol.routine?_spec (Option.mem_toList.1 hs)
    exact ⟨item, hitem, hroutine, hrange⟩
  · have hvalue := (Symbol.exists_of_mem_values hs).1
    rw [SymbolKind.isValue, hk] at hvalue
    cases hvalue

theorem exists_callable (id : DocumentId) {item : Item Range} (hitem : item ∈ items)
    (hr : item.isRoutine = true) :
    ∃ s ∈ items.flatMap (Symbol.ofItem id), s.kind.isCallable = true ∧ s.range = item.range := by
  obtain ⟨s, hs⟩ := Symbol.exists_routine id hr
  obtain ⟨-, -, hcallable, hrange⟩ := Symbol.routine?_spec hs
  refine ⟨s, List.mem_flatMap.2 ⟨item, hitem, ?_⟩, hcallable, hrange⟩
  rw [Symbol.ofItem_eq, hs]
  exact List.mem_append_left _ (List.mem_singleton_self s)

/-- The scope at a position is the range of a routine around it, if there is one. -/
theorem scopeAt?_cases (id : DocumentId) (items : List (Item Range)) (p : Position) :
    (∃ item ∈ items, item.isRoutine = true ∧ item.range.containsInclusive p = true ∧
      ∃ s, scopeAt? (items.flatMap (Symbol.ofItem id)) p = some s ∧ s.range = item.range) ∨
    ((∀ item ∈ items, item.isRoutine = true → item.range.containsInclusive p = false) ∧
      scopeAt? (items.flatMap (Symbol.ofItem id)) p = none) := by
  cases hscope : scopeAt? (items.flatMap (Symbol.ofItem id)) p with
  | some s =>
      obtain ⟨hs, htest⟩ := List.mem_filter.1 (narrowest?_mem hscope)
      rw [Bool.and_eq_true] at htest
      obtain ⟨item, hitem, hroutine, hrange⟩ := exists_routine_of_callable hs htest.1
      exact .inl ⟨item, hitem, hroutine, hrange ▸ htest.2, s, rfl, hrange⟩
  | none =>
      refine .inr ⟨?_, rfl⟩
      intro item hitem hroutine
      obtain ⟨s, hs, hcallable, hrange⟩ := exists_callable id hitem hroutine
      have hnot := List.filter_eq_nil_iff.1 (narrowest?_eq_none hscope) s hs
      rw [hcallable, Bool.true_and, hrange] at hnot
      exact Bool.eq_false_iff.2 hnot

/-- A test that fails on the symbols of routines keeps what it keeps of the values. -/
theorem filter_ofItem {q : Symbol → Bool} (hq : ∀ s, s.kind.isCallable = true → q s = false)
    (item : Item Range) : (Symbol.ofItem id item).filter q = (Symbol.values id item).filter q := by
  rw [Symbol.ofItem_eq, List.filter_append, List.filter_eq_nil_iff.2, List.nil_append]
  intro s hs
  rw [hq s (Symbol.routine?_spec (Option.mem_toList.1 hs)).2.2.1]
  exact Bool.false_ne_true

/-- The values in the range of a routine are its own. -/
theorem valuesIn_eq (h : Item.InTurn tokens items) {item : Item Range} (hitem : item ∈ items) :
    valuesIn (items.flatMap (Symbol.ofItem id)) item.range = Symbol.values id item := by
  have hcallable (s : Symbol) (hs : s.kind.isCallable = true) :
      (s.kind.isValue && item.range.containsRange s.range) = false := by
    rw [SymbolKind.isValue, hs]
    rfl
  obtain ⟨before, after, rfl⟩ := List.append_of_mem hitem
  have hown : (Symbol.values id item).filter
      (fun s => s.kind.isValue && item.range.containsRange s.range) = Symbol.values id item := by
    refine List.filter_eq_self.2 ?_
    intro s hs
    obtain ⟨hvalue, v, hv, hrange, -⟩ := Symbol.exists_of_mem_values hs
    rw [hvalue, hrange, (h.contains hitem hv).1]
    rfl
  have hother (others : List (Item Range)) (hsub : others ⊆ before ++ after) :
      (others.flatMap fun other => (Symbol.values id other).filter
        fun s => s.kind.isValue && item.range.containsRange s.range) = [] := by
    refine List.flatMap_eq_nil_iff.2 ?_
    intro other hmem
    refine List.filter_eq_nil_iff.2 ?_
    intro s hs
    obtain ⟨-, v, hv, hrange, -⟩ := Symbol.exists_of_mem_values hs
    rw [hrange, h.not_contains (hsub hmem) hv, Bool.and_false]
    exact Bool.false_ne_true
  rw [valuesIn, List.filter_flatMap]
  simp only [filter_ofItem hcallable]
  rw [List.flatMap_append, List.flatMap_cons, hown, hother before (List.subset_append_left _ _),
    hother after (List.subset_append_right _ _), List.append_nil, List.nil_append]

/-- A test that tells the values of routines from those of statements. -/
theorem flatMap_filter_values {q : Symbol → Bool}
    (hin : ∀ item ∈ items, item.isRoutine = true → ∀ s ∈ Symbol.values id item, q s = false)
    (hout : ∀ item ∈ items, item.isRoutine = false → ∀ s ∈ Symbol.values id item, q s = true) :
    (items.flatMap fun item => (Symbol.values id item).filter q) =
      (items.filter (!·.isRoutine)).flatMap (Symbol.values id) := by
  induction items with
  | nil => rfl
  | cons item items ih =>
      rw [List.forall_mem_cons] at hin hout
      rw [List.flatMap_cons, ih hin.2 hout.2]
      cases hroutine : item.isRoutine with
      | true =>
          have hnone : (Symbol.values id item).filter q = [] := by
            refine List.filter_eq_nil_iff.2 ?_
            intro s hs
            rw [hin.1 hroutine s hs]
            exact Bool.false_ne_true
          rw [hnone, List.nil_append, List.filter_cons_of_neg (by simp [hroutine])]
      | false =>
          rw [List.filter_eq_self.2 (hout.1 hroutine), List.filter_cons_of_pos (by simp [hroutine]),
            List.flatMap_cons]

/-- Whether a range lies in one of a callable symbol is whether it lies in one of a routine. -/
theorem any_scope_eq (r : Range) :
    (((items.flatMap (Symbol.ofItem id)).filter (·.kind.isCallable)).map (·.range)).any
      (·.containsRange r) = items.any fun item => item.isRoutine && item.range.containsRange r := by
  rw [Bool.eq_iff_iff, List.any_eq_true, List.any_eq_true]
  constructor
  · rintro ⟨q, hq, hin⟩
    obtain ⟨s, hs, rfl⟩ := List.mem_map.1 hq
    obtain ⟨item, hitem, hroutine, hrange⟩ :=
      exists_routine_of_callable (List.mem_filter.1 hs).1 (List.mem_filter.1 hs).2
    exact ⟨item, hitem, by rw [hroutine, ← hrange, hin]; rfl⟩
  · rintro ⟨item, hitem, htest⟩
    rw [Bool.and_eq_true] at htest
    obtain ⟨s, hs, hk, hrange⟩ := exists_callable id hitem htest.1
    exact ⟨s.range, List.mem_map_of_mem (List.mem_filter.2 ⟨hs, hk⟩), by rw [hrange, htest.2]⟩

/-- The variables outside of all routines are those of the statements that are items. -/
theorem globals_eq (h : Item.InTurn tokens items) :
    globals (items.flatMap (Symbol.ofItem id)) =
      (items.filter (!·.isRoutine)).flatMap (Symbol.values id) := by
  have hcallable (s : Symbol) (hs : s.kind.isCallable = true) :
      (s.kind == .var && !items.any fun item => item.isRoutine && item.range.containsRange s.range)
        = false := by
    have hne : (s.kind == .var) = false := by
      rw [beq_eq_false_iff_ne]
      intro hvar
      rw [hvar] at hs
      cases hs
    rw [hne, Bool.false_and]
  simp only [globals, any_scope_eq]
  rw [List.filter_flatMap]
  simp only [filter_ofItem hcallable]
  refine flatMap_filter_values ?_ ?_
  · -- the variables of a routine lie in its range
    intro item hitem hroutine s hs
    obtain ⟨-, v, hv, hrange, -⟩ := Symbol.exists_of_mem_values hs
    have hin : (items.any fun item => item.isRoutine && item.range.containsRange s.range) = true := by
      refine List.any_eq_true.2 ⟨item, hitem, ?_⟩
      rw [hroutine, hrange, (h.contains hitem hv).1]
      rfl
    rw [hin, Bool.not_true, Bool.and_false]
  · intro item hitem hroutine s hs
    obtain ⟨-, v, hv, hrange, -⟩ := Symbol.exists_of_mem_values hs
    have hkind : s.kind = .var := by
      rw [Symbol.values_of_not_isRoutine hroutine] at hs
      obtain ⟨w, -, rfl⟩ := List.mem_map.1 hs
      rfl
    have hnone : (items.any fun other => other.isRoutine && other.range.containsRange s.range) = false := by
      rw [List.any_eq_false]
      intro other hother htest
      rw [Bool.and_eq_true] at htest
      have hne : other ≠ item := by
        rintro rfl
        rw [hroutine] at htest
        cases htest.1
      rw [hrange, h.not_contains_of_ne hother hitem hne hv] at htest
      cases htest.2
    rw [hkind, hnone]
    rfl

end

end SymbolIndex

/-! ## Scope lookup -/

/-- The values of the statements that are items are their variables. -/
theorem Symbol.values_statements (id : DocumentId) (items : List (Item Range)) :
    (items.filter (!·.isRoutine)).flatMap (Symbol.values id) =
      ((items.filter (!·.isRoutine)).flatMap Item.defines).map (Symbol.ofVariable id .var) := by
  rw [List.map_flatMap]
  refine List.flatMap_congr ?_
  intro item hitem
  have hroutine := (List.mem_filter.1 hitem).2
  rw [Bool.not_eq_true'] at hroutine
  exact Symbol.values_of_not_isRoutine hroutine

/-- The variables in scope at a position of a text are those that the syntax tree says: inside a
    routine its parameters, then the variables of its `DEFINE` statements at any depth; outside of all
    routines the variables of the `DEFINE` statements that are in no routine. Always in the order of the
    text. -/
theorem variablesInScope_parse (text : String) (index : SymbolIndex) (id : DocumentId) (p : Position)
    (hnames : ∀ item ∈ (parse text).items, item.routineName? ≠ some "") :
    let items := (parse text).items
    let inScope := (index.update id (Symbol.ofItems id items)).variablesInScope id p
    ((∃ item ∈ items, item.isRoutine = true ∧ item.range.containsInclusive p = true) →
      ∃ item ∈ items, item.isRoutine = true ∧ item.range.containsInclusive p = true ∧
        inScope = item.params.map (Symbol.ofVariable id .param) ++
          item.defines.map (Symbol.ofVariable id .var)) ∧
    ((∀ item ∈ items, item.isRoutine = true → item.range.containsInclusive p = false) →
      inScope = ((items.filter (!·.isRoutine)).flatMap Item.defines).map (Symbol.ofVariable id .var) ∧
      ∀ item ∈ items, item.isRoutine = true → ∀ v ∈ item.params ++ item.defines,
        ∀ s ∈ inScope, s.range ≠ v.range) ∧
    inScope.Pairwise (·.range.stop ≤ ·.range.start) := by
  intro items inScope
  have hturn : Item.InTurn (tokensOf text) items := Item.inTurn_parse text
  have htable : Symbol.ofItems id items = items.flatMap (Symbol.ofItem id) :=
    Symbol.ofItems_eq hnames fun item hitem v hv => name_ne_empty_of_mem hitem hv
  have hsymbols : (index.update id (Symbol.ofItems id items)).symbolsOf id =
      items.flatMap (Symbol.ofItem id) := by
    rw [SymbolIndex.symbolsOf_update, htable]
  rcases SymbolIndex.scopeAt?_cases id items p with
    ⟨item, hitem, hroutine, hin, s, hs, hrange⟩ | ⟨hnone, hs⟩
  · have hvalues : inScope = Symbol.values id item := by
      rw [← SymbolIndex.valuesIn_eq hturn hitem, ← hrange]
      exact SymbolIndex.variablesInScope_of_some hsymbols hs
    refine ⟨?_, ?_, ?_⟩
    · intro _
      exact ⟨item, hitem, hroutine, hin, hvalues⟩
    · intro hnone
      rw [hnone item hitem hroutine] at hin
      cases hin
    · rw [hvalues, ← List.flatMap_singleton (Symbol.values id) item]
      exact Symbol.pairwise_values (hturn.sublist (List.singleton_sublist.2 hitem))
  · have hvalues : inScope = (items.filter (!·.isRoutine)).flatMap (Symbol.values id) := by
      rw [← SymbolIndex.globals_eq hturn]
      exact SymbolIndex.variablesInScope_of_none hsymbols hs
    refine ⟨?_, ?_, ?_⟩
    · rintro ⟨item, hitem, hroutine, hin⟩
      rw [hnone item hitem hroutine] at hin
      cases hin
    · intro _
      refine ⟨hvalues.trans (Symbol.values_statements id items), ?_⟩
      intro item hitem hroutine v hv s hmem
      rw [hvalues] at hmem
      obtain ⟨other, hother, hmem⟩ := List.mem_flatMap.1 hmem
      obtain ⟨-, w, hw, hwrange, -⟩ := Symbol.exists_of_mem_values hmem
      obtain ⟨hother, hnot⟩ := List.mem_filter.1 hother
      have hne : item ≠ other := by
        rintro rfl
        rw [hroutine] at hnot
        cases hnot
      rw [← Item.declared_eq] at hv
      have hin := (hturn.contains hitem hv).1
      have hout := hturn.not_contains_of_ne hitem hother hne hw
      intro heq
      rw [← hwrange, heq, hin] at hout
      cases hout
    · rw [hvalues]
      exact Symbol.pairwise_values (hturn.sublist List.filter_sublist)

/-- In the function its parameter and its variable, outside of it the variable of the statement. -/
theorem variablesInScope_of_function :
    let text := "DEFINE g CHAR\nFUNCTION f(a CHAR)\nDEFINE b CHAR\nEND"
    let index := SymbolIndex.empty.update ⟨0⟩ (Symbol.ofItems ⟨0⟩ (parse text).items)
    (index.variablesInScope ⟨0⟩ ⟨3, 1⟩).map (·.name) = ["a", "b"] ∧
      (index.variablesInScope ⟨0⟩ ⟨0, 3⟩).map (·.name) = ["g"] := by
  intro text index
  have hitems : ∀ item ∈ (parse text).items, item.routineName? ≠ some "" ∧
      (item.isRoutine = true → item.range.containsInclusive ⟨0, 3⟩ = false ∧
        item.range.containsInclusive ⟨3, 1⟩ = true ∧
        (item.params ++ item.defines).map (·.name) = ["a", "b"]) := by decide +kernel
  have hsome : ∃ item ∈ (parse text).items, item.isRoutine = true := by decide +kernel
  have hnames : ∀ item ∈ (parse text).items, item.routineName? ≠ some "" :=
    fun item hitem => (hitems item hitem).1
  constructor
  · obtain ⟨f, hf, hroutine⟩ := hsome
    obtain ⟨item, hitem, hroutine, -, heq⟩ :=
      (variablesInScope_parse text .empty ⟨0⟩ ⟨3, 1⟩ hnames).1
        ⟨f, hf, hroutine, ((hitems f hf).2 hroutine).2.1⟩
    rw [← ((hitems item hitem).2 hroutine).2.2, heq]
    simp [Symbol.ofVariable, Function.comp_def]
  · rw [((variablesInScope_parse text .empty ⟨0⟩ ⟨0, 3⟩ hnames).2.1
      fun item hitem hroutine => ((hitems item hitem).2 hroutine).1).1]
    decide +kernel

end FourthGen
