import FourthGen.Proofs.Workspace.Consistency

set_option autoImplicit false

/-! # What a workspace forgets

What a workspace answers depends on the addresses and texts of its open documents and on their order,
and on nothing else that happened before (`Workspace.run_forgets_history`). Documents have other
numbers in another history, and every symbol carries the number of its document; but no answer is made
of that number. So all symbols are compared without it (`Symbol.anonymous`), and the two questions that
use symbols are shown to depend on no more than the anonymous symbols of all documents and of the
document they are asked about (`SymbolIndex.Alike`). -/

namespace FourthGen

/-! ## Symbols without their documents -/

namespace Symbol

/-- The symbol without the number of its document. -/
def anonymous (s : Symbol) : Symbol := { s with document := ⟨0⟩ }

/-- What is looked up by anything but the document can be looked up among anonymous symbols. -/
theorem filter_anonymous {q : Symbol → Bool} (hq : ∀ s, q s.anonymous = q s) (ss : List Symbol) :
    (ss.filter q).map anonymous = (ss.map anonymous).filter q := by
  have hcomp : q ∘ anonymous = q := funext hq
  rw [List.filter_map, hcomp]

theorem ofInside_anonymous (id : DocumentId) (params : List (Variable Range))
    (body : List (Stmt Range)) :
    (ofInside id params body).map anonymous = ofInside ⟨0⟩ params body := by
  simp only [ofInside, List.map_append, List.map_map]
  rfl

theorem ofItem_anonymous (id : DocumentId) (i : Item Range) :
    (ofItem id i).map anonymous = ofItem ⟨0⟩ i := by
  cases i with
  | function range name params returns body =>
      rw [ofItem, ofItem, List.map_cons, ofInside_anonymous]
      rfl
  | procedure range name params body =>
      rw [ofItem, ofItem, List.map_cons, ofInside_anonymous]
      rfl
  | statement stmt =>
      rw [ofItem, ofItem, List.map_map]
      rfl

/-- The symbols of a program differ from document to document in the number alone. -/
theorem ofItems_anonymous (id : DocumentId) (items : List (Item Range)) :
    (ofItems id items).map anonymous = ofItems ⟨0⟩ items := by
  rw [ofItems, ofItems, filter_anonymous fun _ => rfl, List.map_flatMap]
  simp only [ofItem_anonymous]

end Symbol

/-! ## Questions that use symbols -/

/-- What is shown about a word, as the first of several attempts that has something to show. -/
theorem hover_eq (index : SymbolIndex) (d : Document) (id : DocumentId) (p : Position) :
    hover index d id p = (d.wordAt? p).bind fun word =>
      ((Builtin.ofName? word).map (Hover.ofBuiltin (Text.upper word))).or <|
      ((keywordDoc? word).map (Hover.ofKeyword (Text.upper word))).or <|
      ((index.at? id p).map Hover.ofSymbol).or <|
      ((index.named word none).head?.map (Hover.ofNamed · (index.named word none).length)).or <|
      if Text.isName word then some (Hover.ofUnknown word) else none := by
  unfold hover
  refine Option.bind_congr fun word _ => ?_
  cases Builtin.ofName? word with
  | some f => rfl
  | none =>
      cases keywordDoc? word with
      | some description => rfl
      | none =>
          cases index.at? id p with
          | some s => rfl
          | none =>
              simp only
              cases (index.named word none).head? with
              | some first => rfl
              | none => rfl

namespace SymbolIndex

/-- The narrowest symbol is chosen by its range. -/
theorem narrowest?_anonymous (ss : List Symbol) :
    narrowest? (ss.map Symbol.anonymous) = (narrowest? ss).map Symbol.anonymous := by
  induction ss with
  | nil => rfl
  | cons s ss ih =>
      rw [List.map_cons, narrowest?, narrowest?, ih]
      cases narrowest? ss with
      | none => rfl
      | some t =>
          have hrange : narrower t.anonymous.range s.anonymous.range = narrower t.range s.range :=
            rfl
          simp only [Option.map_some, hrange]
          split
          · rfl
          · rfl

theorem scopeAt?_anonymous (ss : List Symbol) (p : Position) :
    scopeAt? (ss.map Symbol.anonymous) p = (scopeAt? ss p).map Symbol.anonymous := by
  rw [scopeAt?, scopeAt?, ← narrowest?_anonymous, Symbol.filter_anonymous fun _ => rfl]

theorem globals_anonymous (ss : List Symbol) :
    globals (ss.map Symbol.anonymous) = (globals ss).map Symbol.anonymous := by
  have hscopes : ((ss.map Symbol.anonymous).filter (·.kind.isCallable)).map (·.range) =
      (ss.filter (·.kind.isCallable)).map (·.range) := by
    rw [← Symbol.filter_anonymous fun _ => rfl, List.map_map]
    rfl
  unfold globals
  rw [hscopes, Symbol.filter_anonymous fun _ => rfl]

/-- Two indices hold the same symbols, in all and of the documents that are asked about, but for the
    numbers of the documents. -/
structure Alike (index index' : SymbolIndex) (id id' : DocumentId) : Prop where
  all : index.all.map Symbol.anonymous = index'.all.map Symbol.anonymous
  own : (index.symbolsOf id).map Symbol.anonymous = (index'.symbolsOf id').map Symbol.anonymous

namespace Alike

variable {index index' : SymbolIndex} {id id' : DocumentId}

theorem ofKind (h : index.Alike index' id id') (kind : SymbolKind) :
    (index.ofKind kind).map Symbol.anonymous = (index'.ofKind kind).map Symbol.anonymous := by
  rw [SymbolIndex.ofKind, SymbolIndex.ofKind, Symbol.filter_anonymous fun _ => rfl, h.all,
    Symbol.filter_anonymous fun _ => rfl]

theorem named (h : index.Alike index' id id') (name : String) (kind : Option SymbolKind) :
    (index.named name kind).map Symbol.anonymous =
      (index'.named name kind).map Symbol.anonymous := by
  rw [SymbolIndex.named, SymbolIndex.named, Symbol.filter_anonymous fun _ => rfl, h.all,
    Symbol.filter_anonymous fun _ => rfl]

theorem at? (h : index.Alike index' id id') (p : Position) :
    (index.at? id p).map Symbol.anonymous = (index'.at? id' p).map Symbol.anonymous := by
  have hfind (ss : List Symbol) : (ss.find? (·.range.containsInclusive p)).map Symbol.anonymous =
      (ss.map Symbol.anonymous).find? (·.range.containsInclusive p) := by
    rw [List.find?_map]
    rfl
  rw [SymbolIndex.at?, SymbolIndex.at?, hfind, hfind, h.own]

theorem variablesInScope (h : index.Alike index' id id') (p : Position) :
    (index.variablesInScope id p).map Symbol.anonymous =
      (index'.variablesInScope id' p).map Symbol.anonymous := by
  have hanonymous (i : SymbolIndex) (n : DocumentId) :
      (i.variablesInScope n p).map Symbol.anonymous =
        (scopeAt? ((i.symbolsOf n).map Symbol.anonymous) p).elim
          (globals ((i.symbolsOf n).map Symbol.anonymous))
          fun scope => valuesIn ((i.symbolsOf n).map Symbol.anonymous) scope.range := by
    rw [scopeAt?_anonymous, globals_anonymous, SymbolIndex.variablesInScope]
    cases scopeAt? (i.symbolsOf n) p with
    | none => rfl
    | some scope => exact Symbol.filter_anonymous (fun _ => rfl) _
  rw [hanonymous, hanonymous, h.own]

/-- Candidates are made of anonymous symbols. -/
theorem map_eq {α : Type} {f : Symbol → α} (hf : ∀ s, f s.anonymous = f s) {ss ss' : List Symbol}
    (h : ss.map Symbol.anonymous = ss'.map Symbol.anonymous) : ss.map f = ss'.map f := by
  have hcomp : f ∘ Symbol.anonymous = f := funext hf
  rw [← hcomp, ← List.map_map, h, List.map_map]

theorem candidates (h : index.Alike index' id id') (p : Position) (line : List Char) :
    Completion.candidates index id p line = Completion.candidates index' id' p line := by
  have hfunctions : index.functions.map Completion.ofFunction =
      index'.functions.map Completion.ofFunction := map_eq (fun _ => rfl) (h.ofKind .function)
  have hprocedures : index.procedures.map Completion.ofProcedure =
      index'.procedures.map Completion.ofProcedure := map_eq (fun _ => rfl) (h.ofKind .procedure)
  have hvalues : (index.variablesInScope id p).map Completion.ofValue =
      (index'.variablesInScope id' p).map Completion.ofValue :=
    map_eq (fun _ => rfl) (h.variablesInScope p)
  rw [Completion.candidates, Completion.candidates, hfunctions, hprocedures, hvalues]

theorem completions (h : index.Alike index' id id') {d d' : Document} (hd : d.text = d'.text)
    (p : Position) :
    FourthGen.completions index d id p = FourthGen.completions index' d' id' p := by
  have hline (n : Nat) : d.line? n = d'.line? n := by rw [Document.line?_eq, Document.line?_eq, hd]
  have hstem : d.stemAt? p = d'.stemAt? p := by rw [Document.stemAt?, Document.stemAt?, hline]
  unfold FourthGen.completions
  simp only [hstem, hline, h.candidates]

theorem hover (h : index.Alike index' id id') {d d' : Document} (hd : d.text = d'.text)
    (p : Position) : FourthGen.hover index d id p = FourthGen.hover index' d' id' p := by
  have hline (n : Nat) : d.line? n = d'.line? n := by rw [Document.line?_eq, Document.line?_eq, hd]
  have hword : d.wordAt? p = d'.wordAt? p := by rw [Document.wordAt?, Document.wordAt?, hline]
  have hsymbol : (index.at? id p).map Hover.ofSymbol = (index'.at? id' p).map Hover.ofSymbol := by
    have hcomp : Hover.ofSymbol ∘ Symbol.anonymous = Hover.ofSymbol := rfl
    rw [← hcomp, ← Option.map_map, h.at?, Option.map_map]
  have hnamed (word : String) :
      (index.named word none).head?.map (Hover.ofNamed · (index.named word none).length) =
        (index'.named word none).head?.map (Hover.ofNamed · (index'.named word none).length) := by
    have hlength := congrArg List.length (h.named word none)
    have hhead := congrArg List.head? (h.named word none)
    have hcomp (n : Nat) : (Hover.ofNamed · n) ∘ Symbol.anonymous = (Hover.ofNamed · n) := rfl
    rw [List.length_map, List.length_map] at hlength
    rw [List.head?_map, List.head?_map] at hhead
    rw [hlength, ← hcomp, ← Option.map_map, hhead, Option.map_map]
  rw [hover_eq, hover_eq, hword]
  refine Option.bind_congr fun word _ => ?_
  rw [hsymbol, hnamed]

end Alike

end SymbolIndex

/-! ## Workspaces -/

namespace Workspace

/-- The current text of an open document. -/
def textOf? (w : Workspace) (uri : String) : Option String := (w.documents.atUri? uri).map (·.text)

/-- The workspaces answer every question about a document alike. -/
def AnswersAlike (w w' : Workspace) : Prop :=
  ∀ uri, w.diagnostics uri = w'.diagnostics uri ∧
    ∀ p, w.completionsAt uri p = w'.completionsAt uri p ∧ w.hoverAt uri p = w'.hoverAt uri p

/-- The addresses and texts of the open documents, in the order of opening. -/
def contents (w : Workspace) : List (String × String) :=
  w.documents.documents.map fun e => (e.2.uri, e.2.text)

section

variable {events events' : List Event} {w w' : Workspace} {uri : String}

theorem Tracks.contents_eq (h : Tracks events w) :
    w.contents = w.openUris.map fun uri => (uri, (w.textOf? uri).getD "") := by
  rw [contents, openUris, DocumentStore.uris, List.map_map]
  refine List.map_congr_left fun e he => ?_
  have hd : w.documents.atUri? e.2.uri = some e.2 :=
    (DocumentStore.atUri?_eq_some_iff h.wellFormed).2 ⟨e.1, he, rfl⟩
  rw [Function.comp_apply, textOf?, hd]
  rfl

/-- All symbols, without the numbers of their documents, are those of the texts. -/
theorem Tracks.all_anonymous (h : Tracks events w) :
    w.index.all.map Symbol.anonymous = w.contents.flatMap fun d => symbolsOfText ⟨0⟩ d.2 := by
  rw [SymbolIndex.all, h.tables, contents, List.flatMap_map, List.flatMap_map, List.map_flatMap]
  refine List.flatMap_congr fun e _ => ?_
  exact Symbol.ofItems_anonymous e.1 _

/-- A document that is open is open in a workspace of the same contents, with the same text and, but
    for the number, the same symbols. -/
theorem Tracks.exists_alike (h : Tracks events w) (h' : Tracks events' w')
    (hc : w.contents = w'.contents) {e : DocumentId × Document} (he : e ∈ w.documents.documents) :
    ∃ e' ∈ w'.documents.documents, e'.2.uri = e.2.uri ∧ e.2.text = e'.2.text ∧
      w.index.Alike w'.index e.1 e'.1 := by
  have hmem : (e.2.uri, e.2.text) ∈ w'.contents := hc ▸ List.mem_map_of_mem he
  obtain ⟨e', he', heq⟩ := List.mem_map.1 hmem
  obtain ⟨huri, htext⟩ := Prod.mk.inj heq
  refine ⟨e', he', huri, htext.symm, ?_, ?_⟩
  · rw [h.all_anonymous, h'.all_anonymous, hc]
  · rw [h.symbolsOf he, h'.symbolsOf he', symbolsOfText, symbolsOfText, Symbol.ofItems_anonymous,
      Symbol.ofItems_anonymous, htext]

/-- Documents of the same texts, opened in the same order, are answered about alike. -/
theorem Tracks.answersAlike (h : Tracks events w) (h' : Tracks events' w')
    (hc : w.contents = w'.contents) : AnswersAlike w w' := by
  intro uri
  by_cases huri : uri ∈ w.openUris
  · obtain ⟨e, he, rfl⟩ := List.mem_map.1 huri
    obtain ⟨e', he', huri', htext, halike⟩ := h.exists_alike h' hc he
    have hid := DocumentStore.idOf?_of_mem h.wellFormed he
    have hget := DocumentStore.get?_of_mem h.wellFormed he
    have hid' := DocumentStore.idOf?_of_mem h'.wellFormed he'
    have hget' := DocumentStore.get?_of_mem h'.wellFormed he'
    rw [huri'] at hid'
    constructor
    · simp [diagnostics, DocumentStore.atUri?, hid, hget, hid', hget', htext]
    · intro p
      constructor
      · simpa [completionsAt, hid, hget, hid', hget'] using halike.completions htext p
      · simpa [hoverAt, hid, hget, hid', hget'] using halike.hover htext p
  · -- what is not open in the one workspace is not open in the other
    have huris : w'.openUris = w.openUris := by
      have hfst := congrArg (List.map Prod.fst) hc
      simpa [contents, openUris, DocumentStore.uris, Function.comp_def] using hfst.symm
    have hid := (DocumentStore.idOf?_eq_none_iff h.wellFormed).2 huri
    have hid' : w'.documents.idOf? uri = none := by
      rw [DocumentStore.idOf?_eq_none_iff h'.wellFormed]
      rwa [← huris] at huri
    simp [diagnostics, completionsAt, hoverAt, DocumentStore.atUri?, hid, hid']

end

/-! ## Opening everything afresh -/

/-- The history in which every document that is open is opened once, with its current text and some
    version. -/
def reopenings (version : String → Int) (w : Workspace) : List Event :=
  w.contents.map fun d => .change d.1 (version d.1) d.2

/-- Documents that are not open yet are opened one after the other. -/
theorem contents_foldl_change (version : String → Int) {docs : List (String × String)}
    (hnodup : (docs.map Prod.fst).Nodup) {w : Workspace} (hs : w.documents.WellFormed)
    (hw : ∀ uri ∈ docs.map Prod.fst, uri ∉ w.openUris) :
    ((docs.map fun d => Event.change d.1 (version d.1) d.2).foldl step w).contents =
      w.contents ++ docs := by
  induction docs generalizing w with
  | nil => simp
  | cons d docs ih =>
      rw [List.map_cons, List.nodup_cons] at hnodup
      have hnew : d.1 ∉ w.openUris := hw d.1 (by simp)
      have hstep : (w.step (.change d.1 (version d.1) d.2)).documents =
          w.documents.add d.1 (version d.1) d.2 := by
        rw [step, change_of_idOf?_eq_none ((DocumentStore.idOf?_eq_none_iff hs).2 hnew)]
      have hlast := hs.documents_add d.1 (version d.1) d.2
      have hcontents : (w.step (.change d.1 (version d.1) d.2)).contents = w.contents ++ [d] := by
        rw [contents, hstep, hlast, List.map_append]
        rfl
      have hopen : (w.step (.change d.1 (version d.1) d.2)).openUris = w.openUris ++ [d.1] := by
        rw [openUris, DocumentStore.uris, hstep, hlast, List.map_append]
        rfl
      rw [List.map_cons, List.foldl_cons, ih hnodup.2 (hstep ▸ hs.add hnew _ _), hcontents,
        List.append_assoc, List.singleton_append]
      intro uri huri
      rw [hopen, List.mem_append, List.mem_singleton, not_or]
      refine ⟨hw uri (by simp [huri]), ?_⟩
      rintro rfl
      exact hnodup.1 huri

theorem Tracks.contents_reopenings {events : List Event} {w : Workspace} (h : Tracks events w)
    (version : String → Int) : (run (w.reopenings version)).contents = w.contents := by
  have hnodup : (w.contents.map Prod.fst).Nodup := by
    rw [contents, List.map_map]
    exact List.pairwise_map.2 h.wellFormed.distinct
  have hopen : empty.openUris = [] := rfl
  rw [run, reopenings, contents_foldl_change version hnodup DocumentStore.wellFormed_empty (by simp [hopen])]
  rfl

/-- A workspace forgets its history. Two histories that leave the same documents open, in the same
    order and with the same texts, leave workspaces that answer alike; so every workspace answers as if
    its documents had just been opened, each once and with its current text, and no other ever. -/
theorem run_forgets_history :
    (∀ events events' : List Event, (run events).openUris = (run events').openUris →
      (∀ uri, (run events).textOf? uri = (run events').textOf? uri) →
      AnswersAlike (run events) (run events')) ∧
    ∀ (events : List Event) (version : String → Int),
      AnswersAlike (run events) (run ((run events).reopenings version)) := by
  constructor
  · intro events events' huris htexts
    have h := tracks_run events
    have h' := tracks_run events'
    refine h.answersAlike h' ?_
    rw [h.contents_eq, h'.contents_eq, huris]
    simp only [htexts]
  · intro events version
    have h := tracks_run events
    exact h.answersAlike (tracks_run _) (h.contents_reopenings version).symm

/-- A document that was closed and opened again, edited, and was not alone, answers as one that was
    opened with its last text. -/
theorem run_forgets_edits :
    AnswersAlike
      (run [.change "b" 1 "LET x = 1", .change "a" 1 "LET", .close "a", .close "b",
        .change "a" 7 "DEFINE n INTEGER", .change "a" 8 "FUNCTION f()\nEND"])
      (run [.change "a" 1 "FUNCTION f()\nEND"]) := by
  refine run_forgets_history.1 _ _ (by decide +kernel) ?_
  have hdocuments : (run [.change "b" 1 "LET x = 1", .change "a" 1 "LET", .close "a", .close "b",
      .change "a" 7 "DEFINE n INTEGER", .change "a" 8 "FUNCTION f()\nEND"]).documents =
        ⟨[("a", ⟨2⟩)], [(⟨2⟩, ⟨"a", 8, "FUNCTION f()\nEND"⟩)], 3⟩ := by decide +kernel
  have hfresh : (run [.change "a" 1 "FUNCTION f()\nEND"]).documents =
      ⟨[("a", ⟨0⟩)], [(⟨0⟩, ⟨"a", 1, "FUNCTION f()\nEND"⟩)], 1⟩ := by decide +kernel
  intro uri
  rw [textOf?, textOf?, hdocuments, hfresh]
  by_cases huri : "a" = uri
  · simp [DocumentStore.atUri?, DocumentStore.idOf?, DocumentStore.get?, huri]
  · simp [DocumentStore.atUri?, DocumentStore.idOf?, huri]

end Workspace

end FourthGen
