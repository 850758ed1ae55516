import FourthGen.Proofs.Document.Lines
import FourthGen.Proofs.Document.Store
import FourthGen.Workspace
import Mathlib.Data.List.Basic

set_option autoImplicit false

/-! # The workspace and its history

What a workspace holds is determined by what happened to its documents. A history is a list of events,
each of which gives a document a text or closes one. Which documents are open, since when and with
which text is read off the history (`IsOpen`, `OpenedAt`, `LastChange`); that the workspace goes with
its history (`Workspace.Tracks`) is kept by every event. -/

namespace FourthGen

/-- The table that stands for a document is found. -/
theorem SymbolIndex.symbolsOf_of_mem {index : SymbolIndex}
    (hs : index.tables.Pairwise (·.1.number < ·.1.number)) {e : DocumentId × List Symbol}
    (he : e ∈ index.tables) : index.symbolsOf e.1 = e.2 := by
  rw [symbolsOf, table?, DocumentId.find?_of_mem hs he]
  rfl

/-! ## Histories -/

/-- An event of a history with one more event is that event or one of those before it. -/
theorem concat_eq_iff {α : Type} {events before after : List α} {e x : α} :
    events ++ [e] = before ++ x :: after ↔
      (after = [] ∧ before = events ∧ x = e) ∨
        ∃ later, after = later ++ [e] ∧ events = before ++ x :: later := by
  constructor
  · intro h
    cases hafter : after.getLast? with
    | none =>
        rw [List.getLast?_eq_none_iff] at hafter
        subst hafter
        obtain ⟨rfl, hx⟩ := List.append_inj' h rfl
        cases hx
        exact .inl ⟨rfl, rfl, rfl⟩
    | some y =>
        obtain ⟨later, rfl⟩ := List.getLast?_eq_some_iff.1 hafter
        rw [← List.cons_append, ← List.append_assoc] at h
        obtain ⟨rfl, hy⟩ := List.append_inj' h rfl
        cases hy
        exact .inr ⟨later, rfl, rfl⟩
  · rintro (⟨rfl, rfl, rfl⟩ | ⟨later, rfl, rfl⟩)
    · rfl
    · simp

namespace Workspace

/-- Something that happens to a document: it is opened or has a new text, or it is closed. -/
inductive Event where
  | change (uri : String) (version : Int) (text : String)
  | close (uri : String)
  deriving DecidableEq, Repr

/-- The document to which an event happens. -/
def Event.uri : Event → String
  | change uri _ _ => uri
  | close uri => uri

/-- The workspace after an event. -/
def step (w : Workspace) : Event → Workspace
  | .change uri version text => (w.change uri version text).2
  | .close uri => (w.close uri).2

/-- The workspace after several events, from the one in which nothing is open. -/
def run (events : List Event) : Workspace := events.foldl step empty

theorem run_append (events more : List Event) : run (events ++ more) = more.foldl step (run events) :=
  List.foldl_append

/-- The document is open: it was given a text, and not closed since. -/
def IsOpen (events : List Event) (uri : String) : Prop :=
  ∃ before version text after, events = before ++ .change uri version text :: after ∧
    .close uri ∉ after

/-- The document is open since the event number `n`: it was not open before that event. -/
def OpenedAt (events : List Event) (uri : String) (n : Nat) : Prop :=
  ∃ before version text after, events = before ++ .change uri version text :: after ∧
    before.length = n ∧ ¬ IsOpen before uri ∧ .close uri ∉ after

/-- The last that happened to the document is that it was given this text under this version. -/
def LastChange (events : List Event) (uri : String) (version : Int) (text : String) : Prop :=
  ∃ before after, events = before ++ .change uri version text :: after ∧ ∀ e ∈ after, e.uri ≠ uri

section

variable {events : List Event} {e : Event} {uri : String}

theorem isOpen_concat :
    IsOpen (events ++ [e]) uri ↔
      (∃ version text, e = .change uri version text) ∨ (e ≠ .close uri ∧ IsOpen events uri) := by
  constructor
  · rintro ⟨before, version, text, after, hevents, hclose⟩
    obtain ⟨rfl, rfl, rfl⟩ | ⟨later, rfl, rfl⟩ := concat_eq_iff.1 hevents
    · exact .inl ⟨version, text, rfl⟩
    · rw [List.mem_append, List.mem_singleton, not_or] at hclose
      exact .inr ⟨Ne.symm hclose.2, before, version, text, later, rfl, hclose.1⟩
  · rintro (⟨version, text, rfl⟩ | ⟨hne, before, version, text, after, rfl, hclose⟩)
    · exact ⟨events, version, text, [], rfl, by simp⟩
    · exact ⟨before, version, text, after ++ [e], by simp, by simp [hclose, Ne.symm hne]⟩

theorem LastChange.concat_self (events : List Event) (uri : String) (version : Int) (text : String) :
    LastChange (events ++ [.change uri version text]) uri version text :=
  ⟨events, [], rfl, by simp⟩

theorem LastChange.concat {version : Int} {text : String} (h : LastChange events uri version text)
    (he : e.uri ≠ uri) : LastChange (events ++ [e]) uri version text := by
  obtain ⟨before, after, rfl, hafter⟩ := h
  refine ⟨before, after ++ [e], by simp, ?_⟩
  intro x hx
  rcases List.mem_append.1 hx with hx | hx
  · exact hafter x hx
  · rwa [List.mem_singleton.1 hx]

theorem OpenedAt.lt_length {n : Nat} (h : OpenedAt events uri n) : n < events.length := by
  obtain ⟨before, version, text, after, rfl, rfl, -⟩ := h
  simp

theorem OpenedAt.concat {n : Nat} (h : OpenedAt events uri n) (he : e ≠ .close uri) :
    OpenedAt (events ++ [e]) uri n := by
  obtain ⟨before, version, text, after, rfl, rfl, hopen, hclose⟩ := h
  exact ⟨before, version, text, after ++ [e], by simp, rfl, hopen, by simp [hclose, Ne.symm he]⟩

/-- A document that was not open is open since the event that gives it a text. -/
theorem OpenedAt.concat_self (hopen : ¬ IsOpen events uri) (version : Int) (text : String) :
    OpenedAt (events ++ [.change uri version text]) uri events.length :=
  ⟨events, version, text, [], rfl, rfl, hopen, by simp⟩

end

/-! ## What an event does -/

section

variable {w : Workspace} {uri : String}

theorem change_of_idOf? {id : DocumentId} (h : w.documents.idOf? uri = some id) (version : Int)
    (text : String) :
    w.change uri version text =
      (id, ⟨w.documents.replace id version text, w.index.update id (symbolsOfText id text)⟩) := by
  simp only [change, DocumentStore.upsert, h]

theorem change_of_idOf?_eq_none (h : w.documents.idOf? uri = none) (version : Int) (text : String) :
    w.change uri version text =
      (⟨w.documents.nextNumber⟩, ⟨w.documents.add uri version text,
        w.index.update ⟨w.documents.nextNumber⟩ (symbolsOfText ⟨w.documents.nextNumber⟩ text)⟩) := by
  simp only [change, DocumentStore.upsert, h]

theorem close_of_idOf? {id : DocumentId} (h : w.documents.idOf? uri = some id) :
    w.close uri = (some id, ⟨w.documents.erase uri id, w.index.erase id⟩) := by
  simp only [close, DocumentStore.close, h]

/-- Closing a document that is not open does nothing. -/
theorem close_of_idOf?_eq_none (h : w.documents.idOf? uri = none) : w.close uri = (none, w) := by
  simp only [close, DocumentStore.close, h]

end

/-! ## The workspace goes with its history -/

/-- One document was opened before the other. -/
def OpenedBefore (events : List Event) (first second : String) : Prop :=
  ∃ n m, OpenedAt events first n ∧ OpenedAt events second m ∧ n < m

/-- A workspace as some history leaves it. -/
structure Tracks (events : List Event) (w : Workspace) : Prop where
  wellFormed : w.documents.WellFormed
  tables : w.index.tables = w.documents.documents.map fun e => (e.1, symbolsOfText e.1 e.2.text)
  isOpen : ∀ uri, uri ∈ w.openUris ↔ IsOpen events uri
  since : ∀ uri ∈ w.openUris, ∃ n, OpenedAt events uri n
  ordered : w.openUris.Pairwise (OpenedBefore events)
  lastChange : ∀ e ∈ w.documents.documents, LastChange events e.2.uri e.2.version e.2.text

section

variable {events : List Event} {w : Workspace} {uri : String}

theorem OpenedBefore.concat {first second : String} {e : Event} (h : OpenedBefore events first second)
    (hfirst : e ≠ .close first) (hsecond : e ≠ .close second) :
    OpenedBefore (events ++ [e]) first second := by
  obtain ⟨n, m, hn, hm, hlt⟩ := h
  exact ⟨n, m, hn.concat hfirst, hm.concat hsecond, hlt⟩

theorem tracks_empty : Tracks [] empty where
  wellFormed := DocumentStore.wellFormed_empty
  tables := rfl
  isOpen uri := by
    constructor
    · intro hu
      cases hu
    · rintro ⟨before, version, text, after, hevents, -⟩
      simp at hevents
  since uri hu := by cases hu
  ordered := .nil
  lastChange e he := by cases he

/-- The tables stand in the order of their documents' numbers. -/
theorem Tracks.pairwise_tables (h : Tracks events w) :
    w.index.tables.Pairwise (·.1.number < ·.1.number) := by
  rw [h.tables, List.pairwise_map]
  exact h.wellFormed.ordered

/-- Documents that stay open after an event are open since when they were, in the same order. -/
theorem Tracks.stay_open (h : Tracks events w) (e : Event) {uris : List String}
    (hsub : uris.Sublist w.openUris) (he : ∀ uri ∈ uris, e ≠ .close uri) :
    (∀ uri ∈ uris, ∃ n, OpenedAt (events ++ [e]) uri n) ∧
      uris.Pairwise (OpenedBefore (events ++ [e])) := by
  constructor
  · intro uri huri
    obtain ⟨n, hn⟩ := h.since uri (hsub.subset huri)
    exact ⟨n, hn.concat (he uri huri)⟩
  · refine (h.ordered.sublist hsub).imp_of_mem ?_
    intro first second hfirst hsecond hbefore
    exact hbefore.concat (he first hfirst) (he second hsecond)

/-- The table of an open document is put in the place of its old one. -/
theorem Tracks.tables_changed (h : Tracks events w) {id : DocumentId}
    (hid : w.documents.idOf? uri = some id) (version : Int) (text : String) :
    (w.index.update id (symbolsOfText id text)).tables =
      (w.documents.replace id version text).documents.map
        fun e => (e.1, symbolsOfText e.1 e.2.text) := by
  obtain ⟨old, hold, -⟩ := DocumentStore.exists_mem_of_idOf? h.wellFormed hid
  have hmem : ∃ e ∈ w.index.tables, e.1 = id := by
    rw [h.tables]
    exact ⟨_, List.mem_map_of_mem hold, rfl⟩
  rw [SymbolIndex.update, DocumentId.insert_of_mem h.pairwise_tables hmem, h.tables, List.map_map,
    DocumentStore.replace, List.map_map]
  refine List.map_congr_left fun e _ => ?_
  simp only [Function.comp_apply]
  split
  · next heq => rw [heq]; rfl
  · rfl

/-- The table of a new document comes last. -/
theorem Tracks.tables_opened (h : Tracks events w) (uri : String) (version : Int) (text : String) :
    (w.index.update ⟨w.documents.nextNumber⟩ (symbolsOfText ⟨w.documents.nextNumber⟩ text)).tables =
      (w.documents.add uri version text).documents.map
        fun e => (e.1, symbolsOfText e.1 e.2.text) := by
  have hlast : ∀ e ∈ w.index.tables, e.1.number < w.documents.nextNumber := by
    intro e he
    rw [h.tables] at he
    obtain ⟨e', he', rfl⟩ := List.mem_map.1 he
    exact h.wellFormed.given e' he'
  rw [SymbolIndex.update, DocumentId.insert_of_lt hlast, h.tables, h.wellFormed.documents_add,
    List.map_append]
  rfl

/-- An open document has a new text. -/
theorem Tracks.changed (h : Tracks events w) {id : DocumentId}
    (hid : w.documents.idOf? uri = some id) (version : Int) (text : String) :
    Tracks (events ++ [.change uri version text]) (w.change uri version text).2 := by
  rw [change_of_idOf? hid]
  have huris : (w.documents.replace id version text).uris = w.openUris := DocumentStore.uris_replace
  obtain ⟨hsince, hordered⟩ := h.stay_open (.change uri version text) (.refl _) (by simp)
  refine ⟨h.wellFormed.replace id version text, h.tables_changed hid version text, ?isOpen, ?since,
    ?ordered, ?lastChange⟩
  case isOpen =>
    intro other
    rw [openUris, huris, h.isOpen, isOpen_concat]
    constructor
    · intro hopen
      exact .inr ⟨by simp, hopen⟩
    · rintro (⟨version', text', heq⟩ | ⟨-, hopen⟩)
      · cases heq
        obtain ⟨old, hold, rfl⟩ := DocumentStore.exists_mem_of_idOf? h.wellFormed hid
        exact (h.isOpen _).1 (List.mem_map_of_mem hold)
      · exact hopen
  case since =>
    rw [openUris, huris]
    exact hsince
  case ordered =>
    rw [openUris, huris]
    exact hordered
  case lastChange =>
    intro e he
    obtain ⟨e', he', rfl⟩ := DocumentStore.mem_replace_iff.1 he
    have huri := DocumentStore.uri_eq_iff h.wellFormed hid he'
    split
    · next heq =>
      rw [← huri.2 heq]
      exact LastChange.concat_self events e'.2.uri version text
    · next hne => exact (h.lastChange e' he').concat fun heq => hne (huri.1 heq.symm)

/-- A document is opened. -/
theorem Tracks.opened (h : Tracks events w) (hid : w.documents.idOf? uri = none) (version : Int)
    (text : String) :
    Tracks (events ++ [.change uri version text]) (w.change uri version text).2 := by
  have hu : uri ∉ w.openUris := (DocumentStore.idOf?_eq_none_iff h.wellFormed).1 hid
  have hopened : OpenedAt (events ++ [.change uri version text]) uri events.length :=
    .concat_self (fun hopen => hu ((h.isOpen uri).2 hopen)) version text
  have huris : (w.documents.add uri version text).uris = w.openUris ++ [uri] :=
    h.wellFormed.uris_add uri version text
  rw [change_of_idOf?_eq_none hid]
  obtain ⟨hsince, hordered⟩ := h.stay_open (.change uri version text) (.refl _) (by simp)
  refine ⟨h.wellFormed.add hu version text, h.tables_opened uri version text, ?isOpen, ?since,
    ?ordered, ?lastChange⟩
  case isOpen =>
    intro other
    rw [openUris, huris, List.mem_append, List.mem_singleton, h.isOpen, isOpen_concat]
    constructor
    · rintro (hother | rfl)
      · exact .inr ⟨by simp, hother⟩
      · exact .inl ⟨version, text, rfl⟩
    · rintro (⟨version', text', heq⟩ | ⟨-, hother⟩)
      · cases heq
        exact .inr rfl
      · exact .inl hother
  case since =>
    rw [openUris, huris, List.forall_mem_append, List.forall_mem_singleton]
    exact ⟨hsince, _, hopened⟩
  case ordered =>
    rw [openUris, huris]
    refine List.pairwise_append.2 ⟨hordered, List.pairwise_singleton _ _, ?_⟩
    intro other hother new hnew
    rw [List.mem_singleton.1 hnew]
    obtain ⟨n, hn⟩ := h.since other hother
    exact ⟨n, _, hn.concat (by simp), hopened, hn.lt_length⟩
  case lastChange =>
    intro e he
    rw [h.wellFormed.documents_add] at he
    rcases List.mem_append.1 he with hold | hnew
    · refine (h.lastChange e hold).concat ?_
      rintro rfl
      exact hu (List.mem_map_of_mem hold)
    · rw [List.mem_singleton.1 hnew]
      exact .concat_self events uri version text

/-- An open document is closed. -/
theorem Tracks.closed (h : Tracks events w) {id : DocumentId}
    (hid : w.documents.idOf? uri = some id) :
    Tracks (events ++ [.close uri]) (w.close uri).2 := by
  rw [close_of_idOf? hid]
  have hevent {other : String} (hne : other ≠ uri) : Event.close uri ≠ .close other := by
    intro heq
    cases heq
    exact hne rfl
  have hsub : (w.documents.erase uri id).uris.Sublist w.openUris := List.filter_sublist.map _
  obtain ⟨hsince, hordered⟩ := h.stay_open _ hsub fun other hother =>
    hevent ((DocumentStore.mem_uris_erase_iff h.wellFormed hid).1 hother).2
  refine ⟨h.wellFormed.erase hid, ?tables, ?isOpen, hsince, hordered, ?lastChange⟩
  case tables =>
    rw [SymbolIndex.erase, h.tables, List.filter_map, DocumentStore.erase]
    rfl
  case isOpen =>
    intro other
    rw [openUris, DocumentStore.mem_uris_erase_iff h.wellFormed hid, isOpen_concat]
    constructor
    · rintro ⟨hopen, hne⟩
      exact .inr ⟨hevent hne, (h.isOpen other).1 hopen⟩
    · rintro (⟨version, text, heq⟩ | ⟨hne, hopen⟩)
      · cases heq
      · refine ⟨(h.isOpen other).2 hopen, ?_⟩
        rintro rfl
        exact hne rfl
  case lastChange =>
    intro e he
    obtain ⟨he, hne⟩ := (DocumentStore.mem_erase_iff h.wellFormed hid).1 he
    exact (h.lastChange e he).concat (Ne.symm hne)

/-- Closing a document that is not open is an event without effect. -/
theorem Tracks.idle (h : Tracks events w) (hid : w.documents.idOf? uri = none) :
    Tracks (events ++ [.close uri]) (w.close uri).2 := by
  have hu : uri ∉ w.openUris := (DocumentStore.idOf?_eq_none_iff h.wellFormed).1 hid
  rw [close_of_idOf?_eq_none hid]
  have hevent {other : String} (hother : other ∈ w.openUris) : Event.close uri ≠ .close other := by
    intro heq
    cases heq
    exact hu hother
  obtain ⟨hsince, hordered⟩ := h.stay_open _ (.refl _) fun _ hother => hevent hother
  constructor
  · exact h.wellFormed
  · exact h.tables
  · intro other
    rw [isOpen_concat, ← h.isOpen]
    constructor
    · intro hother
      exact .inr ⟨hevent hother, hother⟩
    · rintro (⟨version, text, heq⟩ | ⟨-, hother⟩)
      · cases heq
      · exact hother
  · exact hsince
  · exact hordered
  · intro e he
    refine (h.lastChange e he).concat ?_
    rintro rfl
    exact hu (List.mem_map_of_mem he)

theorem Tracks.step (h : Tracks events w) (e : Event) : Tracks (events ++ [e]) (w.step e) := by
  cases e with
  | change uri version text =>
      cases hid : w.documents.idOf? uri with
      | none => exact h.opened hid version text
      | some id => exact h.changed hid version text
  | close uri =>
      cases hid : w.documents.idOf? uri with
      | none => exact h.idle hid
      | some id => exact h.closed hid

theorem Tracks.foldl (h : Tracks events w) (more : List Event) :
    Tracks (events ++ more) (more.foldl Workspace.step w) := by
  induction more generalizing events w with
  | nil => simpa using h
  | cons e more ih => simpa using ih (h.step e)

theorem tracks_run (events : List Event) : Tracks events (run events) := tracks_empty.foldl events

end

/-! ## Numbers -/

section

variable {store : DocumentStore} {id : DocumentId} {uri : String}

/-- The number was given out, and no address has it any more. -/
structure Retired (store : DocumentStore) (id : DocumentId) : Prop where
  given : id.number < store.nextNumber
  idOf?_ne : ∀ uri, store.idOf? uri ≠ some id
  not_mem : ∀ e ∈ store.documents, e.1 ≠ id

theorem Retired.get?_eq_none (h : Retired store id) : store.get? id = none := by
  rw [DocumentStore.get?, Option.map_eq_none_iff, List.find?_eq_none]
  intro e he
  rw [beq_iff_eq]
  exact h.not_mem e he

/-- A number that is out of use is not given to a document. -/
theorem Retired.upsert_ne (h : Retired store id) (uri : String) (version : Int) (text : String) :
    (store.upsert uri version text).1 ≠ id := by
  unfold DocumentStore.upsert
  split
  · next other hother =>
    rintro rfl
    exact h.idOf?_ne uri hother
  · rintro rfl
    exact Nat.lt_irrefl _ h.given

theorem Retired.upsert (h : Retired store id) (uri : String) (version : Int) (text : String) :
    Retired (store.upsert uri version text).2 id := by
  have hne := h.upsert_ne uri version text
  unfold DocumentStore.upsert at hne ⊢
  split
  · refine ⟨h.given, h.idOf?_ne, ?_⟩
    intro e he
    obtain ⟨old, hold, rfl⟩ := DocumentStore.mem_replace_iff.1 he
    exact h.not_mem old hold
  · next hid =>
    rw [hid] at hne
    constructor
    · exact Nat.lt_succ_of_lt h.given
    · intro other
      rw [DocumentStore.idOf?_add]
      split
      · intro heq
        exact hne (Option.some.inj heq)
      · exact h.idOf?_ne other
    · intro e he
      rcases DocumentId.mem_insert he with rfl | he
      · exact hne
      · exact h.not_mem e he

theorem Retired.erase (h : Retired store id) (uri : String) (other : DocumentId) :
    Retired (store.erase uri other) id := by
  refine ⟨h.given, ?_, fun e he => h.not_mem e (List.mem_filter.1 he).1⟩
  intro address
  rw [DocumentStore.idOf?_erase]
  split
  · exact nofun
  · exact h.idOf?_ne address

theorem retired_erase (hs : store.WellFormed) (h : store.idOf? uri = some id) :
    Retired (store.erase uri id) id := by
  obtain ⟨d, hd, rfl⟩ := DocumentStore.exists_mem_of_idOf? hs h
  constructor
  · exact hs.given _ hd
  · intro other hother
    rw [DocumentStore.idOf?_erase] at hother
    split at hother
    · cases hother
    · next hne =>
      obtain ⟨d', hd', rfl⟩ := DocumentStore.exists_mem_of_idOf? hs hother
      exact hne (congrArg Document.uri (DocumentStore.eq_of_id hs hd' hd rfl))
  · intro e he
    simpa using (List.mem_filter.1 he).2

/-- A document that has a number keeps it when it, or another one, has a new text. -/
theorem idOf?_upsert (h : store.idOf? uri = some id) (other : String) (version : Int) (text : String) :
    (store.upsert other version text).2.idOf? uri = some id := by
  unfold DocumentStore.upsert
  split
  · exact h
  · next hother =>
    have hne : other ≠ uri := by
      rintro rfl
      rw [h] at hother
      cases hother
    rw [DocumentStore.idOf?_add, if_neg hne]
    exact h

end

section

variable {w : Workspace} {id : DocumentId} {uri : String}

theorem Retired.step (h : Retired w.documents id) (e : Event) : Retired (w.step e).documents id := by
  cases e with
  | change other version text => exact h.upsert other version text
  | close other =>
      rw [Workspace.step]
      cases hid : w.documents.idOf? other with
      | none =>
          rw [close_of_idOf?_eq_none hid]
          exact h
      | some closed =>
          rw [close_of_idOf? hid]
          exact h.erase other closed

theorem Retired.run (h : Retired w.documents id) (events : List Event) :
    Retired (events.foldl Workspace.step w).documents id := by
  induction events generalizing w with
  | nil => exact h
  | cons e events ih => exact ih (h.step e)

/-- A document keeps its number until it is closed. -/
theorem idOf?_step (h : w.documents.idOf? uri = some id) {e : Event} (he : e ≠ .close uri) :
    (w.step e).documents.idOf? uri = some id := by
  cases e with
  | change other version text => exact idOf?_upsert h other version text
  | close other =>
      rw [step]
      cases hid : w.documents.idOf? other with
      | none =>
          rw [close_of_idOf?_eq_none hid]
          exact h
      | some closed =>
          have hne : uri ≠ other := by
            rintro rfl
            exact he rfl
          rw [close_of_idOf? hid, DocumentStore.idOf?_erase, if_neg hne]
          exact h

/-- A change tells the number that the document has from then on. -/
theorem idOf?_change (w : Workspace) (uri : String) (version : Int) (text : String) :
    (w.change uri version text).2.documents.idOf? uri = some (w.change uri version text).1 := by
  cases hid : w.documents.idOf? uri with
  | none =>
      rw [change_of_idOf?_eq_none hid, DocumentStore.idOf?_add, if_pos rfl]
  | some id =>
      rw [change_of_idOf? hid]
      exact hid

theorem idOf?_foldl {more : List Event} (h : w.documents.idOf? uri = some id)
    (hclose : .close uri ∉ more) : (more.foldl Workspace.step w).documents.idOf? uri = some id := by
  induction more generalizing w with
  | nil => exact h
  | cons e more ih =>
      rw [List.mem_cons, not_or] at hclose
      exact ih (idOf?_step h (Ne.symm hclose.1)) hclose.2

end

/-! ## Consistency -/

/-- The line index of a document is that of its text: it is what is found in the text, it has as many
    lines as the text, and it tells where each of them starts. -/
def LinesOf (text : List Char) (d : Document) : Prop :=
  d.lineStarts = Text.lineStarts text ∧ d.lineCount = text.count '\n' + 1 ∧
    ∀ n < d.lineCount, ∃ before, LineStartsBehind text n before ∧
      d.lineStart n = Text.utf8Length before

/-- What a user of a workspace may rely on after a history. -/
structure Consistent (events : List Event) (w : Workspace) : Prop where
  /-- No document is listed twice. -/
  nodup : w.openUris.Nodup
  /-- The documents that are open are listed. -/
  mem_openUris : ∀ uri, uri ∈ w.openUris ↔ IsOpen events uri
  /-- They are listed in the order of opening. -/
  ordered : w.openUris.Pairwise (OpenedBefore events)
  /-- The table of addresses has the address and the number of every open document, each once, and
      nothing else. -/
  agree : w.documents.ids.Perm (w.documents.documents.map fun e => (e.2.uri, e.1))
  /-- An address has the number under which its document stands. -/
  linked : ∀ uri id, w.documents.idOf? uri = some id ↔
    ∃ d, w.documents.get? id = some d ∧ d.uri = uri
  /-- An open document has a number, the text and version of its last change, and the lines and symbols
      of that text. -/
  current : ∀ uri, IsOpen events uri → ∃ id version text d,
    w.documents.idOf? uri = some id ∧ w.documents.get? id = some d ∧
      LastChange events uri version text ∧ d.uri = uri ∧ d.version = version ∧ d.text = text ∧
      LinesOf text.toList d ∧ w.index.symbolsOf id = Symbol.ofItems id (parse text).items
  /-- The tables are those of the open documents, in the order of opening. -/
  tables : w.index.tables.map (·.1) = w.openUris.filterMap w.documents.idOf?
  /-- The symbols are those of the open documents, in the order of opening. -/
  all : w.index.all =
    w.openUris.flatMap fun uri => ((w.documents.idOf? uri).map w.index.symbolsOf).getD []

section

variable {events : List Event} {w : Workspace}

/-- The table of an open document holds the symbols of its text. -/
theorem Tracks.symbolsOf (h : Tracks events w) {e : DocumentId × Document}
    (he : e ∈ w.documents.documents) : w.index.symbolsOf e.1 = symbolsOfText e.1 e.2.text := by
  have hmem : (e.1, symbolsOfText e.1 e.2.text) ∈ w.index.tables := by
    rw [h.tables]
    exact List.mem_map_of_mem he
  exact SymbolIndex.symbolsOf_of_mem h.pairwise_tables hmem

theorem Tracks.consistent (h : Tracks events w) : Consistent events w where
  nodup := List.pairwise_map.2 h.wellFormed.distinct
  mem_openUris := h.isOpen
  ordered := h.ordered
  agree := h.wellFormed.agree
  linked uri id := by
    simp only [DocumentStore.idOf?_eq_some_iff h.wellFormed,
      DocumentStore.get?_eq_some_iff h.wellFormed]
  current uri hopen := by
    obtain ⟨⟨id, d⟩, he, rfl⟩ := List.mem_map.1 ((h.isOpen uri).2 hopen)
    refine ⟨id, d.version, d.text, d, ?_, ?_, h.lastChange _ he, rfl, rfl, rfl, ?_, h.symbolsOf he⟩
    · exact DocumentStore.idOf?_of_mem h.wellFormed he
    · exact DocumentStore.get?_of_mem h.wellFormed he
    · exact ⟨d.lineStarts_eq, d.lineCount_eq, fun n hn => d.lineStart_spec hn⟩
  tables := by
    rw [h.tables, openUris, DocumentStore.uris, List.map_map, List.filterMap_map]
    have hid : ∀ e ∈ w.documents.documents,
        (w.documents.idOf? ∘ fun e => e.2.uri) e = (some ∘ fun e => e.1) e := fun e he =>
      DocumentStore.idOf?_of_mem h.wellFormed he
    rw [List.filterMap_congr hid, List.filterMap_eq_map]
    rfl
  all := by
    rw [SymbolIndex.all, h.tables, openUris, DocumentStore.uris, List.flatMap_map, List.flatMap_map]
    refine List.flatMap_congr fun e he => ?_
    rw [DocumentStore.idOf?_of_mem h.wellFormed he]
    exact (h.symbolsOf he).symm

end

/-- After every history the workspace is consistent with it. A change tells the number of its document,
    and a document keeps its number as long as it is not closed. When an open document is closed, its
    number is told; from then on, whatever happens, no document is found under the number, no address
    has it, and it is not given to one. Closing a document that is not open does nothing. -/
theorem run_consistent (events : List Event) :
    Consistent events (run events) ∧
      (∀ uri version text, ((run events).change uri version text).2.documents.idOf? uri =
        some ((run events).change uri version text).1) ∧
      (∀ uri, IsOpen events uri → ∀ more, .close uri ∉ more →
        (run (events ++ more)).documents.idOf? uri = (run events).documents.idOf? uri) ∧
      (∀ uri id, (run events).documents.idOf? uri = some id →
        ((run events).close uri).1 = some id ∧
          ∀ more, (run (events ++ .close uri :: more)).documents.get? id = none ∧
            (∀ other, (run (events ++ .close uri :: more)).documents.idOf? other ≠ some id) ∧
            ∀ other version text,
              ((run (events ++ .close uri :: more)).change other version text).1 ≠ id) ∧
      ∀ uri, ¬ IsOpen events uri → (run events).close uri = (none, run events) := by
  have h := tracks_run events
  refine ⟨h.consistent, idOf?_change (run events), ?_, ?_, ?_⟩
  · intro uri hopen more hclose
    obtain ⟨e, he, rfl⟩ := List.mem_map.1 ((h.isOpen uri).2 hopen)
    have hid := DocumentStore.idOf?_of_mem h.wellFormed he
    rw [run_append, hid]
    exact idOf?_foldl hid hclose
  · intro uri id hid
    have hclose := close_of_idOf? hid
    refine ⟨by rw [hclose], fun more => ?_⟩
    have hretired : Retired ((run events).step (.close uri)).documents id := by
      rw [step, hclose]
      exact retired_erase h.wellFormed hid
    have hlater := hretired.run more
    rw [run_append, List.foldl_cons]
    exact ⟨hlater.get?_eq_none, hlater.idOf?_ne, hlater.upsert_ne⟩
  · intro uri hopen
    apply close_of_idOf?_eq_none
    rw [DocumentStore.idOf?_eq_none_iff h.wellFormed]
    exact fun hu => hopen ((h.isOpen uri).1 hu)

end Workspace

end FourthGen
