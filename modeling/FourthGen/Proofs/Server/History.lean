import FourthGen.Proofs.Server.View
import FourthGen.Proofs.Workspace.Consistency

set_option autoImplicit false

/-! # What the server holds

Which text the server holds for a document, and under which settings it works, can be read off the
messages: the text is that of the last message that gave the document one (`LastText`), and the settings
are those of the last change of them that could be read. What a single message does to the texts is one
equation (`Server.held_handle`). -/

namespace FourthGen

/-! ## What messages say -/

/-- What a notification tells about documents and settings. -/
inductive Notice where
  | opened (d : Params.Opened)
  | changed (c : Params.Changed)
  | closed (uri : String)
  | configured (value : Json)

/-- What a notification tells, if its parameters can be read. -/
def Notice.of? (method : String) (params : Json) : Option Notice :=
  match method with
  | "textDocument/didOpen" => (Params.opened? params).map .opened
  | "textDocument/didChange" => (Params.changed? params).map .changed
  | "textDocument/didClose" => (Params.closed? params).map .closed
  | "workspace/didChangeConfiguration" => (Params.configuration? params).map .configured
  | _ => none

namespace Message

/-- What a message tells about documents and settings, if anything. -/
def notice? : Message → Option Notice
  | notification method params => Notice.of? method params
  | _ => none

/-- The version and the text with which the message opens the document at the address, if the server
    takes it over. -/
def opening? (uri : String) (m : Message) : Option (Int × String) :=
  match m.notice? with
  | some (.opened d) =>
    if d.uri == uri && (d.languageId = languageId || isSourceUri d.uri) then some (d.version, d.text)
    else none
  | _ => none

/-- The version and the last text of a change of the document at the address. -/
def changing? (uri : String) (m : Message) : Option (Int × String) :=
  match m.notice? with
  | some (.changed c) =>
    if c.uri = uri then c.texts.getLast?.map fun text => (c.version, text) else none
  | _ => none

/-- Whether the message closes the document at the address. -/
def closes (uri : String) (m : Message) : Bool :=
  match m.notice? with
  | some (.closed address) => address == uri
  | _ => false

/-- The settings of a change of the configuration that can be read. -/
def settings? (m : Message) : Option Settings :=
  match m.notice? with
  | some (.configured value) => Settings.ofJson? value
  | _ => none

/-- A message that changes a document opens and closes none. -/
theorem of_changing? {uri : String} {m : Message} {t : Int × String} (h : m.changing? uri = some t) :
    m.opening? uri = none ∧ m.closes uri = false := by
  unfold changing? at h
  unfold opening? closes
  cases hm : m.notice? with
  | none => exact ⟨rfl, rfl⟩
  | some notice =>
      rw [hm] at h
      cases notice with
      | changed c => exact ⟨rfl, rfl⟩
      | opened d => cases h
      | closed address => cases h
      | configured value => cases h

theorem accepts_eq (uri : String) (m : Message) : m.accepts uri = (m.opening? uri).isSome := by
  unfold accepts
  split
  · next params =>
    simp only [opening?, notice?, Notice.of?]
    cases Params.opened? params with
    | none => rfl
    | some d =>
        simp only [Option.map_some, Option.any_some]
        cases d.uri == uri && (decide (d.languageId = languageId) || isSourceUri d.uri) <;> rfl
  · next hopen =>
    unfold opening?
    split
    · next hd =>
      -- only the one method opens documents
      unfold notice? Notice.of? at hd
      split at hd
      · split at hd
        · exact absurd rfl (hopen _)
        all_goals simp at hd
      · cases hd
    · rfl

end Message

/-- The document is taken over: the server took it over when it was opened, and it was not closed
    since. -/
def TakenOver (messages : List Message) (uri : String) : Prop :=
  ∃ before m after, messages = before ++ m :: after ∧ m.accepts uri = true ∧
    ∀ x ∈ after, x.closes uri = false

/-- The last version and text that the document was given: when it was opened, or by a change while it
    was taken over. -/
def LastText (messages : List Message) (uri : String) (t : Int × String) : Prop :=
  ∃ before m after, messages = before ++ m :: after ∧
    (m.opening? uri = some t ∨ (TakenOver before uri ∧ m.changing? uri = some t)) ∧
    ∀ x ∈ after, x.opening? uri = none ∧ x.changing? uri = none ∧ x.closes uri = false

section

variable {messages : List Message} {m : Message} {uri : String} {t : Int × String}

theorem takenOver_concat :
    TakenOver (messages ++ [m]) uri ↔
      m.accepts uri = true ∨ (m.closes uri = false ∧ TakenOver messages uri) := by
  constructor
  · rintro ⟨before, x, after, hmessages, hx, hafter⟩
    obtain ⟨rfl, rfl, rfl⟩ | ⟨later, rfl, rfl⟩ := concat_eq_iff.1 hmessages
    · exact .inl hx
    · rw [List.forall_mem_append, List.forall_mem_singleton] at hafter
      exact .inr ⟨hafter.2, before, x, later, rfl, hx, hafter.1⟩
  · rintro (hm | ⟨hm, before, x, after, rfl, hx, hafter⟩)
    · exact ⟨messages, m, [], rfl, hm, by simp⟩
    · refine ⟨before, x, after ++ [m], by simp, hx, ?_⟩
      rw [List.forall_mem_append, List.forall_mem_singleton]
      exact ⟨hafter, hm⟩

theorem lastText_concat :
    LastText (messages ++ [m]) uri t ↔
      (m.opening? uri = some t ∨ (TakenOver messages uri ∧ m.changing? uri = some t)) ∨
        ((m.opening? uri = none ∧ m.changing? uri = none ∧ m.closes uri = false) ∧
          LastText messages uri t) := by
  constructor
  · rintro ⟨before, x, after, hmessages, hx, hafter⟩
    obtain ⟨rfl, rfl, rfl⟩ | ⟨later, rfl, rfl⟩ := concat_eq_iff.1 hmessages
    · exact .inl hx
    · rw [List.forall_mem_append, List.forall_mem_singleton] at hafter
      exact .inr ⟨hafter.2, before, x, later, rfl, hx, hafter.1⟩
  · rintro (hm | ⟨hm, before, x, after, rfl, hx, hafter⟩)
    · exact ⟨messages, m, [], rfl, hm, by simp⟩
    · refine ⟨before, x, after ++ [m], by simp, hx, ?_⟩
      rw [List.forall_mem_append, List.forall_mem_singleton]
      exact ⟨hafter, hm⟩

end

namespace Server

/-! ## What a message does -/

/-- The state after a notice. -/
def obey (s : Server) : Notice → Server
  | .opened d => (s.opened d).1
  | .changed c => (s.changed c).1
  | .closed uri => (s.closed uri).1
  | .configured value => (s.configured value).1

/-- A message does what it tells, and nothing else. -/
theorem handle_eq (s : Server) (m : Message) : (s.handle m).1 = (m.notice?.map s.obey).getD s := by
  cases m with
  | request id method params => rfl
  | response id => rfl
  | notification method params =>
      show (s.notice method params).1 = ((Notice.of? method params).map s.obey).getD s
      unfold Server.notice
      split
      · simp only [Notice.of?]
        cases Params.opened? params <;> rfl
      · simp only [Notice.of?]
        cases Params.changed? params <;> rfl
      · simp only [Notice.of?]
        cases Params.closed? params <;> rfl
      · simp only [Notice.of?]
        cases Params.configuration? params <;> rfl
      · simp [Notice.of?]

/-- The version and the text that are held for an address. -/
def held (s : Server) (uri : String) : Option (Int × String) :=
  (s.workspace.documents.atUri? uri).map fun d => (d.version, d.text)

section

variable {s : Server} {accepted : String → Bool} {sent : List Reply}

theorem held_takeText (h : s.UpToDate accepted sent) (address : String) (version : Int)
    (text uri : String) :
    (s.takeText address version text).held uri =
      if address = uri then some (version, text) else s.held uri := by
  rw [held, atUri?_takeText h.wellFormed]
  by_cases heq : address = uri
  · rw [if_pos heq.symm, if_pos heq]
    rfl
  · rw [if_neg (Ne.symm heq), if_neg heq]
    rfl

/-- A text is held for what is tracked, and for nothing else. -/
theorem UpToDate.isSome_held (h : s.UpToDate accepted sent) (uri : String) :
    (s.held uri).isSome = s.tracked.contains uri := by
  rw [h.tracked, held, Option.isSome_map]

theorem held_opened (h : s.UpToDate accepted sent) (d : Params.Opened) (uri : String) :
    (s.opened d).1.held uri =
      if d.uri == uri && (d.languageId = languageId || isSourceUri d.uri) then some (d.version, d.text)
      else s.held uri := by
  unfold Server.opened
  by_cases hd : (d.languageId = languageId || isSourceUri d.uri) = true
  · rw [if_pos hd, held, workspace_track, hd, Bool.and_true]
    have hheld := held_takeText h d.uri d.version d.text uri
    rw [held] at hheld
    simpa only [beq_iff_eq] using hheld
  · rw [if_neg hd, Bool.eq_false_iff.2 hd, Bool.and_false]
    rfl

theorem held_changed (h : s.UpToDate accepted sent) (c : Params.Changed) (uri : String) :
    (s.changed c).1.held uri =
      (s.held uri).map fun t =>
        (if c.uri = uri then c.texts.getLast?.map fun text => (c.version, text) else none).getD t := by
  have hsome := h.isSome_held uri
  unfold Server.changed
  by_cases hu : c.uri = uri
  · subst hu
    cases hheld : s.held c.uri with
    | none =>
        rw [hheld] at hsome
        rw [← hsome]
        exact hheld
    | some t =>
        rw [hheld] at hsome
        rw [← hsome]
        cases c.texts.getLast? with
        | none => simpa using hheld
        | some text => simpa using held_takeText h c.uri c.version text c.uri
  · have hother : (s.held uri).map (fun t => t) = s.held uri := Option.map_id'
    simp only [if_neg hu, Option.getD_none, hother]
    split
    · next text _ _ => rw [held_takeText h, if_neg hu]
    · rfl

theorem held_closed (h : s.UpToDate accepted sent) (address uri : String) :
    (s.closed address).1.held uri = if address == uri then none else s.held uri := by
  have hsome := h.isSome_held address
  unfold Server.closed
  split
  · rw [held, atUri?_close h.wellFormed]
    by_cases hu : address = uri
    · subst hu
      simp
    · simp [held, hu, Ne.symm hu]
  · next ht =>
    by_cases hu : address = uri
    · subst hu
      rw [Bool.eq_false_iff.2 ht, Option.isSome_eq_false_iff, Option.isNone_iff_eq_none] at hsome
      simpa using hsome
    · simp [hu]

theorem held_configured (s : Server) (value : Json) (uri : String) :
    (s.configured value).1.held uri = s.held uri := by
  unfold Server.configured
  split
  · rfl
  · rfl

/-- What is held for an address after a message: the text with which the message opens the document, or
    else, unless the message closes it, what was held or the text to which the message changes it. -/
theorem held_handle (h : s.UpToDate accepted sent) (m : Message) (uri : String) :
    (s.handle m).1.held uri =
      (m.opening? uri).or
        (if m.closes uri then none else (s.held uri).map fun t => (m.changing? uri).getD t) := by
  rw [handle_eq]
  unfold Message.opening? Message.changing? Message.closes
  cases m.notice? with
  | none => simp
  | some notice =>
      rw [Option.map_some, Option.getD_some]
      cases notice with
      | opened d =>
          rw [obey, held_opened h]
          simp only [Bool.false_eq_true, if_false, Option.getD_none, Option.map_id']
          split
          · rfl
          · rfl
      | changed c =>
          rw [obey, held_changed h]
          rfl
      | closed address =>
          rw [obey, held_closed h]
          simp
      | configured value =>
          rw [obey, held_configured]
          simp

end

theorem settings_handle (s : Server) (m : Message) :
    (s.handle m).1.settings = m.settings?.getD s.settings := by
  rw [handle_eq]
  unfold Message.settings?
  cases m.notice? with
  | none => rfl
  | some notice =>
      rw [Option.map_some, Option.getD_some]
      cases notice with
      | opened d =>
          rw [obey, Server.opened]
          split
          · exact settings_track ..
          · rfl
      | changed c =>
          rw [obey, Server.changed]
          split
          · rfl
          · rfl
      | closed address =>
          rw [obey, Server.closed]
          split
          · rfl
          · rfl
      | configured value =>
          simp only [obey, Server.configured]
          split
          · next hvalue => rw [hvalue]; rfl
          · next hvalue => rw [hvalue]; rfl

/-! ## All messages -/

theorem run_concat (s : Server) (messages : List Message) (m : Message) :
    s.run (messages ++ [m]) =
      (((s.run messages).1.handle m).1, (s.run messages).2 ++ ((s.run messages).1.handle m).2) := by
  induction messages generalizing s with
  | nil => simp [Server.run]
  | cons message rest ih => simp [Server.run, ih]

/-- The texts that a server holds are the last ones that its documents were given. -/
structure Holds (s : Server) (messages : List Message) : Prop where
  isSome : ∀ uri, (s.held uri).isSome = true ↔ TakenOver messages uri
  text : ∀ uri t, s.held uri = some t ↔ LastText messages uri t

theorem Holds.handle {s : Server} {messages : List Message} {accepted : String → Bool}
    {sent : List Reply} (hs : s.UpToDate accepted sent) (h : s.Holds messages) (m : Message) :
    (s.handle m).1.Holds (messages ++ [m]) := by
  constructor
  · intro uri
    rw [held_handle hs, takenOver_concat, Message.accepts_eq, Option.isSome_or, Bool.or_eq_true]
    refine or_congr_right ?_
    rw [← h.isSome]
    cases m.closes uri with
    | true => simp
    | false => simp
  · intro uri t
    rw [held_handle hs, lastText_concat]
    cases hchanging : m.changing? uri with
    | some t' =>
        obtain ⟨hopening, hcloses⟩ := Message.of_changing? hchanging
        rw [hopening, hcloses, ← h.isSome]
        cases s.held uri with
        | none => simp
        | some _ => simp
    | none =>
        cases m.opening? uri with
        | some t' => simp
        | none =>
            cases m.closes uri with
            | true => simp
            | false => simp [h.text]

theorem holds_run (settings : Settings) (messages : List Message) :
    ((start settings).run messages).1.Holds messages := by
  induction messages using List.reverseRecOn with
  | nil =>
      constructor
      · intro uri
        simp [TakenOver, Server.run, start, held, DocumentStore.atUri?, DocumentStore.idOf?,
          DocumentStore.empty, Workspace.empty]
      · intro uri t
        simp [LastText, Server.run, start, held, DocumentStore.atUri?, DocumentStore.idOf?,
          DocumentStore.empty, Workspace.empty]
  | append_singleton messages m ih =>
      rw [run_concat]
      exact ih.handle (upToDate_run settings messages) m

theorem settings_run (settings : Settings) (messages : List Message) :
    ((start settings).run messages).1.settings =
      (messages.filterMap Message.settings?).getLast?.getD settings := by
  induction messages using List.reverseRecOn with
  | nil => rfl
  | append_singleton messages m ih =>
      rw [run_concat, settings_handle, ih, List.filterMap_append]
      cases hm : m.settings? with
      | none => simp [hm]
      | some settings' => simp [hm]

/-- What the server holds, by the messages alone. After any messages, the open documents are those that
    are taken over, each with the last version and text that it was given; and the settings are those of
    the last change of the configuration that could be read, or those of the start. -/
theorem held_last (settings : Settings) (messages : List Message) :
    let s := ((start settings).run messages).1
    (∀ uri, uri ∈ s.workspace.openUris ↔ TakenOver messages uri) ∧
    (∀ uri version text, (∃ d, s.workspace.documents.atUri? uri = some d ∧
        d.version = version ∧ d.text = text) ↔ LastText messages uri (version, text)) ∧
    s.settings = (messages.filterMap Message.settings?).getLast?.getD settings := by
  intro s
  have h := holds_run settings messages
  refine ⟨fun uri => ?_, fun uri version text => ?_, settings_run settings messages⟩
  · rw [← h.isSome, held, Option.isSome_map,
      DocumentStore.isSome_atUri? (upToDate_run settings messages).wellFormed]
    rfl
  · rw [← h.text, held, Option.map_eq_some_iff]
    simp only [Prod.mk.injEq]
    rfl

/-! ## Sessions -/

/-- A session hands its messages to the server as long as none of them asks to shut down. -/
theorem session_run_serving {messages : List Message}
    (h : ∀ id params, Message.request id "shutdown" params ∉ messages) (s : Server) :
    (Session.serving s).run messages = (.serving (s.run messages).1, (s.run messages).2) := by
  induction messages generalizing s with
  | nil => rfl
  | cons message rest ih =>
      have hstep : (Session.serving s).step message =
          (.serving (s.handle message).1, (s.handle message).2) := by
        simp only [Session.step]
        split
        · exact absurd List.mem_cons_self (h _ _)
        · rfl
      have hrest := ih (fun id params hmem => h id params (List.mem_cons_of_mem _ hmem))
      simp only [Session.run, Server.run, hstep, hrest]

/-- A client that was welcomed and sends messages, none of which asks to shut down, sees what it should
    see, of the texts that it has sent last and under the settings that it has sent last. -/
theorem session_view (id : RequestId) (params confirmation : Json) {messages : List Message}
    (h : ∀ id params, Message.request id "shutdown" params ∉ messages) :
    ∃ s sent, Session.waiting.run (.request id "initialize" params ::
        .notification "initialized" confirmation :: messages) = (.serving s, .welcome id :: sent) ∧
      s.UpToDate (fun uri => messages.any (·.accepts uri)) (.welcome id :: sent) ∧
      s.Holds messages ∧
      s.settings =
        (messages.filterMap Message.settings?).getLast?.getD (Session.settingsOf params) := by
  have hview := upToDate_run (Session.settingsOf params) messages
  refine ⟨((start (Session.settingsOf params)).run messages).1,
    ((start (Session.settingsOf params)).run messages).2, ?_,
    ⟨hview.wellFormed, hview.tracked, hview.known, fun uri => ?_⟩, holds_run _ messages,
    settings_run _ messages⟩
  · simp only [Session.run, Session.step, if_true, session_run_serving h, List.nil_append,
      List.singleton_append]
  · exact hview.last uri

end Server

end FourthGen
