import FourthGen.Proofs.Document.Store
import FourthGen.Server.Session

set_option autoImplicit false

/-! # What the client sees

The client shows for a document what was published for it last. The server keeps this up to date: for
an open document it is the document's diagnostics under the present settings, for a document that was
closed it is nothing, and for any other address nothing was published at all. The invariant ties the
state of the server to the whole list of messages it has sent, and every message preserves it. -/

namespace FourthGen

/-! ## Histories -/

namespace Reply

/-- Whether a message publishes diagnostics for the address. -/
def publishes (uri : String) : Reply → Bool
  | publish address _ _ => address == uri
  | _ => false

/-- The message that was last sent to publish diagnostics for the address. -/
def lastFor (uri : String) (sent : List Reply) : Option Reply := (sent.filter (publishes uri)).getLast?

theorem lastFor_append (uri : String) (sent later : List Reply) :
    lastFor uri (sent ++ later) = (lastFor uri later).or (lastFor uri sent) := by
  rw [lastFor, List.filter_append, List.getLast?_append]
  rfl

/-- The JSON form of a message that publishes diagnostics, which are in JSON already. -/
def publication (uri : String) (version : Option Int) (items : List Json) : Json :=
  .obj
    [("method", .str "textDocument/publishDiagnostics"),
     ("params", Json.objOfSome
       [("uri", some (.str uri)), ("diagnostics", some (.arr items)), ("version", version.map .int)])]

end Reply

namespace Message

/-- Whether the message opens the document at the address and the server takes it over: by the
    client's word for its language, or by its extension. -/
def accepts (uri : String) : Message → Bool
  | notification "textDocument/didOpen" params =>
    (Params.opened? params).any fun d =>
      d.uri == uri && (d.languageId = languageId || isSourceUri d.uri)
  | _ => false

theorem accepts_eq_false {method : String} (h : method ≠ "textDocument/didOpen") (params : Json)
    (uri : String) : (notification method params).accepts uri = false := by
  unfold accepts
  split
  · next heq =>
    cases heq
    exact absurd rfl h
  · rfl

end Message

namespace Server

/-- The state after several messages, and all that is sent, in order. -/
def run : Server → List Message → Server × List Reply
  | s, [] => (s, [])
  | s, message :: rest =>
    let (s, sent) := s.handle message
    let (s, later) := s.run rest
    (s, sent ++ later)

/-! ## The invariant -/

/-- What should have been published last for an address, given whether it was ever taken over. -/
def view (s : Server) (uri : String) (accepted : Bool) : Option Reply :=
  match s.workspace.documents.atUri? uri with
  | some d => some (.publish uri (some d.version) (s.visibleDiagnostics uri))
  | none => if accepted then some (.publish uri none []) else none

/-- The state of the server goes with the messages that it has sent, where `accepted` are the
    addresses that it has ever taken over. -/
structure UpToDate (s : Server) (accepted : String → Bool) (sent : List Reply) : Prop where
  wellFormed : s.workspace.documents.WellFormed
  tracked : ∀ uri, s.tracked.contains uri = (s.workspace.documents.atUri? uri).isSome
  known : ∀ uri, s.tracked.contains uri = true → accepted uri = true
  last : ∀ uri, Reply.lastFor uri sent = s.view uri (accepted uri)

theorem upToDate_start (settings : Settings) : (start settings).UpToDate (fun _ => false) [] where
  wellFormed := DocumentStore.wellFormed_empty
  tracked := fun _ => rfl
  known := fun _ h => by cases h
  last := fun _ => rfl

/-- What should be seen of an address depends on its document and on the settings only. -/
theorem view_congr {s s' : Server} {uri : String} (hs : s'.settings = s.settings)
    (hd : s'.workspace.documents.atUri? uri = s.workspace.documents.atUri? uri) (accepted : Bool) :
    s'.view uri accepted = s.view uri accepted := by
  simp only [view, visibleDiagnostics, Workspace.diagnostics, hs, hd]

theorem view_of_open {s : Server} {uri : String} {d : Document}
    (hd : s.workspace.documents.atUri? uri = some d) (accepted : Bool) :
    s.view uri accepted = some (.publish uri (some d.version) (s.visibleDiagnostics uri)) := by
  rw [view, hd]

/-- A message that changes nothing and publishes nothing. -/
theorem UpToDate.idle {s : Server} {accepted accepted' : String → Bool} {sent later : List Reply}
    (h : s.UpToDate accepted sent) (ha : ∀ uri, accepted' uri = accepted uri)
    (hlater : ∀ uri, Reply.lastFor uri later = none) : s.UpToDate accepted' (sent ++ later) where
  wellFormed := h.wellFormed
  tracked := h.tracked
  known uri hu := by rw [ha, h.known uri hu]
  last uri := by rw [Reply.lastFor_append, hlater, Option.none_or, ha, h.last]

/-- A message that is about one address, for which it publishes what should be seen. -/
theorem UpToDate.single {s s' : Server} {accepted accepted' : String → Bool} {sent : List Reply}
    (h : s.UpToDate accepted sent) (address : String) {version : Option Int} {ds : List Diagnostic}
    (hw : s'.workspace.documents.WellFormed) (hs : s'.settings = s.settings)
    (hother : ∀ uri, uri ≠ address → accepted' uri = accepted uri ∧
      s'.tracked.contains uri = s.tracked.contains uri ∧
      s'.workspace.documents.atUri? uri = s.workspace.documents.atUri? uri)
    (htracked : s'.tracked.contains address = (s'.workspace.documents.atUri? address).isSome)
    (haccepted : accepted' address = true)
    (hview : s'.view address true = some (.publish address version ds)) :
    s'.UpToDate accepted' (sent ++ [.publish address version ds]) where
  wellFormed := hw
  tracked uri := by
    by_cases heq : uri = address
    · rw [heq, htracked]
    · obtain ⟨-, ht, hd⟩ := hother uri heq
      rw [ht, hd, h.tracked]
  known uri hu := by
    by_cases heq : uri = address
    · rw [heq, haccepted]
    · obtain ⟨ha, ht, -⟩ := hother uri heq
      rw [ha, h.known uri (by rw [← ht, hu])]
  last uri := by
    rw [Reply.lastFor_append]
    by_cases heq : uri = address
    · subst heq
      rw [haccepted, hview]
      simp [Reply.lastFor, Reply.publishes]
    · obtain ⟨ha, -, hd⟩ := hother uri heq
      have hnone : Reply.lastFor uri [.publish address version ds] = none := by
        simp [Reply.lastFor, Reply.publishes, Ne.symm heq]
      rw [hnone, Option.none_or, ha, view_congr hs hd, h.last]

/-! ## One message -/

theorem documents_takeText (s : Server) (uri : String) (version : Int) (text : String) :
    (s.takeText uri version text).workspace.documents =
      (s.workspace.documents.upsert uri version text).2 := rfl

theorem atUri?_takeText {s : Server} (h : s.workspace.documents.WellFormed) (uri : String)
    (version : Int) (text other : String) :
    (s.takeText uri version text).workspace.documents.atUri? other =
      if other = uri then some ⟨uri, version, text⟩ else s.workspace.documents.atUri? other := by
  rw [documents_takeText, DocumentStore.atUri?_upsert h]

theorem documents_close (w : Workspace) (uri : String) :
    (w.close uri).2.documents = (w.documents.close uri).2 := by
  unfold Workspace.close
  split
  · next hc => rw [hc]
  · next hc =>
    unfold DocumentStore.close at hc ⊢
    split at hc
    · cases hc
    · rfl

theorem atUri?_close {w : Workspace} (h : w.documents.WellFormed) (uri other : String) :
    (w.close uri).2.documents.atUri? other =
      if other = uri then none else w.documents.atUri? other := by
  rw [documents_close, DocumentStore.atUri?_close h]

theorem contains_track (s : Server) (uri other : String) :
    (s.track uri).tracked.contains other = (other == uri || s.tracked.contains other) := by
  unfold track
  split
  · next hc =>
    cases heq : other == uri with
    | false => rfl
    | true =>
        rw [eq_of_beq heq, hc]
        rfl
  · rw [List.contains_cons]

theorem workspace_track (s : Server) (uri : String) : (s.track uri).workspace = s.workspace := by
  unfold track
  split <;> rfl

theorem settings_track (s : Server) (uri : String) : (s.track uri).settings = s.settings := by
  unfold track
  split <;> rfl

/-- What a document publishes when its text was taken over. -/
theorem publish_takeText {s : Server} {uri : String} {d : Document} (ht : s.tracked.contains uri = true)
    (hd : s.workspace.documents.atUri? uri = some d) :
    s.publish uri (some d.version) = [.publish uri (some d.version) (s.visibleDiagnostics uri)] ∧
      s.view uri true = some (.publish uri (some d.version) (s.visibleDiagnostics uri)) :=
  ⟨by rw [publish, if_pos ht], view_of_open hd true⟩

theorem UpToDate.opened {s : Server} {accepted accepted' : String → Bool} {sent : List Reply}
    (h : s.UpToDate accepted sent) (d : Params.Opened)
    (hd : (d.languageId = languageId || isSourceUri d.uri) = true)
    (ha : ∀ uri, accepted' uri = (accepted uri || d.uri == uri)) :
    (s.opened d).1.UpToDate accepted' (sent ++ (s.opened d).2) := by
  rw [Server.opened, if_pos hd]
  have hdocs (uri : String) :
      ((s.takeText d.uri d.version d.text).track d.uri).workspace.documents.atUri? uri =
        if uri = d.uri then some ⟨d.uri, d.version, d.text⟩
        else s.workspace.documents.atUri? uri := by
    rw [workspace_track, atUri?_takeText h.wellFormed]
  have ht : ((s.takeText d.uri d.version d.text).track d.uri).tracked.contains d.uri = true := by
    rw [contains_track, beq_self_eq_true, Bool.true_or]
  have hopen := (hdocs d.uri).trans (if_pos rfl)
  obtain ⟨hpublish, hview⟩ := publish_takeText ht hopen
  simp only [hpublish]
  refine h.single d.uri ?_ ?_ ?_ ?_ ?_ hview
  · rw [workspace_track, documents_takeText]
    exact h.wellFormed.upsert ..
  · rw [settings_track]
    rfl
  · intro uri hne
    refine ⟨?_, ?_, by rw [hdocs, if_neg hne]⟩
    · rw [ha, beq_eq_false_iff_ne.2 (Ne.symm hne), Bool.or_false]
    · rw [contains_track, beq_eq_false_iff_ne.2 hne, Bool.false_or]
      rfl
  · rw [ht, hopen]
    rfl
  · rw [ha, beq_self_eq_true, Bool.or_true]

theorem UpToDate.changed {s : Server} {accepted : String → Bool} {sent : List Reply}
    (h : s.UpToDate accepted sent) (c : Params.Changed) :
    (s.changed c).1.UpToDate accepted (sent ++ (s.changed c).2) := by
  unfold Server.changed
  split
  · next text ht htext =>
    have hdocs := atUri?_takeText h.wellFormed c.uri c.version text
    have ht' : (s.takeText c.uri c.version text).tracked.contains c.uri = true := ht
    have hopen := (hdocs c.uri).trans (if_pos rfl)
    obtain ⟨hpublish, hview⟩ := publish_takeText ht' hopen
    simp only [hpublish]
    refine h.single c.uri ?_ rfl ?_ ?_ (h.known c.uri ht) hview
    · rw [documents_takeText]
      exact h.wellFormed.upsert ..
    · intro uri hne
      exact ⟨rfl, rfl, by rw [hdocs, if_neg hne]⟩
    · rw [ht', hopen]
      rfl
  · exact h.idle (fun _ => rfl) fun _ => rfl

theorem UpToDate.closed {s : Server} {accepted : String → Bool} {sent : List Reply}
    (h : s.UpToDate accepted sent) (uri : String) :
    (s.closed uri).1.UpToDate accepted (sent ++ (s.closed uri).2) := by
  unfold Server.closed
  split
  · next ht =>
    have hgone := atUri?_close h.wellFormed uri
    refine h.single uri ?_ rfl ?_ ?_ (h.known uri ht) ?_
    · rw [documents_close]
      exact h.wellFormed.close uri
    · intro other hne
      refine ⟨rfl, ?_, by rw [hgone, if_neg hne]⟩
      rw [Bool.eq_iff_iff]
      simp [hne]
    · rw [hgone, if_pos rfl]
      simp
    · simp only [view, hgone, if_pos]
  · exact h.idle (fun _ => rfl) fun _ => rfl

/-- Publishing for several addresses shows for each of them what was published for it. -/
theorem lastFor_flatMap {uris : List String} {message : String → Reply}
    (h : ∀ address uri, (message address).publishes uri = (address == uri)) (uri : String) :
    Reply.lastFor uri (uris.flatMap fun address => [message address]) =
      if uri ∈ uris then some (message uri) else none := by
  induction uris with
  | nil => rfl
  | cons address uris ih =>
      rw [List.flatMap_cons, Reply.lastFor_append, ih]
      by_cases heq : address = uri
      · subst heq
        have hlast : Reply.lastFor address [message address] = some (message address) := by
          simp [Reply.lastFor, h]
        rw [hlast, if_pos List.mem_cons_self]
        split <;> rfl
      · simp [Reply.lastFor, h, heq, Ne.symm heq]

theorem lastFor_publishAll {s : Server} (hw : s.workspace.documents.WellFormed)
    (ht : ∀ uri, s.tracked.contains uri = (s.workspace.documents.atUri? uri).isSome) (uri : String) :
    Reply.lastFor uri s.publishAll =
      (s.workspace.documents.atUri? uri).map fun d =>
        .publish uri (some d.version) (s.visibleDiagnostics uri) := by
  have hall : s.publishAll = s.workspace.openUris.flatMap fun address =>
      [.publish address ((s.workspace.documents.atUri? address).map (·.version))
        (s.visibleDiagnostics address)] := by
    unfold publishAll publish
    rw [List.flatMap_def, List.flatMap_def]
    congr 1
    apply List.map_congr_left
    intro address hmem
    rw [if_pos]
    rw [ht, DocumentStore.isSome_atUri? hw]
    exact hmem
  rw [hall, lastFor_flatMap fun _ _ => rfl]
  cases hd : s.workspace.documents.atUri? uri with
  | none =>
      have hmem : uri ∉ s.workspace.openUris := by
        intro hmem
        have := (DocumentStore.isSome_atUri? hw).2 hmem
        rw [hd] at this
        cases this
      rw [if_neg hmem]
      rfl
  | some d =>
      have hmem : uri ∈ s.workspace.openUris :=
        (DocumentStore.isSome_atUri? hw).1 (by rw [hd]; rfl)
      rw [if_pos hmem]
      rfl

/-- New settings change what should be seen of all open documents, and all of these are published. -/
theorem UpToDate.configured {s : Server} {accepted : String → Bool} {sent : List Reply}
    (h : s.UpToDate accepted sent) (value : Json) :
    (s.configured value).1.UpToDate accepted (sent ++ (s.configured value).2) := by
  unfold Server.configured
  split
  · next settings _ =>
    refine ⟨h.wellFormed, h.tracked, h.known, ?_⟩
    intro uri
    have hall := @lastFor_publishAll { s with settings := settings } h.wellFormed h.tracked uri
    simp only [Reply.lastFor_append, hall, h.last, view]
    cases s.workspace.documents.atUri? uri with
    | none => rfl
    | some d => rfl
  · exact h.idle (fun _ => rfl) fun _ => rfl

theorem UpToDate.notice {s : Server} {accepted : String → Bool} {sent : List Reply}
    (h : s.UpToDate accepted sent) (method : String) (params : Json) :
    (s.notice method params).1.UpToDate
      (fun uri => accepted uri || (Message.notification method params).accepts uri)
      (sent ++ (s.notice method params).2) := by
  unfold Server.notice
  split
  · simp only [Message.accepts]
    cases Params.opened? params with
    | none => exact h.idle (fun _ => Bool.or_false _) fun _ => rfl
    | some d =>
        by_cases hd : (d.languageId = languageId || isSourceUri d.uri) = true
        · refine h.opened d hd fun uri => ?_
          simp only [Option.any_some, hd, Bool.and_true]
        · have hpass : s.opened d = (s, []) := by rw [Server.opened, if_neg hd]
          simp only [Option.map_some, Option.getD_some, hpass]
          refine h.idle (fun uri => ?_) fun _ => rfl
          simp only [Option.any_some, Bool.eq_false_iff.2 hd, Bool.and_false, Bool.or_false]
  · simp (disch := decide) only [Message.accepts_eq_false, Bool.or_false]
    cases Params.changed? params with
    | none => exact h.idle (fun _ => rfl) fun _ => rfl
    | some c => exact h.changed c
  · simp (disch := decide) only [Message.accepts_eq_false, Bool.or_false]
    cases Params.closed? params with
    | none => exact h.idle (fun _ => rfl) fun _ => rfl
    | some uri => exact h.closed uri
  · simp (disch := decide) only [Message.accepts_eq_false, Bool.or_false]
    cases Params.configuration? params with
    | none => exact h.idle (fun _ => rfl) fun _ => rfl
    | some value => exact h.configured value
  · next hopen _ _ _ =>
    simp only [Message.accepts_eq_false hopen, Bool.or_false]
    exact h.idle (fun _ => rfl) fun _ => rfl

/-- An answer publishes nothing. -/
theorem lastFor_answer (s : Server) (id : RequestId) (method : String) (params : Json) (uri : String) :
    Reply.lastFor uri [s.answer id method params] = none := by
  unfold answer
  split
  · split <;> rfl
  · split <;> rfl
  · rfl

theorem UpToDate.handle {s : Server} {accepted : String → Bool} {sent : List Reply}
    (h : s.UpToDate accepted sent) (message : Message) :
    (s.handle message).1.UpToDate (fun uri => accepted uri || message.accepts uri)
      (sent ++ (s.handle message).2) := by
  cases message with
  | request id method params =>
      exact h.idle (fun _ => Bool.or_false _) (s.lastFor_answer id method params)
  | response id => exact h.idle (fun _ => Bool.or_false _) fun _ => rfl
  | notification method params => exact h.notice method params

/-! ## All messages -/

theorem UpToDate.run {s : Server} {accepted : String → Bool} {sent : List Reply}
    (h : s.UpToDate accepted sent) (messages : List Message) :
    (s.run messages).1.UpToDate (fun uri => accepted uri || messages.any (·.accepts uri))
      (sent ++ (s.run messages).2) := by
  induction messages generalizing s accepted sent with
  | nil => simpa [Server.run] using h
  | cons message rest ih =>
      have := ih (h.handle message)
      simpa [Server.run, Bool.or_assoc] using this

theorem upToDate_run (settings : Settings) (messages : List Message) :
    ((start settings).run messages).1.UpToDate (fun uri => messages.any (·.accepts uri))
      ((start settings).run messages).2 := by
  simpa using (upToDate_start settings).run messages

theorem UpToDate.mem_tracked_iff {s : Server} {accepted : String → Bool} {sent : List Reply}
    (h : s.UpToDate accepted sent) {uri : String} :
    uri ∈ s.tracked ↔ uri ∈ s.workspace.openUris := by
  rw [← List.contains_iff_mem, h.tracked, DocumentStore.isSome_atUri? h.wellFormed]
  rfl

theorem UpToDate.encode_lastFor_of_open {s : Server} {accepted : String → Bool} {sent : List Reply}
    (h : s.UpToDate accepted sent) {uri : String} {d : Document}
    (hd : s.workspace.documents.atUri? uri = some d) :
    (Reply.lastFor uri sent).map Reply.encode =
      some (Reply.publication uri (some d.version)
        (if s.settings.diagnosticsEnabled then
          ((diagnose d.text).take s.settings.maxProblems).map Reply.encodeDiagnostic
        else [])) := by
  rw [h.last, view_of_open hd, visibleDiagnostics, Workspace.diagnostics, hd]
  cases s.settings.diagnosticsEnabled <;> rfl

theorem UpToDate.lastFor_of_not_open {s : Server} {accepted : String → Bool} {sent : List Reply}
    (h : s.UpToDate accepted sent) {uri : String} (hu : uri ∉ s.workspace.openUris) :
    Reply.lastFor uri sent = if accepted uri then some (.publish uri none []) else none := by
  have hd : s.workspace.documents.atUri? uri = none :=
    Option.not_isSome_iff_eq_none.1 fun hs => hu ((DocumentStore.isSome_atUri? h.wellFormed).1 hs)
  rw [h.last, view, hd]

/-- The client's view never goes stale. After any messages, from any settings: the server tracks just
    the open documents; what was last published for an open document carries its version and the first
    of the diagnostics of its text, as many as the present settings allow; for a document that was
    taken over once and is closed it is empty and has no version; and nothing was ever published for an
    address that was never taken over. -/
theorem published_up_to_date (settings : Settings) (messages : List Message) :
    let s := ((start settings).run messages).1
    let sent := ((start settings).run messages).2
    (∀ uri, uri ∈ s.tracked ↔ uri ∈ s.workspace.openUris) ∧
    (∀ uri ∈ s.workspace.openUris, ∃ d, s.workspace.documents.atUri? uri = some d ∧
      (Reply.lastFor uri sent).map Reply.encode =
        some (Reply.publication uri (some d.version)
          (if s.settings.diagnosticsEnabled then
            ((diagnose d.text).take s.settings.maxProblems).map Reply.encodeDiagnostic
          else []))) ∧
    (∀ uri, (∃ m ∈ messages, m.accepts uri = true) → uri ∉ s.workspace.openUris →
      (Reply.lastFor uri sent).map Reply.encode = some (Reply.publication uri none [])) ∧
    ∀ uri, (∀ m ∈ messages, m.accepts uri = false) → ∀ r ∈ sent, r.publishes uri = false := by
  intro s sent
  have h : s.UpToDate (fun uri => messages.any (·.accepts uri)) sent := upToDate_run settings messages
  refine ⟨fun uri => h.mem_tracked_iff, ?_, ?_, ?_⟩
  · intro uri hu
    obtain ⟨d, hd⟩ := Option.isSome_iff_exists.1 ((DocumentStore.isSome_atUri? h.wellFormed).2 hu)
    exact ⟨d, hd, h.encode_lastFor_of_open hd⟩
  · rintro uri ⟨m, hm, hacc⟩ hu
    have hany : messages.any (·.accepts uri) = true := List.any_eq_true.2 ⟨m, hm, hacc⟩
    rw [h.lastFor_of_not_open hu, if_pos hany]
    rfl
  · intro uri hnever r hr
    have hany : messages.any (·.accepts uri) = false :=
      List.any_eq_false.2 fun m hm => by rw [hnever m hm]; decide
    have hclosed : uri ∉ s.workspace.openUris := by
      intro hu
      have hknown := h.known uri (List.contains_iff_mem.2 (h.mem_tracked_iff.2 hu))
      rw [hany] at hknown
      cases hknown
    have hlast := h.lastFor_of_not_open hclosed
    rw [hany, if_neg Bool.false_ne_true, Reply.lastFor, List.getLast?_eq_none_iff,
      List.filter_eq_nil_iff] at hlast
    exact Bool.eq_false_iff.2 (hlast r hr)

/-- Two documents are opened, one is changed, the settings come to allow one diagnostic of it only, and
    the other one is closed. -/
theorem published_after_changes :
    let text := "LET a 1\nLET b 2\n"
    let messages : List Message := [
      .notification "textDocument/didOpen" (.obj [("textDocument", .obj
        [("uri", .str "file:///a.4gl"), ("languageId", .str "fourgl"), ("version", .int 1),
         ("text", .str "LET a = 1\n")])]),
      .notification "textDocument/didOpen" (.obj [("textDocument", .obj
        [("uri", .str "file:///b.4gl"), ("languageId", .str "text"), ("version", .int 7),
         ("text", .str "LET c 3\n")])]),
      .notification "textDocument/didChange" (.obj [
        ("textDocument", .obj [("uri", .str "file:///a.4gl"), ("version", .int 2)]),
        ("contentChanges", .arr [.obj [("text", .str text)]])]),
      .notification "workspace/didChangeConfiguration" (.obj [
        ("settings", .obj [("maxNumberOfProblems", .nat 1)])]),
      .notification "textDocument/didClose" (.obj [
        ("textDocument", .obj [("uri", .str "file:///b.4gl")])])]
    let sent := ((start .standard).run messages).2
    (diagnose text).length = 2 ∧
      (Reply.lastFor "file:///a.4gl" sent).map Reply.encode =
        some (Reply.publication "file:///a.4gl" (some 2)
          (((diagnose text).take 1).map Reply.encodeDiagnostic)) ∧
      (Reply.lastFor "file:///b.4gl" sent).map Reply.encode =
        some (Reply.publication "file:///b.4gl" none []) ∧
      ∀ r ∈ sent, r.publishes "file:///c.4gl" = false := by
  intro text messages sent
  obtain ⟨-, hopen, hclosed, hnever⟩ := published_up_to_date .standard messages
  have hlength : (diagnose text).length = 2 := by decide +kernel
  have hstate : "file:///a.4gl" ∈ ((start .standard).run messages).1.workspace.openUris ∧
      ((start .standard).run messages).1.workspace.documents.atUri? "file:///a.4gl" =
        some ⟨"file:///a.4gl", 2, text⟩ ∧
      ((start .standard).run messages).1.settings = ⟨1, true, true⟩ := by decide +kernel
  refine ⟨hlength, ?_, ?_, ?_⟩
  · obtain ⟨d, hd, hlast⟩ := hopen _ hstate.1
    rw [hstate.2.1, Option.some.injEq] at hd
    subst hd
    rw [hstate.2.2] at hlast
    exact hlast
  · refine hclosed "file:///b.4gl" ?_ (by decide +kernel)
    exact ⟨messages[1], List.getElem_mem _, by decide +kernel⟩
  · refine hnever "file:///c.4gl" ?_
    have hall : messages.all (fun m => !m.accepts "file:///c.4gl") = true := by decide +kernel
    simpa only [List.all_eq_true, Bool.not_eq_true'] using hall

end Server

end FourthGen
