import FourthGen.Proofs.Server.View

set_option autoImplicit false

/-! # Requests and their answers

Every request is answered once, under its own name and before anything that comes behind it, until a
request to shut down is answered; then the server falls silent. What an answer says is determined by
the state of the server when the request arrives (`Server.Answer`). Requests change nothing, and
neither do messages that the server does not know or cannot read: a run without them ends in the same
state and publishes the same diagnostics (`Server.run_filter_idle`). -/

namespace FourthGen

/-! ## Messages -/

namespace Message

/-- The name of a request. -/
def requestId? : Message → Option RequestId
  | request id _ _ => some id
  | response _ | notification _ _ => none

/-- Whether the message asks to shut down. -/
def isShutdown : Message → Bool
  | request _ "shutdown" _ => true
  | _ => false

/-- The messages up to the first one that asks to shut down, which is included. -/
def upToShutdown : List Message → List Message
  | [] => []
  | message :: rest => if message.isShutdown then [message] else message :: upToShutdown rest

/-- Whether the message is none that tells the server anything: a request, a response, a notification
    that the server does not know or whose parameters cannot be read, or one with settings that cannot
    be read. -/
def isIdle : Message → Bool
  | request _ _ _ | response _ => true
  | notification "textDocument/didOpen" params => (Params.opened? params).isNone
  | notification "textDocument/didChange" params => (Params.changed? params).isNone
  | notification "textDocument/didClose" params => (Params.closed? params).isNone
  | notification "workspace/didChangeConfiguration" params =>
    ((Params.configuration? params).bind Settings.ofJson?).isNone
  | notification _ _ => true

end Message

namespace Reply

/-- The name under which a message answers a request, as the client reads it. -/
def answeredId? (r : Reply) : Option Json := r.encode.get? "id"

/-- Whether a message publishes diagnostics. -/
def isPublication : Reply → Bool
  | publish _ _ _ => true
  | _ => false

theorem publishes_eq_false {r : Reply} (h : r.isPublication = false) (uri : String) :
    r.publishes uri = false := by
  cases r with
  | publish => cases h
  | _ => rfl

/-- Diagnostics are published under no name. -/
theorem answeredId?_publish (uri : String) (version : Option Int) (ds : List Diagnostic) :
    (publish uri version ds).answeredId? = none := rfl

end Reply

/-! ## One message -/

namespace Server

/-- What the server answers to a request, in JSON: `s` is its state when the request arrives. -/
inductive Answer (s : Server) (id : RequestId) : (method : String) → (params : Json) → Json → Prop
  | shutdown {params : Json} : Answer s id "shutdown" params (Reply.result id .null)
  | unknownMethod {method : String} {params : Json}
      (h : method ∉ ["shutdown", "textDocument/completion", "textDocument/hover"]) :
      Answer s id method params (Reply.failure id (-32601) ("method not supported: " ++ method))
  | invalidCompletion {params : Json} {reason : String} (h : Params.completion? params = none) :
      Answer s id "textDocument/completion" params (Reply.failure id (-32602) reason)
  | invalidHover {params : Json} {reason : String} (h : Params.hover? params = none) :
      Answer s id "textDocument/hover" params (Reply.failure id (-32602) reason)
  | completion {params : Json} {place : Params.Place} (h : Params.completion? params = some place)
      (he : s.settings.completionEnabled = true) :
      Answer s id "textDocument/completion" params
        (Reply.result id (.arr
          ((s.workspace.completionsAt place.uri place.position).map Reply.encodeCompletion)))
  | noCompletion {params : Json} {place : Params.Place} (h : Params.completion? params = some place)
      (he : s.settings.completionEnabled = false) :
      Answer s id "textDocument/completion" params (Reply.result id (.arr []))
  | hover {params : Json} {place : Params.Place} (h : Params.hover? params = some place) :
      Answer s id "textDocument/hover" params
        (Reply.result id
          (Json.orNull ((s.workspace.hoverAt place.uri place.position).map Reply.encodeHover)))

variable (s : Server)

theorem answer_spec (id : RequestId) {method : String} (h : method ≠ "shutdown") (params : Json) :
    s.Answer id method params (s.answer id method params).encode := by
  unfold answer
  split
  · cases hp : Params.completion? params with
    | none => exact .invalidCompletion hp
    | some place =>
        cases he : s.settings.completionEnabled with
        | true =>
            simp only [completionsFor, he, if_true]
            exact .completion hp he
        | false =>
            simp only [completionsFor, he]
            exact .noCompletion hp he
  · cases hp : Params.hover? params with
    | none => exact .invalidHover hp
    | some place => exact .hover hp
  · next hc hh =>
    refine .unknownMethod ?_
    simp only [List.mem_cons, List.not_mem_nil, or_false, not_or]
    exact ⟨h, hc, hh⟩

theorem answeredId?_answer (id : RequestId) (method : String) (params : Json) :
    (s.answer id method params).answeredId? = some id.encode := by
  unfold answer
  split
  · cases Params.completion? params <;> rfl
  · cases Params.hover? params <;> rfl
  · rfl

theorem isPublication_answer (id : RequestId) (method : String) (params : Json) :
    (s.answer id method params).isPublication = false := by
  unfold answer
  split
  · cases Params.completion? params <;> rfl
  · cases Params.hover? params <;> rfl
  · rfl

/-- All that the server sends on a notification are diagnostics. -/
theorem isPublication_of_notice {method : String} {params : Json} {r : Reply}
    (h : r ∈ (s.notice method params).2) : r.isPublication = true := by
  have hpublish {s : Server} {uri : String} {version : Option Int} (h : r ∈ s.publish uri version) :
      r.isPublication = true := by
    unfold publish at h
    split at h
    · rw [List.mem_singleton.1 h]
      rfl
    · cases h
  unfold notice at h
  split at h
  · cases hp : Params.opened? params with
    | none => simp [hp] at h
    | some d =>
        simp only [hp, Option.map_some, Option.getD_some, opened] at h
        split at h
        · exact hpublish h
        · cases h
  · cases hp : Params.changed? params with
    | none => simp [hp] at h
    | some c =>
        simp only [hp, Option.map_some, Option.getD_some, changed] at h
        split at h
        · exact hpublish h
        · cases h
  · cases hp : Params.closed? params with
    | none => simp [hp] at h
    | some uri =>
        simp only [hp, Option.map_some, Option.getD_some, closed] at h
        split at h
        · rw [List.mem_singleton.1 h]
          rfl
        · cases h
  · cases hp : Params.configuration? params with
    | none => simp [hp] at h
    | some value =>
        simp only [hp, Option.map_some, Option.getD_some, configured] at h
        split at h
        · obtain ⟨uri, -, hr⟩ := List.mem_flatMap.1 h
          exact hpublish hr
        · cases h
  · cases h

/-- A notification that tells nothing is passed over. -/
theorem notice_of_idle {method : String} {params : Json}
    (h : (Message.notification method params).isIdle = true) : s.notice method params = (s, []) := by
  unfold notice
  split
  · rw [Option.isNone_iff_eq_none.1 h]
    rfl
  · rw [Option.isNone_iff_eq_none.1 h]
    rfl
  · rw [Option.isNone_iff_eq_none.1 h]
    rfl
  · have hnone := Option.isNone_iff_eq_none.1 h
    cases hp : Params.configuration? params with
    | none => rfl
    | some value =>
        rw [hp, Option.bind_some] at hnone
        simp only [Option.map_some, Option.getD_some, configured, hnone]
  · rfl

/-- Messages that tell nothing leave the server as it was, and nothing is published. -/
theorem handle_of_idle {m : Message} (h : m.isIdle = true) :
    (s.handle m).1 = s ∧ ∀ r ∈ (s.handle m).2, r.isPublication = false := by
  cases m with
  | request id method params =>
      refine ⟨rfl, ?_⟩
      intro r hr
      rw [List.mem_singleton.1 hr]
      exact s.isPublication_answer id method params
  | response id =>
      refine ⟨rfl, ?_⟩
      intro r hr
      cases hr
  | notification method params =>
      rw [handle, s.notice_of_idle h]
      refine ⟨rfl, ?_⟩
      intro r hr
      cases hr

/-- Messages that tell something are answered by diagnostics only. -/
theorem isPublication_of_handle {m : Message} (h : m.isIdle = false) {r : Reply}
    (hr : r ∈ (s.handle m).2) : r.isPublication = true := by
  cases m with
  | request => cases h
  | response => cases h
  | notification method params => exact s.isPublication_of_notice hr

/-- A message is answered exactly if it is a request. -/
theorem answeredIds_handle (m : Message) :
    (s.handle m).2.filterMap Reply.answeredId? = (m.requestId?.map RequestId.encode).toList := by
  cases m with
  | request id method params =>
      rw [handle, List.filterMap_cons, s.answeredId?_answer id method params]
      rfl
  | response id => rfl
  | notification method params =>
      refine List.filterMap_eq_nil_iff.2 ?_
      intro r hr
      cases r with
      | publish uri version ds => exact Reply.answeredId?_publish uri version ds
      | _ => cases s.isPublication_of_notice hr

/-! ## Runs -/

/-- Messages that tell nothing leave no trace: without them, the run ends in the same state and the
    same diagnostics are published. -/
theorem run_filter_idle (messages : List Message) :
    s.run (messages.filter (!·.isIdle)) =
      ((s.run messages).1, (s.run messages).2.filter Reply.isPublication) := by
  induction messages generalizing s with
  | nil => rfl
  | cons m rest ih =>
      by_cases hm : m.isIdle = true
      · obtain ⟨hstate, hsent⟩ := s.handle_of_idle hm
        have hnone : (s.handle m).2.filter Reply.isPublication = [] := by
          refine List.filter_eq_nil_iff.2 ?_
          intro r hr
          rw [hsent r hr]
          exact Bool.false_ne_true
        rw [List.filter_cons_of_neg (by simp [hm]), ih s]
        simp only [run, hstate, List.filter_append, hnone, List.nil_append]
      · rw [Bool.not_eq_true] at hm
        have hall : (s.handle m).2.filter Reply.isPublication = (s.handle m).2 :=
          List.filter_eq_self.2 fun r hr => s.isPublication_of_handle hm hr
        rw [List.filter_cons_of_pos (by simp [hm])]
        simp only [run, ih, List.filter_append, hall]

/-! ## Sessions -/

theorem exists_of_isShutdown {m : Message} (h : m.isShutdown = true) :
    ∃ id params, m = .request id "shutdown" params := by
  unfold Message.isShutdown at h
  split at h
  · exact ⟨_, _, rfl⟩
  · cases h

theorem session_step_serving {m : Message} (h : m.isShutdown = false) :
    (Session.serving s).step m = (.serving (s.handle m).1, (s.handle m).2) := by
  simp only [Session.step]
  split
  · cases h
  · rfl

/-- A session hands its messages to the server up to a request to shut down. -/
theorem session_run_append {before : List Message} (h : ∀ m ∈ before, m.isShutdown = false)
    (rest : List Message) :
    ((Session.serving s).run (before ++ rest)).2 =
      (s.run before).2 ++ ((Session.serving (s.run before).1).run rest).2 := by
  induction before generalizing s with
  | nil => rfl
  | cons m before ih =>
      rw [List.forall_mem_cons] at h
      simp only [List.cons_append, Session.run, s.session_step_serving h.1, ih _ h.2, Server.run,
        List.append_assoc]

theorem session_run_ended (ending : Ending) (messages : List Message) :
    ((Session.ended ending).run messages).2 = [] := by
  induction messages with
  | nil => rfl
  | cons m rest ih => exact ih

/-- A request to shut down is answered, and what comes behind it is not. -/
theorem session_run_shutdown (id : RequestId) (params : Json) (after : List Message) :
    ((Session.serving s).run (.request id "shutdown" params :: after)).2 = [.shutDown id] := by
  have hsilent : (Session.leaving.run after).2 = [] := by
    cases after with
    | nil => rfl
    | cons m rest =>
        -- the next message ends the session, whatever it is
        have hstep : ∃ ending, Session.leaving.step m = (.ended ending, []) := by
          cases m with
          | request => exact ⟨.protocolError, rfl⟩
          | response => exact ⟨.protocolError, rfl⟩
          | notification method params =>
              by_cases hexit : method = "exit"
              · exact ⟨.ok, by simp [Session.step, hexit]⟩
              · exact ⟨.protocolError, by simp [Session.step, hexit]⟩
        obtain ⟨ending, hstep⟩ := hstep
        simp only [Session.run, hstep, session_run_ended, List.append_nil]
  simp only [Session.run, Session.step, hsilent, List.append_nil]

/-- The names under which a session answers are those of the requests, in their order. -/
theorem answeredIds_session (messages : List Message) :
    ((Session.serving s).run messages).2.filterMap Reply.answeredId? =
      (Message.upToShutdown messages).filterMap fun m => m.requestId?.map RequestId.encode := by
  induction messages generalizing s with
  | nil => rfl
  | cons m rest ih =>
      by_cases hm : m.isShutdown = true
      · obtain ⟨id, params, rfl⟩ := exists_of_isShutdown hm
        rw [session_run_shutdown, Message.upToShutdown, if_pos hm]
        rfl
      · rw [Message.upToShutdown, if_neg hm]
        rw [Bool.not_eq_true] at hm
        simp only [Session.run, s.session_step_serving hm, List.filterMap_append, ih,
          s.answeredIds_handle m]
        cases m <;> rfl

/-- A request that no request to shut down precedes is answered behind all that is sent on the messages
    before it, as the state that they lead to determines. -/
theorem session_answer {before : List Message} (h : ∀ m ∈ before, m.isShutdown = false)
    (id : RequestId) (method : String) (params : Json) (after : List Message) :
    ∃ reply later,
      ((Session.serving s).run (before ++ .request id method params :: after)).2 =
        (s.run before).2 ++ reply :: later ∧
      (s.run before).1.Answer id method params reply.encode ∧ (method = "shutdown" → later = []) := by
  rw [s.session_run_append h]
  by_cases hm : method = "shutdown"
  · subst hm
    exact ⟨.shutDown id, [], by rw [session_run_shutdown], .shutdown, fun _ => rfl⟩
  · have hnot : (Message.request id method params).isShutdown = false := by
      rw [Bool.eq_false_iff]
      intro hshut
      obtain ⟨_, _, heq⟩ := exists_of_isShutdown hshut
      cases heq
      exact hm rfl
    simp only [Session.run, session_step_serving _ hnot]
    exact ⟨_, _, rfl, answer_spec _ id hm params, fun h => absurd h hm⟩

/-- Requests are answered one for one, and they and bad messages leave no trace. The answers that a
    session sends go with the requests up to the first one to shut down, in their order and under their
    names; each is sent behind all that the messages before it cause and says what the state that they
    lead to determines; behind the answer to a request to shut down nothing is sent. A message that
    tells the server nothing leaves it as it was and publishes nothing, in any state; and without all
    such messages a run ends in the same state and publishes the same. -/
theorem requests_answered (messages : List Message) :
    (((Session.serving s).run messages).2.filterMap Reply.answeredId? =
      (Message.upToShutdown messages).filterMap fun m => m.requestId?.map RequestId.encode) ∧
    (∀ before id method params after, messages = before ++ .request id method params :: after →
      (∀ m ∈ before, m.isShutdown = false) →
      ∃ reply later, ((Session.serving s).run messages).2 = (s.run before).2 ++ reply :: later ∧
        (s.run before).1.Answer id method params reply.encode ∧ (method = "shutdown" → later = [])) ∧
    (∀ (t : Server) (m : Message), m.isIdle = true →
      (t.handle m).1 = t ∧ ∀ r ∈ (t.handle m).2, ∀ uri, r.publishes uri = false) ∧
    s.run (messages.filter (!·.isIdle)) =
      ((s.run messages).1, (s.run messages).2.filter Reply.isPublication) := by
  refine ⟨s.answeredIds_session messages, ?_, ?_, s.run_filter_idle messages⟩
  · rintro before id method params after rfl hbefore
    exact s.session_answer hbefore id method params after
  · intro t m hm
    obtain ⟨hstate, hsent⟩ := t.handle_of_idle hm
    exact ⟨hstate, fun r hr uri => Reply.publishes_eq_false (hsent r hr) uri⟩

/-- Two requests are answered, the second of them one to shut down; a third is not. -/
theorem requests_answered_before_shutdown :
    ((Session.serving (start .standard)).run
        [.request (.number 1) "workspace/symbol" .null, .notification "initialized" .null,
         .request (.text "last") "shutdown" .null,
         .request (.number 3) "textDocument/hover" .null]).2.filterMap Reply.answeredId? =
      [.int 1, .str "last"] :=
  (requests_answered (start .standard) _).1

end Server

end FourthGen
