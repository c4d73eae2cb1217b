/-
  Exceptions of the receive path.

  Only parsing is guarded. Every typed access behind it may throw: on the receive thread
  that ends the process, in a waiting call it leaves the call without a result.
  `noEscape_iff`: no exception leaves either along a run exactly when every frame is either
  no document or one whose fields have the types that are read, and so is every reply that
  a call takes. `array_escapes` is a frame with the document `[1]`.
-/
import TruellmEngine.Bridge.IpcClient

namespace TruellmEngine.Bridge

open Lib Json

namespace IpcClient

/-! ## The types that are read -/

/-- The fields of a message that the receive thread reads have their types. -/
structure DocumentReadable (cb : Callbacks) (msg : Json) : Prop where
  type : Field isString msg "type"
  cid : msg.contains "cid" = true → Field isNumber msg "cid"
  correlationId : msg.contains "cid" = false → Field isNumber msg "correlation_id"
  message : valueAt getString msg "type" "" = "status_report" → cb.status = true →
    Field isString msg "message"
  announce : valueAt getString msg "type" "" = "plugin_announce" → cb.announce = true →
    AnnounceReadable msg

/-- The fields of a reply that the call reads have their types. -/
def ReplyReadable (request : IpcRequest) (body : Json) : Prop :=
  match request with
  | .callTool _ =>
    Field isArithmetic body "error" ∧ Field isString body "payload" ∧
      Field isString body "error_msg"
  | .runPreprocessor _ =>
    Field isArithmetic body "decision" ∧ Field isString body "modified_messages_json" ∧
      Field isString body "response_text"

theorem correlationId_isOk (msg : Json) :
    (correlationId msg).isOk = true ↔
      (msg.contains "cid" = true → Field isNumber msg "cid") ∧
        (msg.contains "cid" = false → Field isNumber msg "correlation_id") := by
  unfold correlationId
  cases hcid : msg.contains "cid" with
  | true =>
    rw [if_pos rfl, valueUInt64_isOk]
    exact ⟨fun h => ⟨fun _ => h, fun hno => by cases hno⟩, fun h => h.1 rfl⟩
  | false =>
    rw [if_neg Bool.false_ne_true, valueUInt64_isOk]
    exact ⟨fun h => ⟨fun hno => (by cases hno), fun _ => h⟩, fun h => h.2 rfl⟩

theorem dispatch_isOk (text : JsonText) (cb : Callbacks) (s : IpcClient) (msg : Json)
    (type : String) (cid : UInt64) :
    (s.dispatch text cb msg type cid).isOk = true ↔
      (type = "status_report" → cb.status = true → Field isString msg "message") ∧
        (type = "plugin_announce" → cb.announce = true → AnnounceReadable msg) := by
  unfold dispatch
  split
  · rename_i hstatus
    rw [isOk_value_bind getString_isOk, hstatus.1]
    constructor
    · rintro ⟨h, -⟩
      exact ⟨fun _ _ => h, fun hne => absurd hne (by decide)⟩
    · rintro ⟨h, -⟩
      exact ⟨h rfl hstatus.2, rfl⟩
  rename_i hstatus
  have hmessage : type = "status_report" → cb.status = true → Field isString msg "message" :=
    fun h1 h2 => absurd ⟨h1, h2⟩ hstatus
  rw [and_iff_right hmessage]
  split
  · rename_i htype
    split
    · rename_i hannounce
      rw [isOk_bind, ← onSidecarAnnounce_isOk text, isOk_iff]
      constructor
      · rintro ⟨plugins, h, -⟩ _ _
        exact ⟨plugins, h⟩
      · intro h
        obtain ⟨plugins, hplugins⟩ := h htype hannounce
        exact ⟨plugins, hplugins, rfl⟩
    · rename_i hannounce
      exact iff_of_true rfl fun _ h => absurd h hannounce
  · rename_i htype
    exact iff_of_true rfl fun h => absurd h htype

/-- The receive thread reads a document without an exception exactly when it is readable. -/
theorem onDocument_isOk (text : JsonText) (cb : Callbacks) (s : IpcClient) (msg : Json) :
    (s.onDocument text cb msg).isOk = true ↔ DocumentReadable cb msg := by
  unfold onDocument
  rw [isOk_value_bind getString_isOk, isOk_bind]
  constructor
  · rintro ⟨htype, cid, hcid, h⟩
    obtain ⟨hnew, hold⟩ := (correlationId_isOk msg).mp (isOk_iff.mpr ⟨cid, hcid⟩)
    obtain ⟨hmessage, hannounce⟩ := (dispatch_isOk ..).mp h
    exact ⟨htype, hnew, hold, hmessage, hannounce⟩
  · intro h
    obtain ⟨cid, hcid⟩ := isOk_iff.mp ((correlationId_isOk msg).mpr ⟨h.cid, h.correlationId⟩)
    exact ⟨h.type, cid, hcid, (dispatch_isOk ..).mpr ⟨h.message, h.announce⟩⟩

theorem not_readable_of_error {text : JsonText} {cb : Callbacks} {s : IpcClient} {msg : Json}
    {e : TypeError} (h : s.onDocument text cb msg = .error e) : ¬ DocumentReadable cb msg := by
  intro hread
  have hok := (onDocument_isOk text cb s msg).mpr hread
  rw [h] at hok
  exact absurd hok Bool.false_ne_true

theorem toolReply_isOk (body : Json) :
    (toolReply body).isOk = true ↔ Field isArithmetic body "error" ∧
      Field isString body "payload" ∧ Field isString body "error_msg" := by
  unfold toolReply
  rw [isOk_value_bind getInt_isOk, isOk_value_bind getString_isOk,
    isOk_value_bind getString_isOk]
  exact and_congr_right fun _ => and_congr_right fun _ => and_iff_left rfl

theorem preprocessReply_isOk (body : Json) :
    (preprocessReply body).isOk = true ↔ Field isArithmetic body "decision" ∧
      Field isString body "modified_messages_json" ∧ Field isString body "response_text" := by
  unfold preprocessReply
  rw [isOk_value_bind getInt_isOk, isOk_value_bind getString_isOk,
    isOk_value_bind getString_isOk]
  exact and_congr_right fun _ => and_congr_right fun _ => and_iff_left rfl

/-- A call throws on its reply exactly when the reply is not readable. -/
theorem replied_threw_iff (request : IpcRequest) (body : Json) :
    (∃ e, replied request body = .threw e) ↔ ¬ ReplyReadable request body := by
  cases request with
  | callTool req =>
    unfold replied ReplyReadable
    rw [← toolReply_isOk]
    cases toolReply body with
    | ok r => simp [Except.isOk, Except.toBool]
    | error e => simp [Except.isOk, Except.toBool]
  | runPreprocessor req =>
    unfold replied ReplyReadable
    rw [← preprocessReply_isOk]
    cases preprocessReply body with
    | ok r => simp [Except.isOk, Except.toBool]
    | error e => simp [Except.isOk, Except.toBool]

/-! ## Runs -/

/-- No exception has left the receive thread or a call. -/
structure NoEscape (s : IpcClient) : Prop where
  receiving : s.terminated = false
  calls : ∀ i c e, s.calls i = some c → c.stage ≠ .ended (.threw e)

/-- The move reads only documents with the types it expects: a frame on the receive thread,
    a reply in the call that takes it. (The other conditions are about ids: none is drawn
    again while it is in use, 2^64 calls later.) -/
def ReadsTyped (text : JsonText) (cb : Callbacks) (s : IpcClient) : Move → Prop
  | .frame raw => ∀ msg, text.parse raw = some msg → DocumentReadable cb msg
  | .call i .wake => ∀ c, s.calls i = some c →
      c.future ≠ .broken ∧ ∀ body, c.future = .value body → ReplyReadable c.request body
  | .call i .register => ∀ c, s.calls i = some c → s.pending c.cid = none
  | _ => True

variable {text : JsonText} {cb : Callbacks} {s t : IpcClient}

/-- No new exception: the process lives on, and a call that ended with one had done so
    before. -/
theorem NoEscape.of_calls (h : NoEscape s) (hreceiving : t.terminated = s.terminated)
    (hcalls : ∀ i c, t.calls i = some c → (∃ c₀, s.calls i = some c₀ ∧ c.stage = c₀.stage) ∨
      ∀ e, c.stage ≠ .ended (.threw e)) : NoEscape t := by
  refine ⟨hreceiving.trans h.receiving, ?_⟩
  intro i c e hc
  rcases hcalls i c hc with ⟨c₀, hc₀, hstage⟩ | hnot
  · rw [hstage]
    exact h.calls i c₀ e hc₀
  · exact hnot e

theorem NoEscape.setFuture (h : NoEscape s) (k : Nat) (f : Future)
    (pending : UInt64 → Option Nat) : NoEscape { s.setFuture k f with pending := pending } := by
  refine h.of_calls rfl ?_
  intro i c hc
  obtain ⟨c₀, hc₀, hsame | hset⟩ := calls_setFuture hc
  · exact Or.inl ⟨c₀, hc₀, by rw [hsame.2]⟩
  · exact Or.inl ⟨c₀, hc₀, by rw [hset.2]⟩

theorem NoEscape.resolve (h : NoEscape s) (cid : UInt64) (body : Json) :
    NoEscape (s.resolve cid body) := by
  unfold IpcClient.resolve
  split
  · exact h
  · exact h.setFuture _ _ _

theorem NoEscape.erase (h : NoEscape s) (cid : UInt64) : NoEscape (s.erase cid) := by
  unfold IpcClient.erase
  split
  · exact h
  · exact h.setFuture _ _ _

/-- A call goes to a stage that is no exception. -/
theorem NoEscape.setStage (h : NoEscape s) (i : Nat) {stage : Stage}
    (hstage : ∀ e, stage ≠ .ended (.threw e)) : NoEscape (s.setStage i stage) := by
  refine h.of_calls rfl ?_
  intro k d hd
  obtain ⟨d₀, hd₀, ⟨-, rfl⟩ | ⟨-, rfl⟩⟩ := calls_setStage hd
  · exact Or.inl ⟨d, hd₀, rfl⟩
  · exact Or.inr hstage

/-- A readable message leaves no exception. -/
theorem NoEscape.onMessage (h : NoEscape s) {raw : List UInt8}
    (hread : ∀ msg, text.parse raw = some msg → DocumentReadable cb msg) :
    NoEscape (s.onMessage text cb raw) := by
  have hcases := onMessage_cases text cb s raw
  generalize s.onMessage text cb raw = t at hcases ⊢
  cases hcases with
  | dropped _ => exact h
  | read msg t _ hdoc =>
    have hheard : NoEscape { s with received := s.received ++ [msg] } :=
      h.of_calls rfl fun i c hc => Or.inl ⟨c, hc, rfl⟩
    obtain ⟨cid, -, hsame | rfl⟩ := onDocument_cases hdoc
    · obtain ⟨hcalls, -, -, hterminated⟩ := hsame
      refine hheard.of_calls hterminated ?_
      intro i c hc
      rw [hcalls] at hc
      exact Or.inl ⟨c, hc, rfl⟩
    · exact hheard.resolve cid msg
  | escaped msg e hparse hdoc => exact absurd (hread msg hparse) (not_readable_of_error hdoc)

theorem replied_not_threw {request : IpcRequest} {body : Json}
    (h : ReplyReadable request body) (e : Thrown) :
    Stage.ended (replied request body) ≠ .ended (.threw e) := by
  intro hthrew
  exact (replied_threw_iff request body).mp ⟨e, Stage.ended.inj hthrew⟩ h

theorem failed_not_threw (request : IpcRequest) (errorMsg : String) (e : Thrown) :
    Stage.ended (failed request errorMsg) ≠ .ended (.threw e) := by
  cases request with
  | callTool req => exact fun h => by cases h
  | runPreprocessor req => exact fun h => by cases h

theorem noEscape_step {m : Move} (h : NoEscape s) (hok : ReadsTyped text cb s m)
    (ht : step text cb s m = some t) : NoEscape t := by
  cases m with
  | enter i request =>
    obtain ⟨-, rfl⟩ := step_enter ht
    refine h.of_calls rfl ?_
    intro k d hd
    rcases calls_setCall_cases hd with ⟨-, rfl⟩ | ⟨-, hd⟩
    · exact Or.inr fun e he => by cases he
    · exact Or.inl ⟨d, hd, rfl⟩
  | frame raw =>
    rw [step_frame ht]
    exact h.onMessage hok
  | call i m =>
    obtain ⟨c, hc, hstep⟩ := step_call ht
    cases hstep with
    | collides _ htaken => exact absurd (hok c hc) htaken
    | registers _ _ =>
      have hregistered : NoEscape { s with pending := Function.update s.pending c.cid (some i) } :=
        h.of_calls rfl fun k d hd => Or.inl ⟨d, hd, rfl⟩
      exact hregistered.setStage i fun e he => by cases he
    | sends _ =>
      have hsent : NoEscape { s with sent := s.sent ++ [c.request.message c.cid] } :=
        h.of_calls rfl fun k d hd => Or.inl ⟨d, hd, rfl⟩
      exact hsent.setStage i fun e he => by cases he
    | sendFails _ => exact h.setStage i fun e he => by cases he
    | timeout _ _ => exact h.setStage i fun e he => by cases he
    | givesUp errorMsg _ =>
      exact (h.erase c.cid).setStage i (failed_not_threw c.request errorMsg)
    | wakes body _ hfuture =>
      exact h.setStage i (replied_not_threw ((hok c hc).2 body hfuture))
    | breaks _ hfuture => exact absurd hfuture (hok c hc).1

/-- A call that ends with an exception. -/
theorem not_noEscape_of_threw {i : Nat} {c : IpcCall} (hc : s.calls i = some c) (e : Thrown) :
    ¬ NoEscape (s.setStage i (.ended (.threw e))) := by
  intro h
  exact h.calls i _ e (setStage_self hc) rfl

/-- A frame that is not readable ends the process. -/
theorem terminates_of_unreadable {raw : List UInt8}
    (h : ¬ ∀ msg, text.parse raw = some msg → DocumentReadable cb msg) :
    (s.onMessage text cb raw).terminated = true := by
  have hcases := onMessage_cases text cb s raw
  generalize s.onMessage text cb raw = t at hcases ⊢
  cases hcases with
  | dropped hparse =>
    refine absurd ?_ h
    intro msg hmsg
    rw [hparse] at hmsg
    cases hmsg
  | read msg t hparse hdoc =>
    refine absurd ?_ h
    intro msg' hmsg
    rw [hparse] at hmsg
    cases hmsg
    exact (onDocument_isOk text cb _ msg).mp (isOk_iff.mpr ⟨t, hdoc⟩)
  | escaped msg e _ _ => rfl

theorem not_noEscape_step {m : Move} (hok : ¬ ReadsTyped text cb s m)
    (ht : step text cb s m = some t) : ¬ NoEscape t := by
  cases m with
  | enter i request => exact absurd trivial hok
  | frame raw =>
    rw [step_frame ht]
    intro h
    have halive := h.receiving
    rw [terminates_of_unreadable hok] at halive
    cases halive
  | call i m =>
    obtain ⟨c, hc, hstep⟩ := step_call ht
    cases hstep with
    | collides _ _ => exact not_noEscape_of_threw hc .future
    | registers _ hfree =>
      refine absurd ?_ hok
      intro d hd
      rw [hc] at hd
      cases hd
      exact hfree
    | sends _ => exact absurd trivial hok
    | sendFails _ => exact absurd trivial hok
    | timeout _ _ => exact absurd trivial hok
    | givesUp errorMsg _ => exact absurd trivial hok
    | wakes body _ hfuture =>
      have hbad : ¬ ReplyReadable c.request body := by
        intro hread
        refine hok ?_
        intro d hd
        rw [hc] at hd
        cases hd
        rw [hfuture]
        constructor
        · intro hno
          cases hno
        · intro body' hbody
          cases hbody
          exact hread
      obtain ⟨e, he⟩ := (replied_threw_iff c.request body).mpr hbad
      rw [he]
      exact not_noEscape_of_threw hc e
    | breaks _ _ => exact not_noEscape_of_threw hc .future

/-- No exception leaves the receive thread or a call along a run exactly when each frame and
    each reply is read at the types it has. -/
theorem noEscape_iff (text : JsonText) (cb : Callbacks) (ms : List Move) :
    AllStates (step text cb) NoEscape {} ms ↔ AllSteps (step text cb) (ReadsTyped text cb) {} ms :=
  allStates_iff_allSteps (fun _ h => h) (fun _ _ _ => noEscape_step)
    (fun _ _ _ _ => not_noEscape_step) ⟨rfl, fun _ _ _ hc => by cases hc⟩ ms

/-- One frame with the document `[1]`. -/
theorem array_escapes :
    ¬ AllStates (step { parse := fun _ => some (.array [.unsigned 1]), dump := fun _ => "" } {})
      NoEscape {} [.frame [91, 49, 93]] := by
  intro h
  have hlast := h.last rfl
  cases hlast.receiving

end IpcClient

end TruellmEngine.Bridge
