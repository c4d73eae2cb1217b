/-
  The IPC client: calls register a promise under a correlation id, send their message and
  wait; the receive thread takes the frames of the sidecar one by one and resolves promises.

  A move is one atomic step of a thread: drawing an id, a section under `pending_mu_`, the
  end of a send, of a wait or of a frame. What the sidecar sends, whether a send succeeds and
  when a wait runs out are labels of the moves, so a list of moves is one interleaving.
-/
import TruellmEngine.Bridge.Announce
import TruellmEngine.Lib.Run
import Mathlib.Logic.Function.Basic

namespace TruellmEngine.Bridge

open Lib Json

structure ToolCallRequest where
  qualifiedName : String
  argsJson : String
  requestId : String := ""
  tokenBudget : Int64 := 0
  maxTokens : Int32 := 512
  temperature : Float32 := 0.7
  isHeartbeat : Bool := false

structure PreprocessRequest where
  pluginId : String
  messagesJson : String
  requestId : String := ""
  tokenBudget : Int64 := 0
  maxTokens : Int32 := 512
  temperature : Float32 := 0.7

structure ToolCallResponse where
  ok : Bool := false
  payload : String := ""
  errorMsg : String := ""

structure PreprocessResponse where
  ok : Bool := false
  decision : Int32 := 0
  modifiedMessagesJson : String := ""
  responseText : String := ""

inductive IpcRequest where
  | callTool (req : ToolCallRequest)
  | runPreprocessor (req : PreprocessRequest)

/-- The message of a request, fields in the order of their keys. -/
def IpcRequest.message (cid : UInt64) : IpcRequest → Json
  | .callTool req => .object [
      ("args_json", .string req.argsJson),
      ("cid", .unsigned cid),
      ("max_tokens", .integer req.maxTokens.toInt64),
      ("qualified_name", .string req.qualifiedName),
      ("request_id", .string req.requestId),
      ("temperature", .float req.temperature.toFloat),
      ("token_budget", .integer req.tokenBudget),
      ("type", .string (if req.isHeartbeat then "heartbeat" else "tool_call"))]
  | .runPreprocessor req => .object [
      ("cid", .unsigned cid),
      ("max_tokens", .integer req.maxTokens.toInt64),
      ("messages_json", .string req.messagesJson),
      ("plugin_id", .string req.pluginId),
      ("request_id", .string req.requestId),
      ("temperature", .float req.temperature.toFloat),
      ("token_budget", .integer req.tokenBudget),
      ("type", .string "preprocess_call")]

/-- What leaves a call that does not return. -/
inductive Thrown where
  | type (e : TypeError)
  /-- `future_error`, of a second `get_future` or of a destroyed promise. -/
  | future

inductive Outcome where
  | tool (r : ToolCallResponse)
  | preprocess (r : PreprocessResponse)
  | threw (e : Thrown)

inductive Stage where
  /-- Has its id. -/
  | drawn
  /-- Is registered. -/
  | sending
  | waiting
  /-- Has failed to send or run out of time, and is about to erase its entry. -/
  | givingUp (errorMsg : String)
  | ended (o : Outcome)

inductive Future where
  | unset
  | value (body : Json)
  /-- The promise was destroyed. -/
  | broken

structure IpcCall where
  request : IpcRequest
  cid : UInt64
  stage : Stage := .drawn
  future : Future := .unset

/-- Which callbacks are set; the status callback is not, and the announce callback goes to
    `on_sidecar_announce`. -/
structure Callbacks where
  status : Bool := false
  announce : Bool := true

structure IpcClient where
  nextCorrelationId : UInt64 := 1
  pending : UInt64 → Option Nat := fun _ => none
  calls : Nat → Option IpcCall := fun _ => none
  sent : List Json := []
  statuses : List (UInt64 × String) := []
  loadedPlugins : List LoadedPlugin := []
  /-- The documents received so far. -/
  received : List Json := []
  /-- An exception has left the receive thread. -/
  terminated : Bool := false

namespace IpcClient

variable (text : JsonText) (cb : Callbacks)

def setCall (s : IpcClient) (i : Nat) (c : IpcCall) : IpcClient :=
  { s with calls := Function.update s.calls i (some c) }

/-- Call `i` goes to another stage. -/
def setStage (s : IpcClient) (i : Nat) (stage : Stage) : IpcClient :=
  { s with
    calls := Function.update s.calls i ((s.calls i).map fun c => { c with stage := stage }) }

/-- The future of call `i` becomes `f`. -/
def setFuture (s : IpcClient) (i : Nat) (f : Future) : IpcClient :=
  { s with
    calls := Function.update s.calls i ((s.calls i).map fun c => { c with future := f }) }

/-- `pending_.erase`, which destroys the promise. -/
def erase (s : IpcClient) (cid : UInt64) : IpcClient :=
  match s.pending cid with
  | none => s
  | some k => { s.setFuture k .broken with pending := Function.update s.pending cid none }

/-! ## The receive thread -/

/-- The correlation id of a message, with its old name as fallback. -/
def correlationId (msg : Json) : Except TypeError UInt64 :=
  if msg.contains "cid" then value getUInt64 msg "cid" 0
  else value getUInt64 msg "correlation_id" 0

def resolve (s : IpcClient) (cid : UInt64) (body : Json) : IpcClient :=
  match s.pending cid with
  | none => s
  | some i => { s.setFuture i (.value body) with pending := Function.update s.pending cid none }

/-- What `on_message` does with a document of this type and id. -/
def dispatch (s : IpcClient) (msg : Json) (type : String) (cid : UInt64) :
    Except TypeError IpcClient :=
  if type = "status_report" ∧ cb.status = true then do
    let message ← value getString msg "message" ""
    return { s with statuses := s.statuses ++ [(cid, message)] }
  else if type = "plugin_announce" then
    if cb.announce = true then do
      let plugins ← onSidecarAnnounce text msg
      return { s with loadedPlugins := s.loadedPlugins ++ plugins }
    else
      .ok s
  else
    .ok (s.resolve cid msg)

/-- `on_message` of a document. -/
def onDocument (s : IpcClient) (msg : Json) : Except TypeError IpcClient := do
  let type ← value getString msg "type" ""
  let cid ← correlationId msg
  s.dispatch text cb msg type cid

/-- A frame that does not parse is dropped; any other exception ends the process. -/
def onMessage (s : IpcClient) (raw : List UInt8) : IpcClient :=
  match text.parse raw with
  | none => s
  | some msg =>
    let heard := { s with received := s.received ++ [msg] }
    match heard.onDocument text cb msg with
    | .ok t => t
    | .error _ => { heard with terminated := true }

/-! ## The calls -/

def toolReply (body : Json) : Except TypeError ToolCallResponse := do
  let error ← value getInt body "error" 0
  let payload ← value getString body "payload" ""
  let errorMsg ← value getString body "error_msg" ""
  return { ok := error == 0, payload := payload, errorMsg := errorMsg }

def preprocessReply (body : Json) : Except TypeError PreprocessResponse := do
  let decision ← value getInt body "decision" 0
  let modifiedMessagesJson ← value getString body "modified_messages_json" ""
  let responseText ← value getString body "response_text" ""
  return {
    ok := true
    decision := decision
    modifiedMessagesJson := modifiedMessagesJson
    responseText := responseText }

/-- The end of a call with the reply `body`. -/
def replied (request : IpcRequest) (body : Json) : Outcome :=
  match request with
  | .callTool _ =>
    match toolReply body with
    | .ok r => .tool r
    | .error e => .threw (.type e)
  | .runPreprocessor _ =>
    match preprocessReply body with
    | .ok r => .preprocess r
    | .error e => .threw (.type e)

/-- The end of a call without a reply. -/
def failed (request : IpcRequest) (errorMsg : String) : Outcome :=
  match request with
  | .callTool _ => .tool { ok := false, payload := "", errorMsg := errorMsg }
  | .runPreprocessor _ => .preprocess { ok := false }

/-- The steps of a call that has its id. -/
inductive CallMove where
  | register
  | send (ok : Bool)
  | timeout
  | giveUp
  | wake

inductive Move where
  /-- A thread enters a call and draws its id. -/
  | enter (i : Nat) (request : IpcRequest)
  | call (i : Nat) (m : CallMove)
  | frame (raw : List UInt8)

/-- A step of call `i`. -/
def callStep (s : IpcClient) (i : Nat) (c : IpcCall) : CallMove → Option IpcClient
  | .register =>
    match c.stage with
    | .drawn =>
      -- `emplace` keeps an entry that is there, and its future has been taken
      if (s.pending c.cid).isSome then
        some (s.setStage i (.ended (.threw .future)))
      else
        some ({ s with pending := Function.update s.pending c.cid (some i) }.setStage i .sending)
    | _ => none
  | .send ok =>
    match c.stage with
    | .sending =>
      if ok then
        some ({ s with sent := s.sent ++ [c.request.message c.cid] }.setStage i .waiting)
      else
        some (s.setStage i (.givingUp "send failed"))
    | _ => none
  | .timeout =>
    match c.stage, c.future with
    | .waiting, .unset => some (s.setStage i (.givingUp "timeout"))
    | _, _ => none
  | .giveUp =>
    match c.stage with
    | .givingUp errorMsg =>
      some ((s.erase c.cid).setStage i (.ended (failed c.request errorMsg)))
    | _ => none
  | .wake =>
    match c.stage, c.future with
    | .waiting, .value body =>
      some (s.setStage i (.ended (replied c.request body)))
    | .waiting, .broken => some (s.setStage i (.ended (.threw .future)))
    | _, _ => none

def step (s : IpcClient) (m : Move) : Option IpcClient :=
  if s.terminated then none
  else
    match m with
    | .enter i request =>
      match s.calls i with
      | some _ => none
      | none => some ({ s with nextCorrelationId := s.nextCorrelationId + 1 }.setCall i
          { request := request, cid := s.nextCorrelationId })
    | .call i m => (s.calls i).bind fun c => s.callStep i c m
    | .frame raw => some (s.onMessage text cb raw)

/-! ## What the moves do -/

section

variable {text : JsonText} {cb : Callbacks} {s t : IpcClient} {i : Nat} {c : IpcCall}

theorem calls_setCall : (s.setCall i c).calls = Function.update s.calls i (some c) := rfl

/-- The steps of a call, with what each needs. -/
inductive CallStep (s : IpcClient) (i : Nat) (c : IpcCall) : CallMove → IpcClient → Prop where
  | collides : c.stage = .drawn → s.pending c.cid ≠ none →
      CallStep s i c .register (s.setStage i (.ended (.threw .future)))
  | registers : c.stage = .drawn → s.pending c.cid = none →
      CallStep s i c .register
        ({ s with pending := Function.update s.pending c.cid (some i) }.setStage i .sending)
  | sends : c.stage = .sending →
      CallStep s i c (.send true)
        ({ s with sent := s.sent ++ [c.request.message c.cid] }.setStage i .waiting)
  | sendFails : c.stage = .sending →
      CallStep s i c (.send false) (s.setStage i (.givingUp "send failed"))
  | timeout : c.stage = .waiting → c.future = .unset →
      CallStep s i c .timeout (s.setStage i (.givingUp "timeout"))
  | givesUp (errorMsg : String) : c.stage = .givingUp errorMsg →
      CallStep s i c .giveUp
        ((s.erase c.cid).setStage i (.ended (failed c.request errorMsg)))
  | wakes (body : Json) : c.stage = .waiting → c.future = .value body →
      CallStep s i c .wake (s.setStage i (.ended (replied c.request body)))
  | breaks : c.stage = .waiting → c.future = .broken →
      CallStep s i c .wake (s.setStage i (.ended (.threw .future)))

theorem callStep_cases {m : CallMove} (h : s.callStep i c m = some t) : CallStep s i c m t := by
  cases m with
  | register =>
    dsimp only [callStep] at h
    split at h
    · rename_i hstage
      split at h
      · rename_i hsome
        cases h
        exact .collides hstage (Option.isSome_iff_ne_none.mp hsome)
      · rename_i hnone
        cases h
        exact .registers hstage (by simpa using hnone)
    · cases h
  | send ok =>
    dsimp only [callStep] at h
    split at h
    · rename_i hstage
      cases ok with
      | true =>
        cases h
        exact .sends hstage
      | false =>
        cases h
        exact .sendFails hstage
    · cases h
  | timeout =>
    dsimp only [callStep] at h
    split at h
    · rename_i hstage hfuture
      cases h
      exact .timeout hstage hfuture
    · cases h
  | giveUp =>
    dsimp only [callStep] at h
    split at h
    · rename_i errorMsg hstage
      cases h
      exact .givesUp errorMsg hstage
    · cases h
  | wake =>
    dsimp only [callStep] at h
    split at h
    · rename_i body hstage hfuture
      cases h
      exact .wakes body hstage hfuture
    · rename_i hstage hfuture
      cases h
      exact .breaks hstage hfuture
    · cases h

theorem step_enter {request : IpcRequest} (h : step text cb s (.enter i request) = some t) :
    s.calls i = none ∧
      t = { s with nextCorrelationId := s.nextCorrelationId + 1 }.setCall i
        { request := request, cid := s.nextCorrelationId } := by
  unfold step at h
  split at h
  · cases h
  dsimp only at h
  split at h
  · cases h
  · rename_i hnone
    cases h
    exact ⟨hnone, rfl⟩

theorem step_call {m : CallMove} (h : step text cb s (.call i m) = some t) :
    ∃ c, s.calls i = some c ∧ CallStep s i c m t := by
  unfold step at h
  split at h
  · cases h
  obtain ⟨c, hc, hstep⟩ := Option.bind_eq_some_iff.mp h
  exact ⟨c, hc, callStep_cases hstep⟩

theorem step_frame {raw : List UInt8} (h : step text cb s (.frame raw) = some t) :
    t = s.onMessage text cb raw := by
  unfold step at h
  split at h
  · cases h
  · cases h
    rfl

theorem calls_setCall_cases {k : Nat} {d : IpcCall} (h : (s.setCall i c).calls k = some d) :
    (k = i ∧ d = c) ∨ (k ≠ i ∧ s.calls k = some d) := by
  rw [calls_setCall] at h
  by_cases hk : k = i
  · subst hk
    rw [Function.update_self] at h
    exact Or.inl ⟨rfl, (Option.some.inj h).symm⟩
  · rw [Function.update_of_ne hk] at h
    exact Or.inr ⟨hk, h⟩

/-- A change of call `i`'s stage and of nothing else. -/
theorem calls_setStage {stage : Stage} {k : Nat} {d : IpcCall}
    (h : (s.setStage i stage).calls k = some d) :
    ∃ d₀, s.calls k = some d₀ ∧
      ((k ≠ i ∧ d = d₀) ∨ (k = i ∧ d = { d₀ with stage := stage })) := by
  change Function.update s.calls i _ k = some d at h
  by_cases hk : k = i
  · subst hk
    rw [Function.update_self, Option.map_eq_some_iff] at h
    obtain ⟨d₀, hd₀, rfl⟩ := h
    exact ⟨d₀, hd₀, Or.inr ⟨rfl, rfl⟩⟩
  · rw [Function.update_of_ne hk] at h
    exact ⟨d, h, Or.inl ⟨hk, rfl⟩⟩

theorem setStage_self {stage : Stage} (hc : s.calls i = some c) :
    (s.setStage i stage).calls i = some { c with stage := stage } := by
  show Function.update s.calls i _ i = _
  rw [Function.update_self, hc]
  rfl

theorem setStage_of_ne {stage : Stage} {k : Nat} (hk : k ≠ i) :
    (s.setStage i stage).calls k = s.calls k :=
  Function.update_of_ne hk _ _

/-- A change of call `k`'s future and of nothing else. -/
theorem calls_setFuture {k : Nat} {f : Future} (h : (s.setFuture k f).calls i = some c) :
    ∃ c₀, s.calls i = some c₀ ∧ ((i ≠ k ∧ c = c₀) ∨ (i = k ∧ c = { c₀ with future := f })) := by
  change Function.update s.calls k _ i = some c at h
  by_cases hi : i = k
  · subst hi
    rw [Function.update_self, Option.map_eq_some_iff] at h
    obtain ⟨c₀, hc₀, rfl⟩ := h
    exact ⟨c₀, hc₀, Or.inr ⟨rfl, rfl⟩⟩
  · rw [Function.update_of_ne hi] at h
    exact ⟨c, h, Or.inl ⟨hi, rfl⟩⟩

/-- A document of a call's reply changes its future, any other document no call. -/
theorem dispatch_cases {msg : Json} {type : String} {cid : UInt64}
    (h : s.dispatch text cb msg type cid = .ok t) :
    (t.calls = s.calls ∧ t.pending = s.pending ∧ t.received = s.received ∧
      t.terminated = s.terminated) ∨ t = s.resolve cid msg := by
  unfold dispatch at h
  split at h
  · cases hmessage : value getString msg "message" "" with
    | error e =>
      rw [hmessage] at h
      cases h
    | ok message =>
      rw [hmessage] at h
      cases h
      exact Or.inl ⟨rfl, rfl, rfl, rfl⟩
  split at h
  · split at h
    · cases hannounce : onSidecarAnnounce text msg with
      | error e =>
        rw [hannounce] at h
        cases h
      | ok plugins =>
        rw [hannounce] at h
        cases h
        exact Or.inl ⟨rfl, rfl, rfl, rfl⟩
    · cases h
      exact Or.inl ⟨rfl, rfl, rfl, rfl⟩
  · cases h
    exact Or.inr rfl

/-- A message is dropped, or read, or ends the process. -/
inductive Received (text : JsonText) (cb : Callbacks) (s : IpcClient) (raw : List UInt8) :
    IpcClient → Prop where
  | dropped : text.parse raw = none → Received text cb s raw s
  | read (msg : Json) (t : IpcClient) : text.parse raw = some msg →
      { s with received := s.received ++ [msg] }.onDocument text cb msg = .ok t →
      Received text cb s raw t
  | escaped (msg : Json) (e : TypeError) : text.parse raw = some msg →
      { s with received := s.received ++ [msg] }.onDocument text cb msg = .error e →
      Received text cb s raw { s with received := s.received ++ [msg], terminated := true }

theorem onMessage_cases (text : JsonText) (cb : Callbacks) (s : IpcClient)
    (raw : List UInt8) : Received text cb s raw (s.onMessage text cb raw) := by
  unfold onMessage
  cases hparse : text.parse raw with
  | none => exact .dropped hparse
  | some msg =>
    dsimp only
    cases hdoc : { s with received := s.received ++ [msg] }.onDocument text cb msg with
    | ok t => exact .read msg t hparse hdoc
    | error e => exact .escaped msg e hparse hdoc

/-- A document that is read changes nothing but the future and the entry of its own id. -/
theorem onDocument_cases {msg : Json} (h : s.onDocument text cb msg = .ok t) :
    ∃ cid, correlationId msg = .ok cid ∧
      ((t.calls = s.calls ∧ t.pending = s.pending ∧ t.received = s.received ∧
        t.terminated = s.terminated) ∨ t = s.resolve cid msg) := by
  unfold onDocument at h
  cases htype : value getString msg "type" "" with
  | error e =>
    rw [htype] at h
    cases h
  | ok type =>
    cases hcid : correlationId msg with
    | error e =>
      rw [htype, hcid] at h
      cases h
    | ok cid =>
      rw [htype, hcid] at h
      exact ⟨cid, rfl, dispatch_cases h⟩

end

end IpcClient

end TruellmEngine.Bridge
