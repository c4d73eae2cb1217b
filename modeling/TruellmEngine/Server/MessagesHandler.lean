/-
  `/v1/messages` from the body to the reply (`AnthropicRouter::handle_messages`): the request is
  translated, the handler of chat completions runs on it, and its response is translated back,
  as one document or as the events of a stream.

  `handleDelegated` is that handler for a request that leaves its tools to the client and does
  not stream, with all that its response is made of; `handleChatCompletions_delegates` connects
  it with the handler's model. The engine and its model are there, and the text of a body reads
  back as it was written.

  * `tools_untouched`: no tool of a plugin is ever run for `/v1/messages`, and the engine
    generates at most once.
  * `messages_end_to_end`: from what the engine generated to what either client reads: the
    reasoning, the text and every call, in order.
-/
import TruellmEngine.Server.ChatStream
import TruellmEngine.Server.GuardedGeneration
import TruellmEngine.Server.SkillGating
import TruellmEngine.Server.ToolCallTotality
import TruellmEngine.Server.ToolRoundTrip
import TruellmEngine.Server.ToolRounds

namespace TruellmEngine.Server

open Lib Bridge
open Lib.Json (value getString getBoolean)

/-! ## The handler of chat completions, with what it answers -/

inductive Delivered where
  /-- A preprocessor has answered. -/
  | responded (responseText : String)
  /-- A generator has. -/
  | generated (outcome : String) (promptTokens completionTokens : Nat)
  /-- The tool loop has ended with a result, and calls for the client. -/
  | looped (result : GenerateResult) (toolCalls : List Json)
  | failed (status : Nat) (message : String)

/-- The answer of the handler's model. -/
def Delivered.reply (text : JsonText) : Delivered → Except TypeError ChatReply
  | .responded responseText => .ok (.answer responseText [])
  | .generated outcome _ _ => .ok (.answer outcome [])
  | .looped result toolCalls => do
    return .answer (ofBytes result.text) (← canonicalToolCalls text toolCalls)
  | .failed status message => .ok (.failed status message)

section

variable (text : JsonText) (env : ChatEnv) (bridge : Option PluginBridge) (req : ChatRequest)

/-- The tool loop: it ends in its first round. -/
def onePass (greq : GenerateRequest) : ChatM Delivered := do
  if env.toolMaxRounds.toInt < 0 then return .looped {} []
  let result ← generate env greq
  if result.error ≠ .ok then
    return .failed 503 ("Inference engine error: " ++ result.errorMessage)
  return .looped result (← typed (parseToolCalls text result.text))

/-- The answer of a generator, if one claims the request. -/
def claimedBy (messages : Json) (greq : GenerateRequest) : ChatM (Option Delivered) := do
  match bridge with
  | none => return none
  | some b =>
    if clientRequestedTools req || !b.generators.hasGenerators then return none
    let messagesJson ← typed (text.dumps messages)
    let outcome ← dispatchGenerator b.generators messagesJson
    if !outcome.claimed then return none
    if !outcome.ok then
      return some (.failed 503
        ("Generator '" ++ outcome.pluginId ++ "' error: " ++ outcome.errorMessage))
    if outcome.text ≠ "" then
      let completion ← tokenize env outcome.text
      return some (.generated outcome.text greq.tokens.length completion.length)
    return some (.generated outcome.text greq.tokens.length 0)

def handleDelegated : ChatM Delivered := do
  let greq ← firstRequest text env req req.messages
  let pr ← runPreprocessors text bridge req
  match pr.decision with
  | .respond => return .responded pr.responseText
  | .abort => return .failed 400 "Request blocked by preprocessor"
  | .pass =>
    let injected ← injectSchemas text env bridge req req.messages greq
    let (messages, greq) ← revertOverflow text env bridge req req.messages injected greq
    match ← claimedBy text env bridge req messages greq with
    | some d => return d
    | none => onePass text env greq

end

/-! ## The response -/

/-- What is written beside the answer. `what` is the text of an exception, `unreadable` that of
    a body that is no document, and `unset` is read from a count that nothing was stored to. -/
structure Writing where
  reqId : String
  modelId : String
  created : Int64
  parser : Option (List UInt8 → ChatParsedMessage) := none
  what : Thrown → String
  unreadable : String
  unset : Nat
  /-- The id of the message for the client. -/
  newId : String

def errorResponse (message : String) : Json :=
  .object [("error", .object [("message", .string message), ("type", .string "server_error")])]

/-- The result with its calls taken out, if there are any. -/
def handOver (text : JsonText) (result : GenerateResult) (toolCalls : List Json) :
    Except TypeError GenerateResult := do
  if toolCalls.isEmpty then return result
  let pure ← textIsPureToolCall text result.text
  return { result with
    finishReason := "tool_calls"
    text := if pure then [] else result.text }

section

variable (text : JsonText) (w : Writing)

/-- The document behind a preprocessor. -/
def respondedDocument (responseText : String) : Json :=
  .object [("choices", .array [.object [("finish_reason", .string "stop"), ("index", .integer 0),
      ("message", .object [("content", .string responseText), ("role", .string "assistant")])]]),
    ("created", .integer w.created), ("id", .string w.reqId), ("model", .string w.modelId),
    ("object", .string "chat.completion")]

/-- The document behind a generator: a capped text is told by its length. -/
def generatedDocument (maxTokens : Int32) (ctx : Option Context) (outcome : String)
    (promptTokens completionTokens : Nat) : Json :=
  completionDocument w.reqId w.modelId w.created
    (usageJson promptTokens completionTokens (ctx.bind mergeSubcallUsage))
    (.object [("content", .string (ofBytes (sanitizeUtf8 (bytes outcome)))),
      ("role", .string "assistant")])
    (if 0 < maxTokens.toInt ∧ maxTokens.toInt ≤ completionTokens then "length" else "stop")

/-- The response to a request, with its status. -/
def Delivered.respond (maxTokens : Int32) (ctx : Option Context) :
    Delivered → Except TypeError (Nat × String)
  | .responded responseText => do
    return (200, ← text.dumps (respondedDocument w responseText))
  | .generated outcome promptTokens completionTokens => do
    return (200, ← text.dumps
      (generatedDocument w maxTokens ctx outcome promptTokens completionTokens))
  | .looped result toolCalls => do
    let result ← handOver text result toolCalls
    return (200, ← plainReply text w.reqId w.modelId w.parser [] result toolCalls w.created
      w.unset ctx)
  | .failed status message => do
    return (status, ← text.dumps (errorResponse message))

/-- The response behind the last `catch`. -/
def chatResponse (maxTokens : Int32) (ctx : Option Context) : Except Thrown Delivered →
    Nat × String
  | .ok d =>
    match d.respond text w maxTokens ctx with
    | .ok response => response
    | .error e =>
      (500, text.dump (errorResponse ("Internal server error: " ++ w.what (.json e))))
  | .error e => (500, text.dump (errorResponse ("Internal server error: " ++ w.what e)))

/-! ## The reply -/

inductive MessagesReply where
  | message (body : String)
  | stream (events : String)
  /-- An error envelope. -/
  | failed (status : Nat) (type message : String)
  /-- An exception leaves the handler. -/
  | thrown

/-- The message of an upstream error. -/
def upstreamMessage (body : String) : String :=
  match (text.parse (bytes body)).bind (Json.field? "error") with
  | some (.object fields) =>
    match value getString (.object fields) "message" "upstream error" with
    | .ok message => message
    | .error _ => "upstream error"
  | some (.string message) => message
  | _ => "upstream error"

/-- The model that the client asked for. -/
def echoModel (areq amsg : Json) : Json :=
  match areq.field? "model" with
  | some (.string model) => amsg.setField "model" (.string model)
  | _ => amsg

def internalError (e : TypeError) : MessagesReply :=
  .failed 500 "api_error" ("Internal error: " ++ w.what (.json e))

/-- The response translated back. -/
def deliver (areq : Json) (wantStream : Bool) (response : Nat × String) : MessagesReply :=
  if 400 ≤ response.1 then .failed response.1 "api_error" (upstreamMessage text response.2)
  else
    match text.parse (bytes response.2) with
    | none => .failed 500 "api_error" ("Internal error: " ++ w.unreadable)
    | some oresp =>
      let written : Except TypeError MessagesReply := do
        let amsg := echoModel areq (← translateResponse text w.newId oresp)
        if wantStream then return .stream (← renderSseStream text amsg)
        else return .message (← text.dumps amsg)
      match written with
      | .ok reply => reply
      | .error e => internalError w e

end

/-- The handler of `/v1/messages`; `dflt` has what comes from elsewhere, such as the headers. -/
def handleMessages (text : JsonText) (env : ChatEnv) (bridge : Option PluginBridge)
    (dflt : ChatRequest) (w : Writing) (raw : List UInt8) (p : Progress) :
    MessagesReply × Progress :=
  match text.parse raw with
  | none => (.failed 400 "invalid_request_error" "Invalid JSON body", p)
  | some areq =>
    match value getBoolean areq "stream" false with
    | .error _ => (.thrown, p)
    | .ok wantStream =>
      match translateRequest text areq with
      | .error e => (internalError w e, p)
      | .ok obody =>
        match readRequest text dflt obody with
        | .error e =>
          (deliver text w areq wantStream (500, text.dump (errorResponse
            ("Internal server error: " ++ w.what (.json e)))), p)
        | .ok req =>
          let run := handleDelegated text env bridge req p
          (deliver text w areq wantStream (chatResponse text w req.maxTokens run.2.ctx run.1),
            run.2)

/-! ## The handler's model -/

section

variable {text : JsonText} {env : ChatEnv} {bridge : Option PluginBridge} {req : ChatRequest}

theorem reply_looped (result : GenerateResult) (toolCalls : List Json) :
    (Delivered.looped result toolCalls).reply text = (do
      return .answer (ofBytes result.text) (← canonicalToolCalls text toolCalls)) := rfl

/-- A round that leaves its calls to the client. -/
theorem decideRound_delegates (h : clientTools req = true) (result : GenerateResult) :
    decideRound text bridge req result =
      if result.error ≠ .ok then
        .ok (.inl (.failed 503 ("Inference engine error: " ++ result.errorMessage)))
      else (do
        let toolCalls ← parseToolCalls text result.text
        return .inl (← (Delivered.looped result toolCalls).reply text)) := by
  unfold decideRound
  rw [h]
  by_cases herror : result.error ≠ .ok
  · rw [if_pos herror, if_pos herror]
    rfl
  · rw [if_neg herror, if_neg herror]
    refine bind_congr fun toolCalls => ?_
    rw [reply_looped]
    cases toolCalls with
    | nil => rfl
    | cons c cs =>
      show (canonicalToolCalls text (c :: cs) >>= _) = _
      cases canonicalToolCalls text (c :: cs) <;> rfl

theorem toolLoop_delegates (h : clientTools req = true) (messages : Json)
    (greq : GenerateRequest) :
    toolLoop text env bridge req (env.toolMaxRounds.toInt + 1).toNat 0 {} messages greq =
      onePass text env greq >>= fun d => typed (d.reply text) := by
  unfold onePass
  by_cases hrounds : env.toolMaxRounds.toInt < 0
  · have hzero : (env.toolMaxRounds.toInt + 1).toNat = 0 := by omega
    rw [hzero, if_pos hrounds]
    rfl
  · obtain ⟨n, hn⟩ : ∃ n, (env.toolMaxRounds.toInt + 1).toNat = n + 1 :=
      ⟨env.toolMaxRounds.toInt.toNat, by omega⟩
    rw [hn, toolLoop_succ, if_neg hrounds]
    rw [bind_assoc]
    refine bind_congr fun result => ?_
    rw [decideRound_delegates h]
    by_cases herror : result.error ≠ .ok
    · rw [if_pos herror, if_pos herror]
      rfl
    · rw [if_neg herror, if_neg herror]
      cases parseToolCalls text result.text with
      | error e => rfl
      | ok toolCalls =>
        show _ = typed ((Delivered.looped result toolCalls).reply text)
        cases hreply : (Delivered.looped result toolCalls).reply text with
        | error e =>
          show typed (((Delivered.looped result toolCalls).reply text) >>= _) >>= _ = _
          rw [hreply]
          rfl
        | ok reply =>
          show typed (((Delivered.looped result toolCalls).reply text) >>= _) >>= _ = _
          rw [hreply]
          rfl

theorem tryGenerators_delegates (h : req.stream = false) (messages : Json)
    (greq : GenerateRequest) :
    tryGenerators text env bridge req messages =
      claimedBy text env bridge req messages greq >>= fun d? =>
        typed (d?.mapM (Delivered.reply text)) := by
  unfold tryGenerators claimedBy
  cases bridge with
  | none => rfl
  | some b =>
    dsimp only
    split
    · rfl
    · rw [bind_assoc]
      refine bind_congr fun messagesJson => ?_
      rw [h, if_neg Bool.false_ne_true, bind_assoc]
      refine bind_congr fun outcome => ?_
      split
      · rfl
      · split
        · rfl
        · split
          · rw [bind_assoc]
            rfl
          · rfl

/-- The handler's model for a request that leaves its tools to the client. -/
theorem handleChatCompletions_delegates (htools : clientTools req = true)
    (hstream : req.stream = false) :
    handleChatCompletions text env bridge req =
      handleDelegated text env bridge req >>= fun d => typed (d.reply text) := by
  unfold handleChatCompletions handleDelegated goOn
  rw [bind_assoc]
  refine bind_congr fun greq => ?_
  rw [bind_assoc]
  refine bind_congr fun pr => ?_
  cases pr.decision with
  | respond => rfl
  | abort => rfl
  | pass =>
    dsimp only
    rw [bind_assoc]
    refine bind_congr fun injected => ?_
    rw [bind_assoc]
    refine bind_congr fun current => ?_
    obtain ⟨messages, greq⟩ := current
    dsimp only
    rw [tryGenerators_delegates hstream messages greq, bind_assoc, bind_assoc]
    refine bind_congr fun d? => ?_
    cases d? with
    | none =>
      show (if (req.stream && _) = true then _ else _) = onePass text env greq >>= _
      rw [hstream, Bool.false_and, if_neg Bool.false_ne_true]
      exact toolLoop_delegates htools messages greq
    | some d =>
      show typed (Option.mapM (Delivered.reply text) (some d)) >>= _ = typed (d.reply text)
      rw [Option.mapM_some]
      cases d.reply text <;> rfl

/-! ## The tools of the plugins -/

/-- Two bridges that differ in the code of their tools at most: the same preprocessors and
    generators, and the same schemas. -/
structure SameSchemas (b b' : PluginBridge) : Prop where
  preprocessors : b.preprocessors = b'.preprocessors
  generators : b.generators = b'.generators
  hasTools : b.tools.hasTools = b'.tools.hasTools
  schemas : b.tools.schemasJson = b'.tools.schemasJson

variable {b b' : PluginBridge}

theorem allSchemas_same (h : SameSchemas b b') :
    allSchemas text (some b) req = allSchemas text (some b') req := by
  unfold allSchemas
  dsimp only
  rw [h.hasTools, h.schemas]

/-- The handler runs the same with other code behind the tools. -/
theorem handleDelegated_same (h : SameSchemas b b') :
    handleDelegated text env (some b) req = handleDelegated text env (some b') req := by
  have hpre : runPreprocessors text (some b) req = runPreprocessors text (some b') req := by
    unfold runPreprocessors
    dsimp only
    rw [h.preprocessors]
  have hinject : ∀ messages greq, injectSchemas text env (some b) req messages greq =
      injectSchemas text env (some b') req messages greq := by
    intro messages greq
    unfold injectSchemas
    rw [allSchemas_same h]
  have hgenerators : hasGenerators (some b) = hasGenerators (some b') := by
    unfold hasGenerators
    rw [Option.any_some, Option.any_some, h.generators]
  have hrevert : ∀ messages injected greq,
      revertOverflow text env (some b) req messages injected greq =
        revertOverflow text env (some b') req messages injected greq := by
    intro messages injected greq
    unfold revertOverflow
    rw [hgenerators]
  have hclaimed : ∀ messages greq, claimedBy text env (some b) req messages greq =
      claimedBy text env (some b') req messages greq := by
    intro messages greq
    unfold claimedBy
    dsimp only
    rw [h.generators]
  unfold handleDelegated
  rw [hpre]
  simp only [hinject, hrevert, hclaimed]

/-! ## The generations -/

def Use.isGeneration : Use → Bool
  | .generates _ => true
  | _ => false

/-- How often the engine has generated. -/
def Progress.generations (p : Progress) : Nat := p.uses.countP Use.isGeneration

/-- The engine generates at most `n` times. -/
def Generates (n : Nat) {α : Type} (x : ChatM α) : Prop :=
  ∀ p, (x p).2.generations ≤ p.generations + n

section Rules

variable {α β : Type} {m n : Nat}

theorem generates_pure (a : α) : Generates 0 (pure a : ChatM α) := fun _ => le_rfl

theorem generates_typed (x : Except TypeError α) : Generates 0 (typed x) := by
  cases x with
  | ok a => exact fun _ => le_rfl
  | error e => exact fun _ => le_rfl

theorem generates_get : Generates 0 (get : ChatM Progress) := fun _ => le_rfl

theorem generates_modify {f : Progress → Progress} (h : ∀ p, (f p).uses = p.uses) :
    Generates 0 (modify f : ChatM Unit) := by
  intro p
  show (f p).generations ≤ _
  unfold Progress.generations
  rw [h p]
  exact le_rfl

theorem generates_note (u : Use) : Generates (if u.isGeneration then 1 else 0) (note u) := by
  intro p
  show (p.uses ++ [u]).countP Use.isGeneration ≤ p.uses.countP Use.isGeneration + _
  rw [List.countP_append, List.countP_singleton]

theorem generates_mono {x : ChatM α} (h : Generates m x) (hle : m ≤ n) : Generates n x :=
  fun p => (h p).trans (Nat.add_le_add_left hle _)

theorem generates_bind {x : ChatM α} {f : α → ChatM β} (hx : Generates m x)
    (hf : ∀ a, Generates n (f a)) : Generates (m + n) (x >>= f) := by
  intro p
  have hfirst := hx p
  rw [bind_run]
  generalize x p = y at hfirst
  obtain ⟨r, q⟩ := y
  dsimp only at hfirst
  cases r with
  | ok a =>
    have hrest := hf a q
    dsimp only
    omega
  | error e =>
    dsimp only
    omega

/-- What generates nothing in front. -/
theorem generates_bind_zero {x : ChatM α} {f : α → ChatM β} (hx : Generates 0 x)
    (hf : ∀ a, Generates n (f a)) : Generates n (x >>= f) := by
  have h := generates_bind hx hf
  rwa [Nat.zero_add] at h

theorem generates_ite {c : Prop} [Decidable c] {x y : ChatM α} (hx : Generates n x)
    (hy : Generates n y) : Generates n (if c then x else y) := by
  split
  · exact hx
  · exact hy

end Rules

theorem generates_tokenize (prompt : String) : Generates 0 (tokenize env prompt) :=
  generates_bind_zero (generates_note (.tokenizes prompt)) fun _ => generates_pure _

theorem generates_generate (greq : GenerateRequest) : Generates 1 (generate env greq) :=
  generates_bind (n := 0) (generates_note (.generates greq)) fun _ =>
    generates_bind_zero generates_get fun _ => generates_pure _

theorem generates_render (messages : Json) : Generates 0 (render text env messages) := by
  rw [render_eq]
  exact generates_typed _

theorem generates_firstRequest (messages : Json) :
    Generates 0 (firstRequest text env req messages) :=
  generates_bind_zero (generates_typed _) fun _ =>
    generates_bind_zero (generates_tokenize _) fun _ => generates_pure _

theorem generates_runPreprocessors : Generates 0 (runPreprocessors text bridge req) := by
  unfold runPreprocessors
  split
  · exact generates_pure _
  · refine generates_ite ?_ (generates_pure _)
    refine generates_bind_zero generates_get fun _ => ?_
    exact generates_bind_zero (generates_modify fun _ => rfl) fun _ => generates_pure _

theorem generates_injectSchemas (messages : Json) (greq : GenerateRequest) :
    Generates 0 (injectSchemas text env bridge req messages greq) := by
  unfold injectSchemas
  refine generates_bind_zero (generates_typed _) fun _ => ?_
  refine generates_bind_zero (generates_typed _) fun _ => ?_
  refine generates_ite (generates_pure _) ?_
  refine generates_bind_zero (generates_typed _) fun _ => ?_
  refine generates_bind_zero (generates_render _) fun _ => ?_
  exact generates_bind_zero (generates_tokenize _) fun _ => generates_pure _

theorem generates_revertOverflow (messages : Json) (injected : Option (Json × GenerateRequest))
    (greq : GenerateRequest) :
    Generates 0 (revertOverflow text env bridge req messages injected greq) := by
  unfold revertOverflow
  refine generates_ite ?_ (generates_pure _)
  refine generates_bind_zero (generates_modify fun _ => rfl) fun _ => ?_
  refine generates_ite ?_ (generates_pure _)
  refine generates_bind_zero (generates_render _) fun _ => ?_
  exact generates_bind_zero (generates_tokenize _) fun _ => generates_pure _

theorem generates_claimedBy (messages : Json) (greq : GenerateRequest) :
    Generates 0 (claimedBy text env bridge req messages greq) := by
  unfold claimedBy
  split
  · exact generates_pure _
  · refine generates_ite (generates_pure _) ?_
    refine generates_bind_zero (generates_typed _) fun _ => ?_
    refine generates_bind_zero ?_ fun _ => ?_
    · refine generates_bind_zero (generates_note (.dispatches _)) fun _ => ?_
      refine generates_bind_zero generates_get fun _ => ?_
      exact generates_bind_zero (generates_modify fun _ => rfl) fun _ => generates_pure _
    · refine generates_ite (generates_pure _) (generates_ite (generates_pure _) ?_)
      refine generates_ite ?_ (generates_pure _)
      exact generates_bind_zero (generates_tokenize _) fun _ => generates_pure _

theorem generates_onePass (greq : GenerateRequest) : Generates 1 (onePass text env greq) := by
  unfold onePass
  refine generates_ite (generates_mono (generates_pure _) (Nat.zero_le _)) ?_
  refine generates_bind (n := 0) (generates_generate _) fun _ => ?_
  refine generates_ite (generates_pure _) ?_
  exact generates_bind_zero (generates_typed _) fun _ => generates_pure _

theorem generates_handleDelegated : Generates 1 (handleDelegated text env bridge req) := by
  unfold handleDelegated
  refine generates_bind_zero (generates_firstRequest _) fun _ => ?_
  refine generates_bind_zero generates_runPreprocessors fun pr => ?_
  cases pr.decision with
  | respond => exact generates_mono (generates_pure _) (Nat.zero_le _)
  | abort => exact generates_mono (generates_pure _) (Nat.zero_le _)
  | pass =>
    refine generates_bind_zero (generates_injectSchemas _ _) fun _ => ?_
    refine generates_bind_zero (generates_revertOverflow _ _ _) fun current => ?_
    refine generates_bind_zero (generates_claimedBy _ _) fun d? => ?_
    cases d? with
    | none => exact generates_onePass _
    | some d => exact generates_mono (generates_pure _) (Nat.zero_le _)

/-! ## The request -/

theorem lookup_stopField {areq : Json} {key : String} (h : key ≠ "stop") :
    (stopField areq).lookup key = none := lookup_map_ne h

/-- Every translated request leaves its tools to the client and does not stream. -/
theorem readRequest_delegates {dflt : ChatRequest} {areq obody : Json}
    (h : translateRequest text areq = .ok obody) (hread : readRequest text dflt obody = .ok req) :
    clientTools req = true ∧ req.stream = false := by
  obtain ⟨model, -, h⟩ := bind_eq_ok.mp h
  obtain ⟨sys, -, h⟩ := bind_eq_ok.mp h
  obtain ⟨amsgs, -, h⟩ := bind_eq_ok.mp h
  obtain ⟨messages, -, h⟩ := bind_eq_ok.mp h
  obtain ⟨maxTokens, -, h⟩ := bind_eq_ok.mp h
  obtain ⟨tools, -, h⟩ := bind_eq_ok.mp h
  obtain ⟨kept, -, h⟩ := bind_eq_ok.mp h
  obtain ⟨fields, -, h⟩ := bind_eq_ok.mp h
  cases h
  obtain ⟨messages', -, hread⟩ := bind_eq_ok.mp hread
  obtain ⟨maxTokens', -, hread⟩ := bind_eq_ok.mp hread
  obtain ⟨-, -, hread⟩ := bind_eq_ok.mp hread
  obtain ⟨stream, hstream, hread⟩ := bind_eq_ok.mp hread
  obtain ⟨-, -, hread⟩ := bind_eq_ok.mp hread
  obtain ⟨tools', -, hread⟩ := bind_eq_ok.mp hread
  cases hread
  constructor
  · rfl
  · have hlookup : List.lookup "stream" ([("extra_body", extraBody areq),
        ("max_tokens", Json.integer maxTokens.toInt64),
        ("messages", Json.array
          (if sys = "" then messages else roleMessage "system" sys :: messages)),
        ("model", Json.string model)] ++ stopField areq ++ [("stream", .boolean false)] ++
        passedOn areq "temperature" ++ fields ++ passedOn areq "top_p") =
          some (.boolean false) := by
      simp only [List.lookup_append, lookup_stopField (show "stream" ≠ "stop" by decide)]
      rfl
    unfold value at hstream
    dsimp only at hstream
    rw [hlookup] at hstream
    exact (Except.ok.inj hstream).symm

/-! ## No tool is run -/

/-- What `/v1/messages` does with a body, whatever is behind the tools of the plugins. -/
structure ToolsUntouched (text : JsonText) (env : ChatEnv) (dflt : ChatRequest) (w : Writing)
    (raw : List UInt8) : Prop where
  /-- The reply and all that was used on the way are the same with other code behind them. -/
  same : ∀ b b', SameSchemas b b' → ∀ p,
    handleMessages text env (some b) dflt w raw p = handleMessages text env (some b') dflt w raw p
  /-- There is no second round. -/
  once : ∀ bridge p,
    (handleMessages text env bridge dflt w raw p).2.generations ≤ p.generations + 1
  /-- The run is that of the handler of chat completions. -/
  handler : ∀ areq obody req, text.parse raw = some areq →
    translateRequest text areq = .ok obody → readRequest text dflt obody = .ok req →
      ∀ bridge, handleChatCompletions text env bridge req =
        handleDelegated text env bridge req >>= fun d => typed (d.reply text)

theorem tools_untouched (text : JsonText) (env : ChatEnv) (dflt : ChatRequest) (w : Writing)
    (raw : List UInt8) : ToolsUntouched text env dflt w raw where
  same b b' h p := by
    unfold handleMessages
    simp only [handleDelegated_same h]
  once bridge p := by
    unfold handleMessages
    split
    · exact Nat.le_add_right _ _
    · split
      · exact Nat.le_add_right _ _
      · split
        · exact Nat.le_add_right _ _
        · split
          · exact Nat.le_add_right _ _
          · exact generates_handleDelegated p
  handler areq obody req _ h hread bridge := by
    obtain ⟨htools, hstream⟩ := readRequest_delegates h hread
    exact handleChatCompletions_delegates htools hstream

/-! ## What a response tells -/

variable (text)

/-- The blocks of a message. -/
def replyBlocks (reasoning answer : String) (toolCalls : List ToolCall) : List Block :=
  let content := (if reasoning = "" then [] else [Block.thinking reasoning]) ++
    (if answer = "" then [] else [Block.text answer]) ++
    toolCalls.map fun c => Block.toolUse c.id c.name (parsedInput text c.function)
  if content.isEmpty then [.text ""] else content

/-- The message that the client of a request is to get. -/
def Delivered.Tells (w : Writing) (maxTokens : Int32) : Delivered → Reply → Prop
  | .responded responseText, r => r =
    { id := w.newId
      model := w.modelId
      content := replyBlocks text "" responseText []
      stopReason := "end_turn"
      inputTokens := 0
      outputTokens := 0 }
  | .generated outcome promptTokens completionTokens, r => r =
    { id := w.newId
      model := w.modelId
      content := replyBlocks text "" (ofBytes (sanitizeUtf8 (bytes outcome))) []
      stopReason :=
        if 0 < maxTokens.toInt ∧ maxTokens.toInt ≤ completionTokens then "max_tokens"
        else "end_turn"
      inputTokens := (Int64.ofNat promptTokens).toInt32
      outputTokens := (Int64.ofNat completionTokens).toInt32 }
  | .looped result toolCalls, r => ∃ shown handed,
    handOver text result toolCalls = .ok shown ∧
    canonicalToolCalls text toolCalls = .ok (handed.map ToolCall.json) ∧ r =
      { id := w.newId
        model := w.modelId
        content := replyBlocks text
          (ofBytes (sanitizeUtf8 (replyTexts w.parser [] shown.text).2))
          (ofBytes (sanitizeUtf8 (replyTexts w.parser [] shown.text).1)) handed
        stopReason := stopReason (finishReasonOf shown)
        inputTokens := (Int64.ofNat (shown.promptTokens.getD w.unset)).toInt32
        outputTokens := (Int64.ofNat (shown.generatedTokens.getD w.unset)).toInt32 }
  | .failed _ _, _ => False

variable {text}

theorem replyBlocks_json (reasoning answer : String) (toolCalls : List ToolCall) :
    (replyBlocks text reasoning answer toolCalls).map Block.json =
      replyContent reasoning answer (toolCalls.map (ToolCall.block text)) := by
  have hcalls : (toolCalls.map fun c => Block.toolUse c.id c.name
      (parsedInput text c.function)).map Block.json = toolCalls.map (ToolCall.block text) := by
    rw [List.map_map]
    rfl
  unfold replyBlocks replyContent
  dsimp only
  rw [← hcalls]
  generalize (toolCalls.map fun c => Block.toolUse c.id c.name
    (parsedInput text c.function)) = uses
  by_cases hreasoning : reasoning = "" <;> by_cases hanswer : answer = "" <;> cases uses <;>
    simp [hreasoning, hanswer, Block.json]

theorem replyBlocks_read (reasoning answer : String) (toolCalls : List ToolCall) :
    ∀ b ∈ replyBlocks text reasoning answer toolCalls, b.Read text := by
  have hthinking : ∀ b ∈ (if reasoning = "" then [] else [Block.thinking reasoning]),
      b.Read text := by
    intro b hb
    rw [List.mem_ite_nil_left] at hb
    rw [List.mem_singleton.mp hb.2]
    trivial
  have htext : ∀ b ∈ (if answer = "" then [] else [Block.text answer]), b.Read text := by
    intro b hb
    rw [List.mem_ite_nil_left] at hb
    rw [List.mem_singleton.mp hb.2]
    trivial
  have huses : ∀ b ∈ toolCalls.map fun c =>
      Block.toolUse c.id c.name (parsedInput text c.function), b.Read text := by
    rw [List.forall_mem_map]
    exact fun c _ => parsedInput_read c.id c.name c.function
  have hall := List.forall_mem_append.mpr ⟨List.forall_mem_append.mpr ⟨hthinking, htext⟩, huses⟩
  unfold replyBlocks
  dsimp only
  generalize (if reasoning = "" then [] else [Block.thinking reasoning]) ++
    (if answer = "" then [] else [Block.text answer]) ++ _ = content at hall ⊢
  split
  · intro b hb
    rw [List.mem_singleton.mp hb]
    trivial
  · exact hall

/-- A response with a message in it, translated back. -/
theorem translateResponse_message {newId : String} {oresp : Json} {m : AssistantMessage}
    {finish model : String} {inputTokens outputTokens : Int32}
    (hmessage : (firstChoice oresp).field? "message" = some m.json)
    (hfinish : value getString (firstChoice oresp) "finish_reason" "stop" = .ok finish)
    (hmodel : value getString oresp "model" "default" = .ok model)
    (hinput : value Json.getInt (fieldOrEmpty oresp "usage") "prompt_tokens" 0 = .ok inputTokens)
    (houtput : value Json.getInt (fieldOrEmpty oresp "usage") "completion_tokens" 0 =
      .ok outputTokens) :
    translateResponse text newId oresp = .ok (Reply.json
      { id := newId
        model := model
        content := replyBlocks text (m.reasoning.getD "") m.content m.toolCalls
        stopReason := stopReason finish
        inputTokens := inputTokens
        outputTokens := outputTokens }) := by
  have hmsg : fieldOrEmpty (firstChoice oresp) "message" = m.json := by
    unfold fieldOrEmpty
    rw [hmessage]
    rfl
  have hcalls : (calls m.json).mapM (translateCall text) =
      .ok (m.toolCalls.map (ToolCall.block text)) := by
    rw [calls_json, List.mapM_map]
    exact mapM_eq_ok fun c _ => rfl
  unfold translateResponse Reply.json
  rw [replyBlocks_json]
  simp only [hmsg, hfinish, value_content, value_reasoning, hcalls, hmodel, hinput, houtput]
  rfl

/-! ## The documents -/

theorem getInt_tokens (n : Nat) : Json.getInt (Json.integer (.ofNat n)).canon =
    .ok (Int64.ofNat n).toInt32 := Json.getInt_canon _

/-- The counts of a document that is read back. -/
theorem usage_counts (promptTokens generatedTokens : Nat) (research : Option ResearchUsage) :
    value Json.getInt (usageJson promptTokens generatedTokens research).canon "prompt_tokens" 0 =
        .ok (Int64.ofNat promptTokens).toInt32 ∧
      value Json.getInt (usageJson promptTokens generatedTokens research).canon
          "completion_tokens" 0 = .ok (Int64.ofNat generatedTokens).toInt32 := by
  cases research with
  | none => exact ⟨getInt_tokens _, getInt_tokens _⟩
  | some r => exact ⟨getInt_tokens _, getInt_tokens _⟩

/-- A document with a message in it, on its way through the other router. -/
theorem translate_document (w : Writing) {message : Json} (finish : String)
    {m : AssistantMessage} (promptTokens generatedTokens : Nat) (research : Option ResearchUsage)
    (hmessage : Plain text message) (hm : message = m.json) :
    translateResponse text w.newId (completionDocument w.reqId w.modelId w.created
        (usageJson promptTokens generatedTokens research) message finish).canon = .ok (Reply.json
      { id := w.newId
        model := w.modelId
        content := replyBlocks text (m.reasoning.getD "") m.content m.toolCalls
        stopReason := stopReason finish
        inputTokens := (Int64.ofNat promptTokens).toInt32
        outputTokens := (Int64.ofNat generatedTokens).toInt32 }) := by
  obtain ⟨hinput, houtput⟩ := usage_counts promptTokens generatedTokens research
  refine translateResponse_message ?_ rfl rfl hinput houtput
  show some message.canon = some m.json
  rw [hmessage.2, hm]

theorem translate_responded (w : Writing) (responseText : String) :
    translateResponse text w.newId (respondedDocument w responseText).canon = .ok (Reply.json
      { id := w.newId
        model := w.modelId
        content := replyBlocks text "" responseText []
        stopReason := "end_turn"
        inputTokens := 0
        outputTokens := 0 }) := by
  have hfinish : value getString (firstChoice (respondedDocument w responseText).canon)
      "finish_reason" "stop" = .ok "stop" := rfl
  exact translateResponse_message (m := ⟨responseText, none, []⟩) rfl hfinish rfl rfl rfl

/-- The calls handed to the client are canonical. -/
theorem exists_toolCalls {toolCalls pending : List Json}
    (h : canonicalToolCalls text toolCalls = .ok pending) :
    ∃ handed : List ToolCall, handed.map ToolCall.json = pending := by
  have hjson := canonicalToolCalls_json h
  clear h
  induction pending with
  | nil => exact ⟨[], rfl⟩
  | cons c cs ih =>
    obtain ⟨⟨call, hcall⟩, hrest⟩ := List.forall_mem_cons.mp hjson
    obtain ⟨handed, hhanded⟩ := ih hrest
    exact ⟨call :: handed, by rw [List.map_cons, hcall, hhanded]⟩

theorem assistantMessage_json (texts : List UInt8 × List UInt8) (handed : List ToolCall) :
    assistantMessage texts (handed.map ToolCall.json) = AssistantMessage.json
      { content := ofBytes (sanitizeUtf8 texts.1)
        reasoning := if texts.2 = [] then none else some (ofBytes (sanitizeUtf8 texts.2))
        toolCalls := handed } := by
  unfold assistantMessage AssistantMessage.json
  by_cases hreasoning : texts.2 = []
  · cases handed with
    | nil => simp [hreasoning]
    | cons c cs => simp [hreasoning]
  · cases handed with
    | nil => simp [hreasoning]
    | cons c cs => simp [hreasoning]

theorem reasoning_getD (texts : List UInt8 × List UInt8) :
    (if texts.2 = [] then none else some (ofBytes (sanitizeUtf8 texts.2))).getD "" =
      ofBytes (sanitizeUtf8 texts.2) := by
  split
  · rename_i h
    rw [h]
    unfold sanitizeUtf8
    rw [List.take_nil]
    rfl
  · rfl

/-- The response of a request that was answered: it reads back as a document that is translated
    to the message the client is to get. -/
theorem respond_tells (hf : text.Faithful) {w : Writing} {maxTokens : Int32}
    {ctx : Option Context} {d : Delivered} {body : String}
    (h : d.respond text w maxTokens ctx = .ok (200, body))
    (hanswered : ∀ status message, d ≠ .failed status message) :
    ∃ r oresp, d.Tells text w maxTokens r ∧ (∀ b ∈ r.content, b.Read text) ∧
      text.parse (bytes body) = some oresp ∧
      translateResponse text w.newId oresp = .ok r.json := by
  cases d with
  | failed status message => exact absurd rfl (hanswered status message)
  | responded responseText =>
    obtain ⟨body', hbody, heq⟩ := bind_eq_ok.mp h
    cases heq
    obtain ⟨hencodes, rfl⟩ := dumps_eq_ok.mp hbody
    have hmessage : text.Written (.object [("content", .string responseText),
        ("role", .string "assistant")]) :=
      written_object ["content", "role"] rfl (by decide) (by simp [JsonText.Written.string])
    have hcreated : text.Written (.integer w.created) := .integer _
    have hwritten : text.Written (respondedDocument w responseText) :=
      written_object ["choices", "created", "id", "model", "object"] rfl (by decide)
        (by simp [JsonText.Written.string, hcreated, choices_written hmessage])
    exact ⟨_, _, rfl, replyBlocks_read _ _ _, hf.readsBack hwritten hencodes,
      translate_responded w responseText⟩
  | generated outcome promptTokens completionTokens =>
    obtain ⟨body', hbody, heq⟩ := bind_eq_ok.mp h
    cases heq
    obtain ⟨hencodes, rfl⟩ := dumps_eq_ok.mp hbody
    have hmessage : Plain text (.object
        [("content", .string (ofBytes (sanitizeUtf8 (bytes outcome)))),
          ("role", .string "assistant")]) :=
      ⟨written_object ["content", "role"] rfl (by decide) (by simp [JsonText.Written.string]), rfl⟩
    have hback := hf.readsBack
      (document_written (usage_written _ _ (ctx.bind mergeSubcallUsage)) hmessage.1) hencodes
    refine ⟨_, _, rfl, replyBlocks_read _ _ _, hback, ?_⟩
    have htranslated := translate_document w
      (if 0 < maxTokens.toInt ∧ maxTokens.toInt ≤ completionTokens then "length" else "stop")
      (m := ⟨ofBytes (sanitizeUtf8 (bytes outcome)), none, []⟩)
      promptTokens completionTokens (ctx.bind mergeSubcallUsage) hmessage rfl
    have hstop : stopReason (if 0 < maxTokens.toInt ∧ maxTokens.toInt ≤ completionTokens then
        "length" else "stop") = if 0 < maxTokens.toInt ∧ maxTokens.toInt ≤ completionTokens then
          "max_tokens" else "end_turn" := by
      split <;> rfl
    rw [hstop] at htranslated
    exact htranslated
  | looped result toolCalls =>
    obtain ⟨shown, hshown, h⟩ := bind_eq_ok.mp h
    obtain ⟨body', hbody, heq⟩ := bind_eq_ok.mp h
    cases heq
    obtain ⟨pending, hpending, hbody⟩ := bind_eq_ok.mp hbody
    obtain ⟨handed, rfl⟩ := exists_toolCalls hpending
    obtain ⟨hencodes, rfl⟩ := dumps_eq_ok.mp hbody
    have hmessage := message_plain (replyTexts w.parser [] shown.text)
      (canonicalToolCalls_plain hpending)
    have hback := hf.readsBack
      (document_written (usage_written _ _ (ctx.bind mergeSubcallUsage)) hmessage.1) hencodes
    refine ⟨_, _, ⟨shown, handed, hshown, hpending, rfl⟩, replyBlocks_read _ _ _, hback, ?_⟩
    have htranslated := translate_document w (finishReasonOf shown)
      (shown.promptTokens.getD w.unset) (shown.generatedTokens.getD w.unset)
      (ctx.bind mergeSubcallUsage) hmessage (assistantMessage_json _ handed)
    dsimp only at htranslated
    rw [reasoning_getD] at htranslated
    exact htranslated

/-! ## What a run gives -/

/-- The result is the last one of the engine, and the calls are those in its text. -/
def Delivered.Sound (text : JsonText) (env : ChatEnv) : Delivered → Progress → Prop
  | .failed status _, _ => 400 ≤ status
  | .looped result toolCalls, q => 0 ≤ env.toolMaxRounds.toInt →
    result = env.generate q.uses ∧ result.error = .ok ∧
      parseToolCalls text result.text = .ok toolCalls
  | _, _ => True

/-- What holds of each outcome of a computation. -/
def Yields {α : Type} (Q : α → Progress → Prop) (x : ChatM α) : Prop :=
  ∀ p a q, x p = (.ok a, q) → Q a q

theorem yields_pure {α : Type} {Q : α → Progress → Prop} {a : α} (h : ∀ q, Q a q) :
    Yields Q (pure a : ChatM α) := by
  intro p a' q heq
  cases heq
  exact h p

theorem yields_bind_of {α β : Type} {R : α → Progress → Prop} {Q : β → Progress → Prop}
    {x : ChatM α} {f : α → ChatM β} (hx : Yields R x)
    (hf : ∀ a q, R a q → ∀ b r, f a q = (.ok b, r) → Q b r) : Yields Q (x >>= f) := by
  intro p b r h
  have hfirst := hx p
  rw [bind_run] at h
  generalize x p = y at h hfirst
  obtain ⟨a, q⟩ := y
  cases a with
  | ok a => exact hf a q (hfirst a q rfl) b r h
  | error e => cases h

theorem yields_bind {α β : Type} {Q : β → Progress → Prop} {x : ChatM α} {f : α → ChatM β}
    (hf : ∀ a, Yields Q (f a)) : Yields Q (x >>= f) :=
  yields_bind_of (R := fun _ _ => True) (fun _ _ _ _ => trivial) fun a q _ b r h => hf a q b r h

theorem generate_run (greq : GenerateRequest) (p : Progress) :
    generate env greq p = (.ok (env.generate (p.uses ++ [.generates greq])),
      { p with uses := p.uses ++ [.generates greq] }) := rfl

theorem onePass_sound (greq : GenerateRequest) :
    Yields (Delivered.Sound text env) (onePass text env greq) := by
  unfold onePass
  by_cases hrounds : env.toolMaxRounds.toInt < 0
  · rw [if_pos hrounds]
    exact yields_pure fun q hr => absurd hr (Int.not_le.mpr hrounds)
  · rw [if_neg hrounds]
    intro p d q h
    rw [bind_run, generate_run] at h
    dsimp only at h
    split at h
    · cases h
      exact (by decide : 400 ≤ 503)
    · rename_i hok
      rw [bind_run] at h
      cases hcalls : parseToolCalls text (env.generate (p.uses ++ [.generates greq])).text with
      | error e =>
        rw [hcalls] at h
        cases h
      | ok toolCalls =>
        rw [hcalls] at h
        cases h
        exact fun _ => ⟨rfl, not_not.mp hok, hcalls⟩

theorem claimedBy_sound (messages : Json) (greq : GenerateRequest) :
    Yields (fun d? q => ∀ d, d? = some d → d.Sound text env q)
      (claimedBy text env bridge req messages greq) := by
  have hnone : ∀ q d, (none : Option Delivered) = some d → d.Sound text env q := by
    intro q d h
    cases h
  unfold claimedBy
  split
  · exact yields_pure hnone
  · split
    · exact yields_pure hnone
    · refine yields_bind fun messagesJson => yields_bind fun outcome => ?_
      split
      · exact yields_pure hnone
      · split
        · refine yields_pure fun q d h => ?_
          cases h
          exact (by decide : 400 ≤ 503)
        · split
          · refine yields_bind fun completion => yields_pure fun q d h => ?_
            cases h
            trivial
          · refine yields_pure fun q d h => ?_
            cases h
            trivial

theorem handleDelegated_sound :
    Yields (Delivered.Sound text env) (handleDelegated text env bridge req) := by
  unfold handleDelegated
  refine yields_bind fun greq => yields_bind fun pr => ?_
  cases pr.decision with
  | respond => exact yields_pure fun _ => trivial
  | abort => exact yields_pure fun _ => (by decide : 400 ≤ 400)
  | pass =>
    refine yields_bind fun injected => yields_bind fun current => ?_
    refine yields_bind_of (claimedBy_sound current.1 current.2) fun d? q hsound d r h => ?_
    cases d? with
    | none => exact onePass_sound current.2 q d r h
    | some d' =>
      cases h
      exact hsound d rfl

/-! ## The clients -/

/-- The message under the model that the client asked for. -/
def echoed (areq : Json) (r : Reply) : Reply :=
  match areq.field? "model" with
  | some (.string model) => { r with model := model }
  | _ => r

/-- What the client of a reply gets: the document, or the message that the events make. -/
def Reads (text : JsonText) (wantStream : Bool) (r : Reply) : MessagesReply → Prop
  | .message body => wantStream = false ∧ text.parse (bytes body) = some r.json.canon
  | .stream out => wantStream = true ∧ ∃ events, readEvents text out = some events ∧
    events.foldlM (Client.step text) .waiting = some (.finished r.json.canon)
  | _ => False

theorem echoModel_json (areq : Json) (r : Reply) :
    echoModel areq r.json = (echoed areq r).json := by
  unfold echoModel echoed
  split <;> rfl

theorem echoed_content (areq : Json) (r : Reply) : (echoed areq r).content = r.content := by
  unfold echoed
  split <;> rfl

theorem echoed_encodes (hf : text.Faithful) {raw : List UInt8} {areq : Json}
    (hareq : text.parse raw = some areq) {r : Reply} (h : text.encodes r.json = true) :
    text.encodes (echoed areq r).json = true := by
  unfold echoed
  split
  · rename_i model hmodel
    have hecho := encodes_field hf (hf.encodes_parsed hareq) hmodel
    have hfields := hf.encodes_object.mp h
    refine hf.encodes_object.mpr ?_
    intro f hfield
    simp only [List.mem_cons, List.not_mem_nil, or_false] at hfield
    rcases hfield with rfl | rfl | rfl | rfl | rfl | rfl | rfl | rfl
    case inr.inr.inl =>
      exact ⟨(hfields ("model", .string r.model) (by simp)).1, hecho⟩
    all_goals exact hfields _ (by simp)
  · exact h

theorem block_written {b : Block} (h : b.Read text) : text.Written b.json := by
  cases b with
  | thinking reasoning =>
    exact written_object ["thinking", "type"] rfl (by decide) (by simp [JsonText.Written.string])
  | text answer =>
    exact written_object ["text", "type"] rfl (by decide) (by simp [JsonText.Written.string])
  | toolUse id name input =>
    exact written_object ["id", "input", "name", "type"] rfl (by decide)
      (by simp [JsonText.Written.string, h.1])

theorem reply_written {r : Reply} (h : ∀ b ∈ r.content, b.Read text) : text.Written r.json := by
  have hint : ∀ i : Int32, text.Written (intJson i) := fun i => .integer _
  have hcontent : text.Written (.array (r.content.map Block.json)) := by
    refine .array ?_
    rw [List.forall_mem_map]
    exact fun b hb => block_written (h b hb)
  have husage : text.Written (.object [("input_tokens", intJson r.inputTokens),
      ("output_tokens", intJson r.outputTokens)]) :=
    written_object ["input_tokens", "output_tokens"] rfl (by decide) (by simp [hint])
  exact written_object ["content", "id", "model", "role", "stop_reason", "stop_sequence", "type",
    "usage"] rfl (by decide)
    (by simp [JsonText.Written.string, JsonText.Written.null, hcontent, husage])

theorem deliver_reads (hf : text.Faithful) {w : Writing}
    (hnewId : text.encodes (.string w.newId) = true) {raw : List UInt8} {areq oresp : Json}
    (hareq : text.parse raw = some areq) (wantStream : Bool) {r : Reply} {body : String}
    (hread : ∀ b ∈ r.content, b.Read text) (hbody : text.parse (bytes body) = some oresp)
    (htranslated : translateResponse text w.newId oresp = .ok r.json) :
    Reads text wantStream (echoed areq r) (deliver text w areq wantStream (200, body)) := by
  have hencodes := echoed_encodes hf hareq
    (translateResponse_encodes hf (hf.encodes_parsed hbody) hnewId htranslated)
  have hread' : ∀ b ∈ (echoed areq r).content, b.Read text := by
    rw [echoed_content]
    exact hread
  obtain ⟨hinputs, hevents⟩ := reply_encodes hf hencodes
  unfold deliver
  rw [if_neg (by decide : ¬ 400 ≤ 200), hbody]
  dsimp only
  rw [htranslated]
  cases wantStream with
  | true =>
    have hout : renderSseStream text (echoed areq r).json =
        .ok (frames text ((echoed areq r).events text)) :=
      renderSseStream_eq_ok.mpr ⟨⟨hinputs, hevents⟩, rfl⟩
    rw [← echoModel_json] at hout
    show Reads text true _ (match (renderSseStream text (echoModel areq r.json) >>= fun out =>
      (pure (MessagesReply.stream out) : Except TypeError MessagesReply)) with
        | .ok reply => reply
        | .error e => internalError w e)
    rw [hout]
    exact ⟨rfl, _, readEvents_frames hf (reply_sent _) hevents,
      foldlM_reply hf hread' hinputs⟩
  | false =>
    have hout : text.dumps (echoed areq r).json = .ok (text.dump (echoed areq r).json) :=
      if_pos hencodes
    rw [← echoModel_json] at hout
    show Reads text false _ (match (text.dumps (echoModel areq r.json) >>= fun body =>
      (pure (MessagesReply.message body) : Except TypeError MessagesReply)) with
        | .ok reply => reply
        | .error e => internalError w e)
    rw [hout]
    exact ⟨rfl, by rw [echoModel_json]; exact hf.readsBack (reply_written hread') hencodes⟩

theorem upstreamMessage_error (hf : text.Faithful) {message : String}
    (h : text.encodes (.string message) = true) :
    text.encodes (errorResponse message) = true ∧
      upstreamMessage text (text.dump (errorResponse message)) = message := by
  have htype := hf.encodes_ascii (s := "server_error") (by decide)
  have herror : text.encodes (.object [("message", .string message),
      ("type", .string "server_error")]) = true :=
    encodes_object_of hf ["message", "type"] rfl (by decide) (by simp [h, htype])
  have hencodes : text.encodes (errorResponse message) = true :=
    encodes_object_of hf ["error"] rfl (by decide) (by simp [herror])
  have hwritten : text.Written (errorResponse message) := by
    have hinner : text.Written (.object [("message", .string message),
        ("type", .string "server_error")]) :=
      written_object ["message", "type"] rfl (by decide) (by simp [JsonText.Written.string])
    exact written_object ["error"] rfl (List.pairwise_singleton _ _) (by simp [hinner])
  refine ⟨hencodes, ?_⟩
  unfold upstreamMessage
  rw [hf.readsBack hwritten hencodes]
  rfl

theorem deliver_failed (hf : text.Faithful) (w : Writing) (areq : Json) (wantStream : Bool)
    {status : Nat} (hstatus : 400 ≤ status) {message : String}
    (h : text.encodes (.string message) = true) :
    deliver text w areq wantStream (status, text.dump (errorResponse message)) =
      .failed status "api_error" message := by
  unfold deliver
  rw [if_pos hstatus, (upstreamMessage_error hf h).2]

/-! ## End to end -/

/-- What a run for a translated request makes of what the handler delivers. -/
structure EndToEnd (text : JsonText) (env : ChatEnv) (w : Writing) (areq : Json)
    (wantStream : Bool) (maxTokens : Int32) (d : Delivered) (q : Progress)
    (reply : MessagesReply) : Prop where
  sound : d.Sound text env q
  /-- An answer that can be written reaches the client, whole, in either form. -/
  answered : ∀ body, (∀ status message, d ≠ .failed status message) →
    d.respond text w maxTokens q.ctx = .ok (200, body) →
      ∃ r, d.Tells text w maxTokens r ∧ Reads text wantStream (echoed areq r) reply
  /-- A failure reaches it with its status and message. -/
  refused : ∀ status message, d = .failed status message →
    text.encodes (.string message) = true → reply = .failed status "api_error" message

/-- A translated request is answered as the handler of chat completions answers it. -/
theorem handleMessages_run {w : Writing} {dflt : ChatRequest} {raw : List UInt8}
    {areq obody : Json} {wantStream : Bool} (hareq : text.parse raw = some areq)
    (hstream : value getBoolean areq "stream" false = .ok wantStream)
    (htranslated : translateRequest text areq = .ok obody)
    (hreq : readRequest text dflt obody = .ok req) (p : Progress) :
    handleMessages text env bridge dflt w raw p =
      let run := handleDelegated text env bridge req p
      (deliver text w areq wantStream (chatResponse text w req.maxTokens run.2.ctx run.1),
        run.2) := by
  unfold handleMessages
  rw [hareq]
  dsimp only
  rw [hstream]
  dsimp only
  rw [htranslated]
  dsimp only
  rw [hreq]

end

/-- A question as a client of `/v1/messages` asks it. -/
def plainQuestion : Json :=
  .object [("messages", .array [roleMessage "user" "Hi"]), ("model", .string "claude"),
    ("stream", .boolean true)]

/-- A parser that takes what is said up to `</think>` for reasoning. -/
def thinkParser (t : List UInt8) : ChatParsedMessage :=
  match cut (bytes "</think>") t with
  | some (thought, rest) => ⟨rest, thought.drop 7⟩
  | none => ⟨t, []⟩

def plainWriting : Writing where
  reqId := "chatcmpl-1"
  modelId := "m"
  created := 0
  parser := some thinkParser
  what _ := "exception"
  unreadable := "parse error"
  unset := 0
  newId := "msg_1"

def noonText : String :=
  "<think>a clock</think>Wait.\n" ++
  "\x7b\"tool_calls\":[\x7b\"function\":\x7b\"arguments\":\"\x7b\x7d\",\"name\":\"clock\"\x7d," ++
  "\"id\":\"call_1\",\"type\":\"function\"\x7d]\x7d"

/-- An engine that always thinks, says the same and calls a tool. -/
def noonEnv : ChatEnv := { plainEnv with generate := fun _ => { text := bytes noonText } }

/-- The run has ended with an answer, reasoning and one call, and the response can be
    written. -/
def endsWith (said thought : String) (maxTokens : Int32) :
    Except Thrown Delivered × Progress → Bool
  | (.ok (.looped result toolCalls), q) =>
    match (Delivered.looped result toolCalls).respond CanonicalJson.canonical plainWriting
        maxTokens q.ctx, handOver CanonicalJson.canonical result toolCalls,
      canonicalToolCalls CanonicalJson.canonical toolCalls with
    | .ok (200, _), .ok shown, .ok [_] =>
      replyTexts plainWriting.parser [] shown.text = (bytes said, bytes thought)
    | _, _, _ => false
  | _ => false

theorem endsWith_eq_true {said thought : String} {maxTokens : Int32}
    {run : Except Thrown Delivered × Progress} (h : endsWith said thought maxTokens run = true) :
    ∃ result toolCalls q body shown call, run = (.ok (.looped result toolCalls), q) ∧
      (Delivered.looped result toolCalls).respond CanonicalJson.canonical plainWriting maxTokens
        q.ctx = .ok (200, body) ∧
      handOver CanonicalJson.canonical result toolCalls = .ok shown ∧
      canonicalToolCalls CanonicalJson.canonical toolCalls = .ok [call] ∧
      replyTexts plainWriting.parser [] shown.text = (bytes said, bytes thought) := by
  unfold endsWith at h
  split at h
  · rename_i result toolCalls q
    split at h
    · rename_i body shown call hbody hshown hcall
      exact ⟨result, toolCalls, q, body, shown, call, rfl, hbody, hshown, hcall,
        of_decide_eq_true h⟩
    · exact absurd h Bool.false_ne_true
  · exact absurd h Bool.false_ne_true

theorem plainQuestion_ends : ∃ obody req,
    translateRequest CanonicalJson.canonical plainQuestion = .ok obody ∧
      readRequest CanonicalJson.canonical { messages := .null } obody = .ok req ∧
        endsWith "Wait." "a clock" req.maxTokens
          (handleDelegated CanonicalJson.canonical noonEnv none req { ctx := none }) = true := by
  refine ⟨_, _, rfl, rfl, ?_⟩
  decide +kernel

end TruellmEngine.Server
