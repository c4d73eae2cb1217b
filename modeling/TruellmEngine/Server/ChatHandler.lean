/-
  The handler of chat completions, up to the answer: the prompt, the preprocessor chain, tool
  schemas in the system message, generators, and the tool loop.

  `Progress.uses` is what the handler has used the messages for: each prompt it tokenises,
  each request it generates from, and the messages it shows to generators. Outside are the
  engine and the formatter of the model (`ChatEnv`), whose answers may be any, and the
  plugins. The engine may answer from all that it was asked before.

  `chatFrom` is the handler without a chain, from any messages. How the answer is written for
  the client is left out, as are the float sampling parameters.
-/
import Mathlib.Logic.Function.Basic
import TruellmEngine.Bridge.AllowList
import TruellmEngine.Bridge.GeneratorRegistry
import TruellmEngine.Engine.Interface
import TruellmEngine.Server.ChatTemplate
import TruellmEngine.Server.ContextSplit
import TruellmEngine.Server.ToolCalls

namespace TruellmEngine.Server

open Lib Bridge
open Lib.Json (value getString getJson)

structure PluginBridge where
  preprocessors : PreprocessorChain := {}
  tools : ToolRegistry := {}
  generators : GeneratorRegistry := {}

/-- A request, as its body was read. -/
structure ChatRequest where
  messages : Json
  tools : Json := .array []
  toolChoice : Option Json := none
  maxTokens : Int32 := 2048
  stop : List Bytes := []
  stream : Bool := false
  /-- The flag `extra_body.truellm.client_tools`. -/
  delegatesTools : Bool := false
  responseSchema : String := ""
  requestId : Bytes := []
  sessionId : Bytes := []
  /-- The context behind `absorb_client_metadata`. -/
  context : Context := {}

inductive Use where
  | tokenizes (prompt : String)
  | generates (greq : GenerateRequest)
  | asks (messagesJson : String)
  | dispatches (messagesJson : String)

structure ChatApplied where
  prompt : String
  additionalStops : List Bytes := []

/-- The engine, the formatter of the model if it is valid, and the configuration. -/
structure ChatEnv where
  /-- Reads the messages from their text; `none` where the result is not valid. -/
  chatFormat : Option (Json → String → Option ChatApplied) := none
  chatTemplate : String := "auto"
  architecture : String := ""
  indented : Json → String
  tokenize : String → List Token
  /-- The answer to the last of the uses. -/
  generate : List Use → GenerateResult
  tokenBudget : Int64
  contextSize : Int32 := 4096
  toolMaxRounds : Int32 := 5
  split : SplitConfig := {}

inductive ChatReply where
  | answer (text : String) (toolCalls : List Json)
  | streamed
  | failed (status : Nat) (message : String)

/-- What ends the handler with status 500. -/
inductive Thrown where
  | json (e : TypeError)
  | badAlloc

structure Progress where
  ctx : Option Context
  uses : List Use := []

abbrev ChatM := ExceptT Thrown (StateM Progress)

def typed {α : Type} : Except TypeError α → ChatM α
  | .ok a => pure a
  | .error e => throw (.json e)

def note (u : Use) : ChatM Unit := modify fun p => { p with uses := p.uses ++ [u] }

def setCtx (ctx : Option Context) : ChatM Unit := modify fun p => { p with ctx := ctx }

variable (text : JsonText) (env : ChatEnv) (bridge : Option PluginBridge) (req : ChatRequest)

/-! ## The engine -/

def tokenize (prompt : String) : ChatM (List Token) := do
  note (.tokenizes prompt)
  return env.tokenize prompt

def generate (greq : GenerateRequest) : ChatM GenerateResult := do
  note (.generates greq)
  return env.generate (← get).uses

def tmpl : String := resolveTemplate env.chatTemplate env.architecture

/-- The prompt of a conversation behind the first prompt. -/
def render (messages : Json) : ChatM String := do
  match env.chatFormat with
  | none => typed (applyChatTemplate text messages (tmpl env))
  | some format =>
    let _ ← typed (text.dumps messages)
    match format messages "" with
    | some a => return a.prompt
    | none => typed (applyChatTemplate text messages (tmpl env))

/-- The first prompt, with the stops of the formatter. -/
def firstPrompt (messages : Json) : Except TypeError ChatApplied := do
  match env.chatFormat.bind fun format => format messages req.responseSchema with
  | none => return { prompt := ← applyChatTemplate text messages (tmpl env) }
  | some a =>
    if a.prompt = "" then
      return { a with prompt := ← applyChatTemplate text messages (tmpl env) }
    else return a

def firstRequest (messages : Json) : ChatM GenerateRequest := do
  let applied ← typed (firstPrompt text env req messages)
  let tokens ← tokenize env applied.prompt
  return {
    tokens := tokens
    maxTokens := req.maxTokens.toInt
    stop := req.stop ++ applied.additionalStops.filter (· ≠ [])
    requestId := req.requestId
    sessionId := req.sessionId }

/-! ## Tool schemas -/

/-- The request has its own tools, and is the one that calls them. -/
def clientTools : Bool := req.delegatesTools || (req.tools.isArray && !req.tools.isEmpty)

def clientRequestedTools : Bool :=
  let tc :=
    match req.toolChoice with
    | some (.string s) => s
    | _ => "auto"
  !req.tools.isEmpty || tc = "required" || tc = "any"

/-- The choice, and the tool it names if any. -/
def toolChoiceOf : Option Json → Except TypeError (String × String)
  | some (.string s) => .ok (if s = "" then "auto" else s, "")
  | some (.object fields) => do
    let tt ← value getString (.object fields) "type" ""
    if tt = "function" then
      let fn ← value getJson (.object fields) "function" (.object [])
      return ("required", ← value getString fn "name" "")
    else if tt = "required" || tt = "auto" || tt = "none" then return (tt, "")
    else if tt = "any" then return ("required", "")
    else return ("auto", "")
  | _ => .ok ("auto", "")

/-- A schema under the short name of its tool. -/
def shortSchema (t : Json) : Except TypeError Json := do
  match t.field? "function" with
  | some (.object fn) =>
    let qn ← value getString (.object fn) "name" ""
    match lastIndex '.' qn.toList with
    | some dot =>
      let name := String.ofList (qn.toList.drop (dot + 1))
      return t.setField "function" ((Json.object fn).setField "name" (.string name))
    | none => return t
  | _ => return t

/-- The tools of the client, or else those of the plugins. -/
def allSchemas : Except TypeError (List Json) :=
  if !req.tools.isEmpty then .ok (req.tools.items.filter Json.isObject)
  else
    match bridge with
    | none => .ok []
    | some b =>
      let s := b.tools.schemasJson
      if b.tools.hasTools && s ≠ "" && s ≠ "[]" then
        match text.parse (bytes s) with
        | some (.array schemas) => schemas.mapM shortSchema
        | _ => .ok []
      else .ok []

/-- What a choice `required` adds to the instruction. -/
def requiredSuffix : String :=
  "\n\nIMPORTANT: You MUST call one of the above tools to answer this request.  Do not reply " ++
  "with plain text until after you have called a tool and received its result."

def forcedSuffix (forcedTool : String) : String :=
  "\n\nIMPORTANT: You MUST call the tool \"" ++ forcedTool ++
  "\" to answer this request \xe2\x80\x94 that exact tool, not any other.  Do not reply with " ++
  "plain text until you have called it and received its result."

def toolInstr (schemas : List Json) (toolChoice forcedTool : String) : String :=
  "You have access to the following tools.\n\n" ++
  "To call a tool, output ONLY this JSON (no surrounding text):\n" ++
  "\x7b\"tool_calls\":[\x7b\"id\":\"call_0\",\"type\":\"function\",\"function\":\x7b\"name\":" ++
  "\"TOOL_NAME\",\"arguments\":\x7b\"param\":\"value\"\x7d\x7d\x7d]\x7d\n\n" ++
  "Available tools (OpenAI format):\n" ++
  env.indented (.array schemas) ++
  "\n\nOnly use the tool names listed above. Do not use code_execution, python, browser, or " ++
  "any other tool not explicitly listed. Do not produce error messages about missing tools." ++
  if toolChoice = "required" then
    if forcedTool = "" then requiredSuffix else forcedSuffix forcedTool
  else ""

/-- The messages with the instruction in their first system message, if there is one. -/
def mergeSystem (instr : String) : List Json → Except TypeError (Option (List Json))
  | [] => .ok none
  | m :: ms => do
    if (← value getString m "role" "") = "system" then
      let content ← value getString m "content" ""
      return some (m.setField "content" (.string (instr ++ "\n\n" ++ content)) :: ms)
    else
      return (← mergeSystem instr ms).map (m :: ·)

def roleMessage (role content : String) : Json :=
  .object [("content", .string content), ("role", .string role)]

def injectInto (instr : String) (messages : Json) : Except TypeError Json := do
  match ← mergeSystem instr messages.items with
  | some merged => return messages.setItems merged
  | none => return .array (roleMessage "system" instr :: messages.items)

/-- The messages and the request with the schemas, if there are any. -/
def injectSchemas (messages : Json) (greq : GenerateRequest) :
    ChatM (Option (Json × GenerateRequest)) := do
  let (toolChoice, forcedTool) ← typed (toolChoiceOf req.toolChoice)
  let schemas ← typed (allSchemas text bridge req)
  if schemas.isEmpty then return none
  let injected ← typed (injectInto (toolInstr env schemas toolChoice forcedTool) messages)
  let tokens ← tokenize env (← render text env injected)
  return some (injected, { greq with tokens := tokens })

/-! ## Generators -/

def hasGenerators : Bool := bridge.any fun b => b.generators.hasGenerators

/-- Marks a prompt that overflows the context; without the schemas it may be shorter. -/
def revertOverflow (messages : Json) (injected : Option (Json × GenerateRequest))
    (greq : GenerateRequest) : ChatM (Json × GenerateRequest) := do
  let (current, greq) := injected.getD (messages, greq)
  let ctxLen := env.contextSize.toInt
  let budget := ctxLen - max req.maxTokens.toInt 0
  let nTokens := greq.tokens.length
  if !clientRequestedTools req && hasGenerators bridge && 0 < ctxLen && budget < nTokens then
    modify fun p => { p with ctx := p.ctx.map fun c => { c with
      metadata := Function.update (Function.update (Function.update c.metadata
        "rlm_eligible" (some "1")) "overflow_tokens" (some (toString nTokens)))
        "context_budget" (some (toString budget)) } }
    if injected.isSome then
      let tokens ← tokenize env (← render text env messages)
      return (messages, { greq with tokens := tokens })
  return (current, greq)

def dispatchGenerator (generators : GeneratorRegistry) (messagesJson : String) :
    ChatM GeneratorOutcome := do
  note (.dispatches messagesJson)
  let (outcome, ctx) := generators.dispatch messagesJson (← get).ctx
  setCtx ctx
  return outcome

/-- The answer of a generator, if one claims the request. -/
def tryGenerators (messages : Json) : ChatM (Option ChatReply) := do
  match bridge with
  | none => return none
  | some b =>
    if clientRequestedTools req || !b.generators.hasGenerators then return none
    let messagesJson ← typed (text.dumps messages)
    if req.stream then
      note (.asks messagesJson)
      let (claimed, ctx) := b.generators.claims messagesJson (← get).ctx
      setCtx ctx
      if !claimed then return none
      let _ ← dispatchGenerator b.generators messagesJson
      return some .streamed
    else
      let outcome ← dispatchGenerator b.generators messagesJson
      if !outcome.claimed then return none
      if !outcome.ok then
        return some (.failed 503
          ("Generator '" ++ outcome.pluginId ++ "' error: " ++ outcome.errorMessage))
      if outcome.text ≠ "" then
        let _ ← tokenize env outcome.text
      return some (.answer outcome.text [])

/-! ## The tool loop -/

/-- The first message of a user. -/
def extractUserQuestion : List Json → Except TypeError String
  | [] => .ok ""
  | m :: ms => do
    if (← value getString m "role" "") = "user" then value getString m "content" ""
    else extractUserQuestion ms

def chunkMessages (i n : Nat) (chunk : String) : Json :=
  .array [
    roleMessage "system"
      ("You are a content summariser. Summarise the key topics, facts, and information in the " ++
        "provided content section. Be concise but informative. Preserve important details such " ++
        "as names, versions, URLs, and technical terms. If the section contains code, describe " ++
        "what it does."),
    roleMessage "user"
      ("Content section " ++ toString (i + 1) ++ " of " ++ toString n ++ ":\n---\n" ++ chunk ++
        "\n---\n\nSummarise the key content of this section.")]

/-- The summary of one chunk, or nothing if the engine gives none. -/
def summarizeChunk (n : Nat) (chunk : String × Nat) : ChatM String := do
  let tokens ← tokenize env
    (← typed (applyChatTemplate text (chunkMessages chunk.2 n chunk.1) (tmpl env)))
  if tokens.isEmpty then return ""
  let res ← generate env { tokens := tokens, maxTokens := env.split.summaryTokens.toInt }
  if res.error ≠ .ok || res.text.isEmpty then return ""
  return "[Section " ++ toString (chunk.2 + 1) ++ "]: " ++ ofBytes res.text ++ "\n\n"

def summarizeChunks (chunks : List String) : ChatM String := do
  let n := (min (chunks.length : Int) env.split.maxChunks.toInt).toNat
  let summaries ← (chunks.take n).zipIdx.mapM (summarizeChunk text env n)
  let more :=
    if env.split.maxChunks.toInt < chunks.length then
      "[Note: content had " ++ toString chunks.length ++ " sections; only first " ++
        toString (min (chunks.length : Int) env.split.maxChunks.toInt) ++
        " were processed due to context_split_max_chunks limit]\n"
    else ""
  let all := String.join summaries ++ more
  return if all = "" then "[Tool result could not be summarised]" else all

/-- A tool message that is too large, made shorter. -/
def splitMessage (messages : List Json) (m : Json) : ChatM Json := do
  if (← typed (value getString m "role" "")) ≠ "tool" then return m
  let content ← typed (value getString m "content" "")
  let ctoks ← tokenize env content
  if (ctoks.length : Int) < (share env.tokenBudget env.split.triggerFraction).toInt64.toInt then
    return m
  if env.split.strategy = "truncate" then
    let keepToks := (share env.tokenBudget env.split.truncateFraction).toInt32
    return m.setField "content"
      (.string (String.ofList (truncate (charsOf keepToks) content.toList)))
  match chunkContent (charsOf (env.split.chunkToks env.tokenBudget)) content.toList with
  -- empty chunks without end
  | none => throw .badAlloc
  | some chunks =>
    let _ ← typed (extractUserQuestion messages)
    let summary ← summarizeChunks text env (chunks.map String.ofList)
    return m.setField "content" (.string ("[Summarised tool output]:\n" ++ summary))

def splitContext (messages : Json) : ChatM Json := do
  if 0 < env.tokenBudget && env.split.enabled then
    return messages.setItems (← messages.items.mapM (splitMessage text env messages.items))
  else return messages

/-- The messages without the demand for a tool call, in the first system message. -/
def stripRequired : List Json → Except TypeError (List Json)
  | [] => .ok []
  | m :: ms => do
    if (← value getString m "role" "") = "system" then
      let content ← value getString m "content" ""
      match cut requiredSuffix.toList content.toList with
      | some (front, back) =>
        return m.setField "content" (.string (String.ofList (front ++ back))) :: ms
      | none => return m :: ms
    else
      return m :: (← stripRequired ms)

/-- The messages, last first, with their last tool result left out. -/
def omitLast : List Json → Except TypeError (List Json)
  | [] => .ok []
  | m :: ms => do
    if (← value getString m "role" "") = "tool" then
      return m.setField "content" (.string
        ("[Tool result omitted: response too large for context window. Please answer based on " ++
          "what you know about the requested URL.]")) :: ms
    else
      return m :: (← omitLast ms)

/-- One call, and the message with its result. -/
def runToolCall (tools : ToolRegistry) (toolRound : Nat) (messages call : Json) : ChatM Json := do
  let fn ← typed (value getJson call "function" .null)
  let qname ← typed (value getString fn "name" "")
  let args ← typed (toolArgsString text call)
  let callId ← typed (value getString call "id" ("call_" ++ toString toolRound))
  let turn := chatToolCall text tools (← get).ctx qname args
  setCtx turn.ctx
  typed (messages.pushBack (.object [("content", .string turn.body), ("role", .string "tool"),
    ("tool_call_id", .string callId)]))

/-- The messages behind a round of tool calls. -/
def toolRoundMessages (tools : ToolRegistry) (toolRound : Nat) (result : GenerateResult)
    (toolCalls : List Json) (messages : Json) : ChatM Json := do
  let messages ← typed (messages.pushBack (.object [("content", .string (ofBytes result.text)),
    ("role", .string "assistant"), ("tool_calls", .array toolCalls)]))
  let messages ← toolCalls.foldlM (runToolCall text tools toolRound) messages
  let stripped ← typed (stripRequired messages.items)
  splitContext text env (messages.setItems stripped)

/-- The rounds of the loop; `result` is that of the round before. -/
def toolLoop : Nat → Nat → GenerateResult → Json → GenerateRequest → ChatM ChatReply
  | 0, _, result, _, _ => return .answer (ofBytes result.text) []
  | rounds + 1, toolRound, _, messages, greq => do
    let result ← generate env greq
    if result.error ≠ .ok then
      return .failed 503 ("Inference engine error: " ++ result.errorMessage)
    let toolCalls ← typed (parseToolCalls text result.text)
    if toolCalls.isEmpty then return .answer (ofBytes result.text) []
    if clientTools req then
      return .answer (ofBytes result.text) (← typed (canonicalToolCalls text toolCalls))
    match bridge with
    | none => return .answer (ofBytes result.text) []
    | some b =>
      if !b.tools.hasTools then return .answer (ofBytes result.text) []
      let messages ← toolRoundMessages text env b.tools toolRound result toolCalls messages
      let tokens ← tokenize env (← render text env messages)
      let greq := { greq with tokens := tokens, onToken := false }
      if 0 < env.tokenBudget && env.tokenBudget.toInt ≤ tokens.length then
        -- one more pass, whose result is the answer
        let shorter ← typed (omitLast messages.items.reverse)
        let tokens ← tokenize env (← render text env (messages.setItems shorter.reverse))
        let result ← generate env { greq with tokens := tokens }
        return .answer (ofBytes result.text) []
      toolLoop rounds (toolRound + 1) result messages greq

/-! ## The handler -/

def toolsInPlay : Bool := clientRequestedTools req || bridge.any fun b => b.tools.hasTools

/-- What the handler does with the messages and their first prompt. -/
def goOn (messages : Json) (greq : GenerateRequest) : ChatM ChatReply := do
  let injected ← injectSchemas text env bridge req messages greq
  let (messages, greq) ← revertOverflow text env bridge req messages injected greq
  match ← tryGenerators text env bridge req messages with
  | some reply => return reply
  | none =>
    if req.stream && !toolsInPlay bridge req then
      let _ ← generate env { greq with onToken := true }
      return .streamed
    else
      toolLoop text env bridge req (env.toolMaxRounds.toInt + 1).toNat 0 {} messages greq

/-- What the handler does with the messages without a preprocessor chain. -/
def chatFrom (messages : Json) : ChatM ChatReply := do
  goOn text env bridge req messages (← firstRequest text env req messages)

/-- The decision of the chain, with the text of a response. -/
def runPreprocessors : ChatM PreprocessResult := do
  match bridge with
  | none => return {}
  | some b =>
    if b.preprocessors.hasPreprocessors then
      let (pr, ctx) := b.preprocessors.run (text.dump req.messages) (← get).ctx
      setCtx ctx
      return pr
    else return {}

def handleChatCompletions : ChatM ChatReply := do
  let greq ← firstRequest text env req req.messages
  let pr ← runPreprocessors text bridge req
  match pr.decision with
  | .respond => return .answer pr.responseText []
  | .abort => return .failed 400 "Request blocked by preprocessor"
  | .pass => goOn text env bridge req req.messages greq

end TruellmEngine.Server
