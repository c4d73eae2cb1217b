/-
  The handler of completions, up to the answer: the body, the preprocessor chain, tool schemas
  in front of the prompt, and the tool loop, whose prompt grows by the results of each round.

  It shares `ChatM` with the handler of chat completions. How the answer is written for the
  client is left out, as are the float sampling parameters.
-/
import TruellmEngine.Server.AnthropicRouter

namespace TruellmEngine.Server

open Lib Bridge
open Lib.Json (value getString getJson getInt getBoolean)

variable (text : JsonText) (env : ChatEnv) (bridge : Option PluginBridge)

/-- The prompt behind the schemas of the tools. -/
def promptWithTools (schemas prompt : String) : String :=
  "You have access to the following tools:\n" ++ schemas ++ "\n\n" ++
    "To call a tool respond with a JSON object of the form:\n" ++
    "\x7b\"tool_calls\":[\x7b\"id\":\"call_0\",\"type\":\"function\"," ++
    "\"function\":\x7b\"name\":\"<qualified_name>\",\"arguments\":\x7b<args>\x7d\x7d\x7d]\x7d\n\n" ++
    prompt

/-- The decision of the chain on the prompt. -/
def completionsPreprocessors (prompt : String) : ChatM PreprocessResult := do
  match bridge with
  | none => return {}
  | some b =>
    if b.preprocessors.hasPreprocessors then
      let promptJson ← typed (text.dumps (.object [("prompt", .string prompt)]))
      let (pr, ctx) := b.preprocessors.run promptJson (← get).ctx
      setCtx ctx
      return pr
    else return {}

/-- The prompt and the request with the schemas of the tools, if there are any. -/
def prependSchemas (prompt : String) (greq : GenerateRequest) :
    ChatM (String × GenerateRequest) := do
  match bridge with
  | none => return (prompt, greq)
  | some b =>
    let schemas := b.tools.schemasJson
    if b.tools.hasTools && schemas ≠ "" && schemas ≠ "[]" then
      let prompt := promptWithTools schemas prompt
      let tokens ← tokenize env prompt
      return (prompt, { greq with tokens := tokens })
    else return (prompt, greq)

/-- One call, with its result behind those before. -/
def runCompletionsCall (tools : ToolRegistry) (toolRound : Nat) (results : String) (call : Json) :
    ChatM String := do
  let fn ← typed (value getJson call "function" .null)
  let qname ← typed (value getString fn "name" "")
  let args ← typed (toolArgsString text call)
  let callId ← typed (value getString call "id" ("call_" ++ toString toolRound))
  let turn := completionsToolCall text tools (← get).ctx qname args
  setCtx turn.ctx
  return results ++ "\n[Tool " ++ callId ++ " result]: " ++ turn.body ++ "\n"

/-- The rounds of the loop; `result` is that of the round before. -/
def completionsLoop : Nat → Nat → GenerateResult → String → GenerateRequest → ChatM ChatReply
  | 0, _, result, _, _ => return .answer (ofBytes result.text) []
  | rounds + 1, toolRound, _, prompt, greq => do
    let result ← generate env greq
    if result.error ≠ .ok then
      return .failed 503 ("Inference engine error: " ++ result.errorMessage)
    match bridge with
    | none => return .answer (ofBytes result.text) []
    | some b =>
      if !b.tools.hasTools then return .answer (ofBytes result.text) []
      let toolCalls ← typed (parseToolCalls text result.text)
      if toolCalls.isEmpty then return .answer (ofBytes result.text) []
      let results ← toolCalls.foldlM (runCompletionsCall text b.tools toolRound) ""
      let prompt := prompt ++ ofBytes result.text ++ results
      let tokens ← tokenize env prompt
      completionsLoop rounds (toolRound + 1) result prompt
        { greq with tokens := tokens, onToken := false }

/-- What the handler does with a prompt and the request that is made of it. -/
def completeFrom (stream : Bool) (prompt : String) (greq : GenerateRequest) :
    ChatM ChatReply := do
  let pr ← completionsPreprocessors text bridge prompt
  match pr.decision with
  | .respond => return .answer pr.responseText []
  | .abort => return .failed 400 "Request blocked by preprocessor"
  | .pass =>
    let (prompt, greq) ← prependSchemas env bridge prompt greq
    if stream then
      let _ ← generate env { greq with onToken := true }
      return .streamed
    else
      completionsLoop text env bridge (env.toolMaxRounds.toInt + 1).toNat 0 {} prompt greq

/-- `loaded` is whether the engine has a model, `cfgMaxTokens` is `sampling.max_tokens`, and
    `requestId` is made from the time. -/
def handleCompletions (loaded : Bool) (cfgMaxTokens : Int32) (requestId : Bytes)
    (raw : List UInt8) : ChatM ChatReply := do
  match text.parse raw with
  | none => return .failed 400 "Invalid JSON"
  | some body =>
    if !loaded then return .failed 503 "No model loaded"
    let prompt ← typed (value getString body "prompt" "")
    let maxTokens ← typed (value getInt body "max_tokens" cfgMaxTokens)
    typed (checkFloat body "temperature")
    let stream ← typed (value getBoolean body "stream" false)
    let tokens ← tokenize env prompt
    typed (checkFloat body "top_p")
    completeFrom text env bridge stream prompt {
      tokens := tokens
      maxTokens := maxTokens.toInt
      stop := stopsOf body
      requestId := requestId }

end TruellmEngine.Server
