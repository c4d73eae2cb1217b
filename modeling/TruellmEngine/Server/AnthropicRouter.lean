/-
  Requests of the Anthropic interface, written again as requests for chat completions.

  `translateRequest` throws where a field has the wrong type, and the request then fails
  before anything is generated. The body it gives goes to the handler of chat completions as
  text, which is read back here as it was written; `readRequest` is what the handler takes
  from it.
-/
import TruellmEngine.Bridge.AllowList
import TruellmEngine.Bridge.Announce
import TruellmEngine.Bridge.SubCallUsage
import TruellmEngine.Server.ChatHandler
import TruellmEngine.Server.ToolGlob

namespace TruellmEngine.Server

open Lib Bridge
open Lib.Json (value getString getJson getInt getBoolean)

/-! ## The system prompt -/

/-- The field `truellm`, if it is an object. -/
def truellmField (areq : Json) : Option Json := (areq.field? "truellm").filter Json.isObject

/-- An array of the extension. -/
def truellmArray (areq : Json) (key : String) : List Json :=
  match (truellmField areq).bind (Json.field? key) with
  | some (.array xs) => xs
  | _ => []

/-- `sys` with a block behind it. -/
def appendBlock (sys block : String) : String :=
  if block = "" then sys else if sys = "" then block else sys ++ "\n\n" ++ block

/-- The texts of the blocks of type `text`, by lines. -/
def joinTexts : List Json → String → Except TypeError String
  | [], joined => .ok joined
  | b :: bs, joined => do
    if (← value getString b "type" "") = "text" then
      let more ← value getString b "text" ""
      joinTexts bs ((if joined = "" then joined else joined ++ "\n") ++ more)
    else joinTexts bs joined

def systemField (areq : Json) : Except TypeError String :=
  match areq.field? "system" with
  | some (.string s) => .ok s
  | some (.array blocks) => joinTexts blocks ""
  | _ => .ok ""

/-- The line of an optional field of an agent or a skill. -/
def optionalLine (j : Json) (key : String) : Except TypeError String := do
  if j.contains key then return (← value getString j key "") ++ "\n" else return ""

def agentBlock (a : Json) : Except TypeError String := do
  return "\n## " ++ (← value getString a "name" "agent") ++ "\n" ++
    (← optionalLine a "description") ++ (← optionalLine a "prompt")

def scopeLine (sk : Json) : String :=
  match sk.field? "allowed_tools" with
  | none | some .null => ""
  | some _ =>
    "While this skill is active only its permitted tools are offered; do not expect others.\n"

def skillBlock (sk : Json) : Except TypeError String := do
  return "\n## " ++ (← value getString sk "name" "skill") ++ "\n" ++
    (← optionalLine sk "description") ++ (← optionalLine sk "instructions") ++ scopeLine sk

/-- A block of the system prompt with a part for each entry, if there are any. -/
def composeBlock (head : String) (part : Json → Except TypeError String) (entries : List Json) :
    Except TypeError String := do
  if entries.isEmpty then return ""
  return head ++ String.join (← entries.mapM part)

def composeSystem (areq : Json) : Except TypeError String := do
  let sys := appendBlock "" (← systemField areq)
  let sys :=
    match (truellmField areq).bind (Json.field? "system_prompt") with
    | some (.string s) => appendBlock sys s
    | _ => sys
  let agents ← composeBlock
    ("# Available agents\nSpecialised agents you may delegate focused sub-tasks to. Each has " ++
      "its own remit; use the closest match.\n")
    agentBlock (truellmArray areq "agents")
  let skills ← composeBlock
    ("# Available skills\nSkills extend what you can do.  Apply a skill's instructions when " ++
      "its description matches the task.\n")
    skillBlock (truellmArray areq "skills")
  return appendBlock (appendBlock sys agents) skills

/-! ## Messages -/

/-- What the blocks of a turn have been so far. -/
structure TurnBlocks where
  text : String := ""
  toolCalls : List Json := []
  toolResults : List Json := []

/-- A text on a line of its own. -/
def TurnBlocks.addText (t : TurnBlocks) (more : String) : TurnBlocks :=
  { t with text := (if t.text = "" then t.text else t.text ++ "\n") ++ more }

def blocksText : List Json → TurnBlocks → Except TypeError TurnBlocks
  | [], t => .ok t
  | blk :: blks, t => do
    let bt ← value getString blk "type" ""
    if bt = "text" then blocksText blks (t.addText (← value getString blk "text" ""))
    else if bt = "image" then blocksText blks (t.addText "[image]")
    else blocksText blks t

def blocksToText (content : Json) : Except TypeError String :=
  match content with
  | .string s => .ok s
  | .array blks => do return (← blocksText blks {}).text
  | _ => .ok ""

section

variable (text : JsonText)

def toolUse (blk : Json) : Except TypeError Json := do
  let input := (blk.field? "input").getD (.object [])
  let id ← value getString blk "id" ""
  let name ← value getString blk "name" ""
  let arguments ← text.dumps input
  return .object [("function", .object [("arguments", .string arguments), ("name", .string name)]),
    ("id", .string id), ("type", .string "function")]

def toolResult (blk : Json) : Except TypeError Json := do
  let id ← value getString blk "tool_use_id" ""
  let content ← blocksToText ((blk.field? "content").getD (.string ""))
  return .object [("content", .string content), ("role", .string "tool"),
    ("tool_call_id", .string id)]

def turnBlocks : List Json → TurnBlocks → Except TypeError TurnBlocks
  | [], t => .ok t
  | blk :: blks, t => do
    let bt ← value getString blk "type" ""
    if bt = "text" then turnBlocks blks (t.addText (← value getString blk "text" ""))
    else if bt = "image" then turnBlocks blks (t.addText "[image]")
    else if bt = "tool_use" then
      turnBlocks blks { t with toolCalls := t.toolCalls ++ [← toolUse text blk] }
    else if bt = "tool_result" then
      turnBlocks blks { t with toolResults := t.toolResults ++ [← toolResult blk] }
    else turnBlocks blks t

/-- The messages of one turn: its tool results, which answer the turn before, come first. -/
def translateMessage (m : Json) : Except TypeError (List Json) := do
  let role ← value getString m "role" "user"
  match (m.field? "content").getD (.string "") with
  | .string s => return [roleMessage role s]
  | .array blks =>
    let t ← turnBlocks text blks {}
    if role = "assistant" ∧ t.toolCalls ≠ [] then
      return t.toolResults ++ [.object [("content", .string t.text),
        ("role", .string "assistant"), ("tool_calls", .array t.toolCalls)]]
    else if t.text ≠ "" ∨ t.toolResults = [] then
      return t.toolResults ++ [roleMessage role t.text]
    else return t.toolResults
  | _ => return [roleMessage role ""]

def translateMessages (amsgs : Json) : Except TypeError (List Json) :=
  match amsgs with
  | .array ms => do return (← ms.mapM (translateMessage text)).flatten
  | _ => .ok []

end

/-! ## Tools -/

def translateTool (t : Json) : Except TypeError Json := do
  let name ← value getString t "name" ""
  let description ← value getString t "description" ""
  let schema := ((t.field? "input_schema").filter Json.isObject).getD (.object [])
  return schemaObject name description schema

def translateTools (atools : Json) : Except TypeError (List Json) :=
  match atools with
  | .array ts => ts.mapM translateTool
  | _ => .ok []

/-- The parameters of a call of an agent. -/
def agentParameters : Json :=
  .object [
    ("properties", .object [("prompt", .object [
      ("description", .string "Self-contained task description for the agent"),
      ("type", .string "string")])]),
    ("required", .array [.string "prompt"]),
    ("type", .string "object")]

/-- The tool that stands for an agent; an agent without a name has none. -/
def agentTool (a : Json) : Except TypeError (Option Json) := do
  let name ← value getString a "name" ""
  if name = "" then return none
  let description ← value getString a "description" ""
  return some (schemaObject ("agent_" ++ name)
    ("Delegate a focused, self-contained sub-task to the '" ++ name ++ "' agent. " ++ description)
    agentParameters)

def agentTools (areq : Json) : Except TypeError (List Json) := do
  return (← (truellmArray areq "agents").mapM agentTool).filterMap id

/-- The tools of a request: those of the client, and its agents. -/
def requestTools (areq : Json) : Except TypeError (List Json) := do
  let clientTools ← translateTools ((areq.field? "tools").getD .null)
  return clientTools ++ (← agentTools areq)

/-! ## Gating -/

/-- The patterns of a comma-separated text. -/
def csvPatterns (raw : String) : List (List Char) := entries ',' isBlank raw.toList

/-- The patterns of a skill that declares `allowed_tools`. -/
def skillPatterns (sk : Json) : List (List Char) :=
  match sk.field? "allowed_tools" with
  | some (.string s) => csvPatterns s
  | some (.array es) => es.flatMap fun
    | .string s => csvPatterns s
    | _ => []
  | _ => []

def skillToolPatterns (areq : Json) : List (List Char) :=
  (truellmArray areq "skills").flatMap skillPatterns

/-- The tools whose name is matched by a pattern; without patterns, all of them. -/
def gateTools (pats : List (List Char)) (tools : List Json) : Except TypeError (List Json) :=
  if pats.isEmpty then .ok tools
  else do
    let kept ← tools.mapM fun t => do
      let name ← value getString (← value getJson t "function" (.object [])) "name" ""
      return if pats.any fun p => toolGlobMatch p name.toList then some t else none
    return kept.filterMap id

/-! ## The request -/

/-- A field that is passed on as it is. -/
def passedOn (areq : Json) (key : String) : List (String × Json) :=
  (areq.field? key).toList.map (key, ·)

def stopField (areq : Json) : List (String × Json) :=
  ((areq.field? "stop_sequences").filter Json.isArray).toList.map ("stop", ·)

def toolChoiceField (areq : Json) : Except TypeError (List (String × Json)) :=
  match (areq.field? "tool_choice").filter Json.isObject with
  | none => .ok []
  | some tc => do
    let tt ← value getString tc "type" "auto"
    if tt = "auto" then return [("tool_choice", .string "auto")]
    else if tt = "any" then return [("tool_choice", .string "required")]
    else if tt = "tool" then
      let name ← value getString tc "name" ""
      return [("tool_choice", .object [("function", .object [("name", .string name)]),
        ("type", .string "function")])]
    else return []

/-- The tools with the choice between them; neither without tools. -/
def toolFields (areq : Json) (tools : List Json) : Except TypeError (List (String × Json)) := do
  if tools.isEmpty then return []
  return (← toolChoiceField areq) ++ [("tools", .array tools)]

/-- The metadata of the request, with the session handle of the client. -/
def requestMetadata (areq : Json) : Json :=
  let tmeta := (((truellmField areq).bind (Json.field? "context_metadata")).filter
    Json.isObject).getD (.object [])
  let userId := (((areq.field? "metadata").filter Json.isObject).bind
    (Json.field? "user_id")).filter Json.isString
  match tmeta.field? "session.id", userId with
  | none, some userId => tmeta.setField "session.id" userId
  | _, _ => tmeta

def extraBody (areq : Json) : Json :=
  let tmeta := requestMetadata areq
  .object [("truellm", .object (("client_tools", .boolean true) ::
    if tmeta.isEmpty then [] else [("context_metadata", tmeta)]))]

def translateRequest (text : JsonText) (areq : Json) : Except TypeError Json := do
  let model ← value getString areq "model" "default"
  let sys ← composeSystem areq
  let messages ← translateMessages text (← value getJson areq "messages" (.array []))
  let messages := if sys = "" then messages else roleMessage "system" sys :: messages
  let maxTokens ← value getInt areq "max_tokens" 1024
  let tools ← gateTools (skillToolPatterns areq) (← requestTools areq)
  let toolFields ← toolFields areq tools
  return .object (
    [("extra_body", extraBody areq), ("max_tokens", .integer maxTokens.toInt64),
      ("messages", .array messages), ("model", .string model)] ++
    stopField areq ++ [("stream", .boolean false)] ++ passedOn areq "temperature" ++
    toolFields ++ passedOn areq "top_p")

/-! ## The body in the handler -/

/-- A `float` of the body; its value is not looked at here. -/
def checkFloat (body : Json) (key : String) : Except TypeError Unit := do
  let _ ← value getInt body key 0

def stopsOf (body : Json) : List Bytes :=
  match body.field? "stop" with
  | some (.string s) => [bytes s]
  | some (.array xs) => xs.filterMap fun
    | .string s => some (bytes s)
    | _ => none
  | _ => []

/-- The flag `client_tools`; one that cannot be read is off. -/
def readClientTools (body : Json) : Bool :=
  match ((body.field? "extra_body").bind (Json.field? "truellm")).bind
    (Json.field? "client_tools") with
  | some (.boolean b) => b
  | _ => false

/-- The schema of `response_format`, as a text; one that cannot be read is none. -/
def responseSchemaOf (text : JsonText) (body : Json) : String :=
  let schema : Except TypeError String := do
    match (body.field? "response_format").filter Json.isObject with
    | some rf =>
      if (← value getString rf "type" "") = "json_schema" then
        match (rf.field? "json_schema").bind (Json.field? "schema") with
        | some schema => text.dumps schema
        | none => return ""
      else return ""
    | none => return ""
  schema.toOption.getD ""

/-- The id in metadata, if it is a string. -/
def sessionIn (metadata : Option Json) : Option Bytes :=
  match metadata.bind (Json.field? "session.id") with
  | some (.string s) => some (bytes s)
  | _ => none

/-- `pick_sid`, up to the header. -/
def sessionIdOf (body : Json) : Option Bytes :=
  (sessionIn (body.field? "truellm_metadata")).or (sessionIn (Context.contextMetadata body))

/-- The request of a body. `dflt` has what comes from elsewhere, such as the session id of the
    header. -/
def readRequest (text : JsonText) (dflt : ChatRequest) (body : Json) :
    Except TypeError ChatRequest := do
  let messages ← value getJson body "messages" (.array [])
  let maxTokens ← value getInt body "max_tokens" dflt.maxTokens
  checkFloat body "temperature"
  let stream ← value getBoolean body "stream" false
  checkFloat body "top_p"
  let tools ← value getJson body "tools" (.array [])
  return { dflt with
    messages := messages
    maxTokens := maxTokens
    stop := stopsOf body
    stream := stream
    tools := tools
    toolChoice := body.field? "tool_choice"
    delegatesTools := readClientTools body
    responseSchema := responseSchemaOf text body
    sessionId := (sessionIdOf body).getD dflt.sessionId }

end TruellmEngine.Server
