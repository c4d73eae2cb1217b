/-
  Prompts from messages, by the built-in templates.

  `applyChatTemplate_isOk`: a template is applied without an exception exactly when each
  message is an object whose role and content, if any, are strings, and whose tool calls can
  be written where they stand for the content.
-/
import TruellmEngine.Lib.Json

namespace TruellmEngine.Server

open Lib
open Lib.Json (Field value valueAt getString isString)

/-- The template by the architecture, in lower case, unless one is configured. -/
def resolveTemplate (cfgHint arch : String) : String :=
  if cfgHint ≠ "auto" then cfgHint
  else
    let a := arch.toLower
    if a.startsWith "llama" || a = "mistral" then "llama3"
    else if a.startsWith "gemma" then "gemma"
    else if a.startsWith "phi3" || a = "phi-3" then "phi3"
    else "chatml"

/-- The tool calls of a message, if there are any. -/
def toolCallsOf (msg : Json) : Option Json :=
  (msg.field? "tool_calls").filter fun calls => calls.isArray && !calls.isEmpty

/-- The content; the tool calls of an assistant without content stand for it. -/
def resolveMessageContent (text : JsonText) (msg : Json) : Except TypeError String := do
  let content ← value getString msg "content" ""
  if content = "" then
    let role ← value getString msg "role" ""
    match role, toolCallsOf msg with
    | "assistant", some calls => text.dumps (.object [("tool_calls", calls)])
    | _, _ => return content
  else
    return content

/-- One message in a prompt. -/
def promptTurn (tmplHint role content : String) : String :=
  match tmplHint with
  | "llama3" =>
    "<|start_header_id|>" ++ role ++ "<|end_header_id|>\n\n" ++ content ++ "<|eot_id|>"
  | "gemma" =>
    let gemmaRole :=
      match role with
      | "assistant" => "model"
      | "tool" => "user"
      | _ => role
    let gemmaContent := if role = "tool" then "[Tool result]\n" ++ content else content
    "<start_of_turn>" ++ gemmaRole ++ "\n" ++ gemmaContent ++ "<end_of_turn>\n"
  | "phi3" => "<|" ++ role ++ "|>\n" ++ content ++ "<|end|>\n"
  | _ => "<|im_start|>" ++ role ++ "\n" ++ content ++ "<|im_end|>\n"

/-- The end of a prompt, where the model goes on. -/
def openTurn (tmplHint : String) : String :=
  match tmplHint with
  | "llama3" => "<|start_header_id|>assistant<|end_header_id|>\n\n"
  | "gemma" => "<start_of_turn>model\n"
  | "phi3" => "<|assistant|>\n"
  | _ => "<|im_start|>assistant\n"

def renderMessage (text : JsonText) (tmplHint : String) (msg : Json) :
    Except TypeError String := do
  let role ← value getString msg "role" "user"
  let content ← resolveMessageContent text msg
  return promptTurn tmplHint role content

def applyChatTemplate (text : JsonText) (messages : Json) (tmplHint : String) :
    Except TypeError String := do
  let turns ← messages.items.mapM (renderMessage text tmplHint)
  return String.join turns ++ openTurn tmplHint

/-- From the text of the messages; nothing for a text that is no array. -/
def applyChatTemplateStr (text : JsonText) (messagesJson tmplHint : String) :
    Except TypeError String :=
  match text.parse (bytes messagesJson) with
  | some (.array messages) => applyChatTemplate text (.array messages) tmplHint
  | _ => .ok ""

/-- A message that a template can read. -/
structure MessageReadable (text : JsonText) (msg : Json) : Prop where
  role : Field isString msg "role"
  content : Field isString msg "content"
  calls : valueAt getString msg "content" "" = "" →
    valueAt getString msg "role" "" = "assistant" →
      ∀ calls ∈ toolCallsOf msg, text.encodes (.object [("tool_calls", calls)]) = true

theorem resolveMessageContent_isOk (text : JsonText) (msg : Json)
    (hrole : Field isString msg "role") :
    (resolveMessageContent text msg).isOk = true ↔ MessageReadable text msg := by
  unfold resolveMessageContent
  rw [Json.isOk_value_bind Json.getString_isOk]
  constructor
  · rintro ⟨hcontent, hrest⟩
    refine ⟨hrole, hcontent, ?_⟩
    intro hempty hassistant calls hcalls
    rw [if_pos hempty, Json.isOk_value_bind Json.getString_isOk, hassistant,
      Option.mem_def.mp hcalls] at hrest
    exact (dumps_isOk text _).symm.trans hrest.2
  · intro h
    refine ⟨h.content, ?_⟩
    split
    · rename_i hempty
      rw [Json.isOk_value_bind Json.getString_isOk]
      refine ⟨hrole, ?_⟩
      split
      · rename_i calls hassistant hcalls
        rw [dumps_isOk]
        exact h.calls hempty hassistant calls hcalls
      · rfl
    · rfl

theorem renderMessage_isOk (text : JsonText) (tmplHint : String) (msg : Json) :
    (renderMessage text tmplHint msg).isOk = true ↔ MessageReadable text msg := by
  unfold renderMessage
  rw [Json.isOk_value_bind Json.getString_isOk, isOk_bind]
  constructor
  · rintro ⟨hrole, content, hcontent, -⟩
    exact (resolveMessageContent_isOk text msg hrole).mp (isOk_iff.mpr ⟨content, hcontent⟩)
  · intro h
    obtain ⟨content, hcontent⟩ :=
      isOk_iff.mp ((resolveMessageContent_isOk text msg h.role).mpr h)
    exact ⟨h.role, content, hcontent, rfl⟩

/-- The template is applied exactly to messages that it can read. -/
theorem applyChatTemplate_isOk (text : JsonText) (messages : Json) (tmplHint : String) :
    (applyChatTemplate text messages tmplHint).isOk = true ↔
      ∀ msg ∈ messages.items, MessageReadable text msg := by
  unfold applyChatTemplate
  rw [isOk_bind]
  constructor
  · rintro ⟨turns, hturns, -⟩ msg hmsg
    exact (renderMessage_isOk text tmplHint msg).mp
      (isOk_mapM.mp (isOk_iff.mpr ⟨turns, hturns⟩) msg hmsg)
  · intro h
    obtain ⟨turns, hturns⟩ := isOk_iff.mp (isOk_mapM.mpr fun msg hmsg =>
      (renderMessage_isOk text tmplHint msg).mpr (h msg hmsg))
    exact ⟨turns, hturns, rfl⟩

end TruellmEngine.Server
