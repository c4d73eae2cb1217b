/-
  The texts of the messages in the prompt.

  An OpenAI message may have a text as its content, parts, null, or nothing. The built-in
  templates and the merge of the tool instruction read the content as a text and throw on what
  is there and is none. `prompted_iff`: they give a prompt with the texts of all messages, in
  their order, just for messages whose content is a text or absent.
-/
import TruellmEngine.Server.ChatHandler
import Mathlib.Data.List.Forall2

namespace TruellmEngine.Server

open Lib
open Lib.Json (Field value getString isString)

/-! ## Texts in a text -/

def PartOf (t s : String) : Prop := ∃ pre post, s = pre ++ t ++ post

/-- The texts, one behind the other. -/
def AppearIn : List String → String → Prop
  | [], _ => True
  | t :: texts, s => ∃ pre post, s = pre ++ t ++ post ∧ AppearIn texts post

theorem PartOf.trans {t u s : String} (h : PartOf t u) (hu : PartOf u s) : PartOf t s := by
  obtain ⟨pre, post, rfl⟩ := h
  obtain ⟨pre', post', rfl⟩ := hu
  exact ⟨pre' ++ pre, post ++ post', by simp only [String.append_assoc]⟩

theorem AppearIn.prepend {texts : List String} {s : String} (h : AppearIn texts s)
    (more : String) : AppearIn texts (more ++ s) := by
  cases texts with
  | nil => trivial
  | cons t texts =>
    obtain ⟨pre, post, rfl, hrest⟩ := h
    exact ⟨more ++ pre, post, by simp only [String.append_assoc], hrest⟩

theorem AppearIn.tail {t : String} {texts : List String} {s : String}
    (h : AppearIn (t :: texts) s) : AppearIn texts s := by
  obtain ⟨pre, post, rfl, hrest⟩ := h
  exact hrest.prepend (pre ++ t)

/-- Texts of texts that appear. -/
theorem AppearIn.of_partOf {texts texts' : List String} (h : List.Forall₂ PartOf texts texts')
    {s : String} (hs : AppearIn texts' s) : AppearIn texts s := by
  induction h generalizing s with
  | nil => trivial
  | cons ht _ ih =>
    obtain ⟨pre, post, rfl, hrest⟩ := hs
    obtain ⟨pre', post', rfl⟩ := ht
    exact ⟨pre ++ pre', post' ++ post, by simp only [String.append_assoc],
      (ih hrest).prepend post'⟩

theorem appearIn_join {texts turns : List String} (h : List.Forall₂ PartOf texts turns)
    (rest : String) : AppearIn texts (String.join turns ++ rest) := by
  induction h with
  | nil => trivial
  | cons ht _ ih =>
    obtain ⟨pre, post, rfl⟩ := ht
    rw [String.join_cons]
    exact ⟨pre, _, by simp only [String.append_assoc], ih.prepend post⟩

/-! ## Messages -/

/-- The text of a part of a content. -/
def partText (part : Json) : String :=
  match part.field? "text" with
  | some (.string s) => s
  | _ => ""

/-- The text of a message. -/
def messageText (msg : Json) : String :=
  match msg.field? "content" with
  | some (.string s) => s
  | some (.array parts) => String.join (parts.map partText)
  | _ => ""

/-- A content that a client may send. -/
def AnyContent : Option Json → Prop
  | none | some .null | some (.string _) | some (.array _) => True
  | some _ => False

/-- A message of a client; its tool calls have been parsed, so they can be written. -/
structure OpenAIMessage (text : JsonText) (msg : Json) : Prop where
  isObject : msg.isObject = true
  role : Field isString msg "role"
  content : AnyContent (msg.field? "content")
  calls : ∀ calls ∈ toolCallsOf msg, text.encodes (.object [("tool_calls", calls)]) = true

/-- The content is a text, or absent. -/
def TextContent (msg : Json) : Prop := ∀ c ∈ msg.field? "content", c.isString = true

variable {text : JsonText} {msg : Json}

theorem field_iff (h : msg.isObject = true) (type : Json → Bool) (key : String) :
    Field type msg key ↔ ∀ v ∈ msg.field? key, type v = true := by
  cases msg with
  | object fields => exact Iff.rfl
  | _ => cases h

theorem OpenAIMessage.readable_iff (h : OpenAIMessage text msg) :
    MessageReadable text msg ↔ TextContent msg := by
  constructor
  · exact fun hread => (field_iff h.isObject isString "content").mp hread.content
  · intro htext
    exact ⟨h.role, (field_iff h.isObject isString "content").mpr htext,
      fun _ _ calls hcalls => h.calls calls hcalls⟩

theorem value_messageText (hobject : msg.isObject = true) (h : TextContent msg) :
    value getString msg "content" "" = .ok (messageText msg) := by
  unfold messageText
  cases msg with
  | object fields =>
    cases hfield : (Json.object fields).field? "content" with
    | none =>
      have hlookup : fields.lookup "content" = none := hfield
      unfold value
      dsimp only
      rw [hlookup]
    | some c =>
      have hlookup : fields.lookup "content" = some c := hfield
      have hc := h c hfield
      cases c with
      | string s =>
        unfold value
        dsimp only
        rw [hlookup]
        rfl
      | _ => cases hc
  | _ => cases hobject

/-! ## Templates -/

theorem partOf_self (s : String) : PartOf s s :=
  ⟨"", "", by rw [String.empty_append, String.append_empty]⟩

theorem partOf_empty (s : String) : PartOf "" s :=
  ⟨"", s, by rw [String.empty_append, String.empty_append]⟩

/-- Tool calls stand only where there is no text. -/
theorem resolveMessageContent_partOf {content : String} (hobject : msg.isObject = true)
    (htext : TextContent msg) (h : resolveMessageContent text msg = .ok content) :
    PartOf (messageText msg) content := by
  unfold resolveMessageContent at h
  rw [value_messageText hobject htext] at h
  obtain ⟨found, hfound, h⟩ := bind_eq_ok.mp h
  cases hfound
  split at h
  · rename_i hempty
    rw [hempty]
    exact partOf_empty content
  · cases h
    exact partOf_self _

theorem promptTurn_partOf (tmplHint role content : String) :
    PartOf content (promptTurn tmplHint role content) := by
  unfold promptTurn
  split
  · exact ⟨_, _, rfl⟩
  · have hresult : PartOf content (if role = "tool" then "[Tool result]\n" ++ content else content)
        := by
      split
      · exact ⟨"[Tool result]\n", "", by rw [String.append_empty]⟩
      · exact partOf_self content
    exact hresult.trans ⟨_, _, rfl⟩
  · exact ⟨_, _, rfl⟩
  · exact ⟨_, _, rfl⟩

theorem renderMessage_partOf {tmplHint turn : String} (hobject : msg.isObject = true)
    (htext : TextContent msg) (h : renderMessage text tmplHint msg = .ok turn) :
    PartOf (messageText msg) turn := by
  obtain ⟨role, -, h⟩ := bind_eq_ok.mp h
  obtain ⟨content, hcontent, h⟩ := bind_eq_ok.mp h
  cases h
  exact (resolveMessageContent_partOf hobject htext hcontent).trans (promptTurn_partOf _ _ _)

/-- A client's message whose content is a text, if any. -/
def PlainMessage (text : JsonText) (msg : Json) : Prop :=
  OpenAIMessage text msg ∧ TextContent msg

theorem applyChatTemplate_texts {messages : List Json} (tmplHint : String)
    (h : ∀ msg ∈ messages, PlainMessage text msg) :
    ∃ prompt, applyChatTemplate text (.array messages) tmplHint = .ok prompt ∧
      AppearIn (messages.map messageText) prompt := by
  have hok := (applyChatTemplate_isOk text (.array messages) tmplHint).mpr fun msg hmsg =>
    (h msg hmsg).1.readable_iff.mpr (h msg hmsg).2
  obtain ⟨prompt, hprompt⟩ := isOk_iff.mp hok
  refine ⟨prompt, hprompt, ?_⟩
  obtain ⟨turns, hturns, hjoin⟩ := bind_eq_ok.mp hprompt
  cases hjoin
  refine appearIn_join ?_ _
  rw [List.forall₂_map_left_iff]
  exact forall₂_of_mapM (fun msg hmsg turn =>
    renderMessage_partOf (h msg hmsg).1.isObject (h msg hmsg).2) hturns

/-! ## The merge -/

/-- The message with the instruction before its text. -/
def instructed (instr : String) (msg : Json) : Json :=
  msg.setField "content" (.string (instr ++ "\n\n" ++ messageText msg))

theorem instructed_plain (h : PlainMessage text msg) (instr : String) :
    PlainMessage text (instructed instr msg) ∧
      PartOf (messageText msg) (messageText (instructed instr msg)) := by
  obtain ⟨⟨hobject, hrole, -, hcalls⟩, -⟩ := h
  have hfield : (instructed instr msg).field? "content" = _ :=
    Json.field?_setField_self hobject "content" _
  have hobject' : (instructed instr msg).isObject = true := by
    cases msg with
    | object fields => rfl
    | _ => cases hobject
  have hsame : ∀ {key}, key ≠ "content" → (instructed instr msg).field? key = msg.field? key :=
    fun hne => Json.field?_setField_ne hne msg _
  refine ⟨⟨⟨hobject', ?_, ?_, ?_⟩, ?_⟩, ?_⟩
  · rw [field_iff hobject', hsame (by decide), ← field_iff hobject]
    exact hrole
  · rw [hfield]
    trivial
  · unfold toolCallsOf
    rw [hsame (by decide)]
    exact hcalls
  · intro c hc
    rw [hfield] at hc
    cases hc
    rfl
  · unfold messageText
    rw [hfield]
    exact ⟨instr ++ "\n\n", "", (String.append_empty).symm⟩

theorem mergeSystem_texts (instr : String) {messages : List Json}
    (h : ∀ msg ∈ messages, PlainMessage text msg) :
    ∃ r, mergeSystem instr messages = .ok r ∧ ∀ merged ∈ r,
      (∀ msg ∈ merged, PlainMessage text msg) ∧
      List.Forall₂ PartOf (messages.map messageText) (merged.map messageText) := by
  induction messages with
  | nil => exact ⟨none, rfl, fun _ hmerged => absurd hmerged (Option.not_mem_none _)⟩
  | cons msg messages ih =>
    obtain ⟨hmsg, hrest⟩ := List.forall_mem_cons.mp h
    obtain ⟨r, hr, hspec⟩ := ih hrest
    have hrole := Json.value_eq ((Json.valueString_isOk msg "role" "").mpr hmsg.1.role)
    have hself : ∀ ms : List Json,
        List.Forall₂ PartOf (ms.map messageText) (ms.map messageText) :=
      fun ms => List.forall₂_same.mpr fun t _ => partOf_self t
    rw [mergeSystem, hrole]
    by_cases hsystem : Json.valueAt getString msg "role" "" = "system"
    · obtain ⟨hplain, hpart⟩ := instructed_plain hmsg instr
      refine ⟨some (instructed instr msg :: messages), ?_, ?_⟩
      · change (if _ then _ else _) = _
        rw [if_pos hsystem, value_messageText hmsg.1.isObject hmsg.2]
        rfl
      · intro merged hmerged
        cases hmerged
        exact ⟨List.forall_mem_cons.mpr ⟨hplain, hrest⟩, .cons hpart (hself messages)⟩
    · refine ⟨r.map (msg :: ·), ?_, ?_⟩
      · change (if _ then _ else _) = _
        rw [if_neg hsystem, hr]
        rfl
      · intro merged hmerged
        obtain ⟨later, hlater, rfl⟩ := Option.map_eq_some_iff.mp hmerged
        obtain ⟨hplain, hpart⟩ := hspec later hlater
        exact ⟨List.forall_mem_cons.mpr ⟨hmsg, hplain⟩, .cons (partOf_self _) hpart⟩

/-- The prompt has the texts, with the instruction merged into the messages as well. -/
structure Prompted (text : JsonText) (tmplHint : String) (messages : List Json) : Prop where
  applied : ∃ prompt, applyChatTemplate text (.array messages) tmplHint = .ok prompt ∧
    AppearIn (messages.map messageText) prompt
  merged : ∀ instr, ∃ injected prompt, injectInto instr (.array messages) = .ok injected ∧
    applyChatTemplate text injected tmplHint = .ok prompt ∧
    AppearIn (messages.map messageText) prompt

theorem roleMessage_plain (text : JsonText) (role content : String) :
    PlainMessage text (roleMessage role content) := by
  refine ⟨⟨rfl, ?_, trivial, ?_⟩, ?_⟩
  · intro v hv
    cases hv
    rfl
  · intro calls hcalls
    cases hcalls
  · intro c hc
    cases hc
    rfl

theorem injectInto_texts (tmplHint instr : String) {messages : List Json}
    (h : ∀ msg ∈ messages, PlainMessage text msg) :
    ∃ injected prompt, injectInto instr (.array messages) = .ok injected ∧
      applyChatTemplate text injected tmplHint = .ok prompt ∧
      AppearIn (messages.map messageText) prompt := by
  obtain ⟨r, hr, hspec⟩ := mergeSystem_texts instr h
  cases r with
  | some merged =>
    obtain ⟨hplain, hpart⟩ := hspec merged rfl
    obtain ⟨prompt, hprompt, htexts⟩ := applyChatTemplate_texts tmplHint hplain
    exact ⟨.array merged, prompt, bind_eq_ok.mpr ⟨_, hr, rfl⟩, hprompt,
      htexts.of_partOf hpart⟩
  | none =>
    have hall := List.forall_mem_cons.mpr ⟨roleMessage_plain text "system" instr, h⟩
    obtain ⟨prompt, hprompt, htexts⟩ := applyChatTemplate_texts tmplHint hall
    exact ⟨_, prompt, bind_eq_ok.mpr ⟨_, hr, rfl⟩, hprompt, htexts.tail⟩

/-- Client messages are prompted just if each content is a text or absent. -/
theorem prompted_iff (tmplHint : String) {messages : List Json}
    (h : ∀ msg ∈ messages, OpenAIMessage text msg) :
    Prompted text tmplHint messages ↔ ∀ msg ∈ messages, TextContent msg := by
  constructor
  · rintro ⟨⟨prompt, hprompt, -⟩, -⟩ msg hmsg
    have hread := (applyChatTemplate_isOk text (.array messages) tmplHint).mp
      (isOk_iff.mpr ⟨prompt, hprompt⟩)
    exact (h msg hmsg).readable_iff.mp (hread msg hmsg)
  · intro htext
    have hplain : ∀ msg ∈ messages, PlainMessage text msg :=
      fun msg hmsg => ⟨h msg hmsg, htext msg hmsg⟩
    exact ⟨applyChatTemplate_texts tmplHint hplain,
      fun instr => injectInto_texts tmplHint instr hplain⟩

/-- A user's question. -/
def question : Json := roleMessage "user" "What time is it?"

/-- The turn of an assistant that calls a tool. -/
def nullTurn : Json :=
  .object [("content", .null), ("role", .string "assistant"),
    ("tool_calls", .array [.object [("id", .string "call_0")]])]

/-- An instruction, a question and its answer, and the question again. -/
def conversation : List Json :=
  [roleMessage "system" "Be brief.", question, roleMessage "assistant" "Noon.", question]

theorem conversation_prompted :
    Prompted { parse := fun _ => none, dump := fun _ => "" } "chatml" conversation ∧
      conversation.map messageText =
        ["Be brief.", "What time is it?", "Noon.", "What time is it?"] := by
  have hplain : ∀ msg ∈ conversation,
      PlainMessage { parse := fun _ => none, dump := fun _ => "" } msg := by
    unfold conversation question
    simp only [List.forall_mem_cons]
    exact ⟨roleMessage_plain _ _ _, roleMessage_plain _ _ _, roleMessage_plain _ _ _,
      roleMessage_plain _ _ _, fun _ h => absurd h List.not_mem_nil⟩
  exact ⟨(prompted_iff "chatml" fun msg hmsg => (hplain msg hmsg).1).mpr
    fun msg hmsg => (hplain msg hmsg).2, rfl⟩

/-- The conversation that tool use leaves is not prompted: the null is read as a text. -/
theorem null_content_throws :
    let text : JsonText := { parse := fun _ => none, dump := fun _ => "" }
    (∀ msg ∈ [question, nullTurn], OpenAIMessage text msg) ∧
      applyChatTemplate text (.array [question, nullTurn]) "chatml" = .error .mismatch ∧
      ¬ Prompted text "chatml" [question, nullTurn] := by
  intro text
  have hthrows : applyChatTemplate text (.array [question, nullTurn]) "chatml" =
      .error .mismatch := rfl
  refine ⟨?_, hthrows, ?_⟩
  · refine List.forall_mem_cons.mpr
      ⟨(roleMessage_plain text _ _).1, List.forall_mem_singleton.mpr ?_⟩
    refine ⟨rfl, ?_, trivial, fun _ _ => rfl⟩
    intro v hv
    cases hv
    rfl
  · rintro ⟨⟨prompt, hprompt, -⟩, -⟩
    rw [hthrows] at hprompt
    cases hprompt

end TruellmEngine.Server
