/-
  Tool calls over both translators: the answer of chat completions becomes a message of the
  Anthropic interface, and its content comes back as an assistant turn of the next request.

  `toolCalls_round_trip`: the turn becomes one message again, with the text and the calls that
  were answered. The arguments are written anew, so their text may differ, but not the document
  that it stands for.
-/
import Mathlib.Data.List.Forall2
import TruellmEngine.Server.AnthropicRouter
import TruellmEngine.Server.SseReplay

namespace TruellmEngine.Server

open Lib
open Lib.Json (value getString getInt Field isString isArithmetic)

/-! ## Canonical messages -/

/-- A call as `canonicalToolCalls` leaves it. -/
structure ToolCall where
  id : String
  name : String
  arguments : String

structure AssistantMessage where
  content : String
  reasoning : Option String
  toolCalls : List ToolCall

namespace ToolCall

def function (c : ToolCall) : Json :=
  .object [("arguments", .string c.arguments), ("name", .string c.name)]

def json (c : ToolCall) : Json :=
  .object [("function", c.function), ("id", .string c.id), ("type", .string "function")]

end ToolCall

/-- The content is there even if it is empty, `reasoning_content` and `tool_calls` are not. -/
def AssistantMessage.json (m : AssistantMessage) : Json :=
  .object (("content", .string m.content) ::
    (m.reasoning.toList.map fun r => ("reasoning_content", .string r)) ++
    ("role", .string "assistant") ::
    if m.toolCalls.isEmpty then [] else [("tool_calls", .array (m.toolCalls.map ToolCall.json))])

theorem canonicalCall_json {text : JsonText} {idx : Nat} {c j : Json}
    (h : canonicalCall text idx c = .ok j) : ∃ call : ToolCall, call.json = j := by
  obtain ⟨fn, -, h⟩ := bind_eq_ok.mp h
  obtain ⟨id, -, h⟩ := bind_eq_ok.mp h
  obtain ⟨name, -, h⟩ := bind_eq_ok.mp h
  obtain ⟨args, -, h⟩ := bind_eq_ok.mp h
  cases h
  exact ⟨⟨id, name, args⟩, rfl⟩

/-- The calls that leave the handler of chat completions are canonical. -/
theorem canonicalToolCalls_json {text : JsonText} {calls out : List Json}
    (h : canonicalToolCalls text calls = .ok out) :
    ∀ j ∈ out, ∃ call : ToolCall, call.json = j :=
  forall_of_mapM (fun _ _ _ hj => canonicalCall_json hj) h

/-! ## The response -/

/-- The response has the message in its first choice, and what is read beside it has its
    type. -/
structure Answers (oresp : Json) (m : AssistantMessage) : Prop where
  message : (firstChoice oresp).field? "message" = some m.json
  finish : Field isString (firstChoice oresp) "finish_reason"
  model : Field isString oresp "model"
  promptTokens : Field isArithmetic (fieldOrEmpty oresp "usage") "prompt_tokens"
  completionTokens : Field isArithmetic (fieldOrEmpty oresp "usage") "completion_tokens"

/-- What the sub-calls of a request have used. -/
structure Research where
  prompt : Int64
  completion : Int64
  count : Int64

/-- The answer of chat completions without a stream, apart from its message. -/
structure Completion where
  reqId : String
  created : Int64
  modelId : String
  finishReason : String
  promptTokens : Int32
  generatedTokens : Int32
  research : Research

/-- `merge_subcall_usage`: the fields between the counts of the request itself. -/
def Research.fields (r : Research) : List (String × Json) :=
  if r.count ≤ 0 then []
  else [("research_completion_tokens", .integer r.completion),
    ("research_prompt_tokens", .integer r.prompt),
    ("research_subcall_count", .integer r.count),
    ("research_total_tokens", .integer (r.prompt + r.completion))]

def chatCompletion (c : Completion) (m : AssistantMessage) : Json :=
  .object [
    ("choices", .array [.object [
      ("finish_reason", .string (if c.finishReason = "" then "stop" else c.finishReason)),
      ("index", .integer 0), ("message", m.json)]]),
    ("created", .integer c.created), ("id", .string c.reqId), ("model", .string c.modelId),
    ("object", .string "chat.completion"),
    ("usage", .object (("completion_tokens", intJson c.generatedTokens) ::
      ("prompt_tokens", intJson c.promptTokens) :: c.research.fields ++
      [("total_tokens", intJson (c.promptTokens + c.generatedTokens))]))]

theorem chatCompletion_answers (c : Completion) (m : AssistantMessage) :
    Answers (chatCompletion c m) m where
  message := rfl
  finish v hv := by
    cases hv
    rfl
  model v hv := by
    cases hv
    rfl
  promptTokens v hv := by
    cases hv
    rfl
  completionTokens v hv := by
    cases hv
    rfl

section

variable {text : JsonText} {m : AssistantMessage}

theorem value_content (m : AssistantMessage) :
    value getString m.json "content" "" = .ok m.content := rfl

theorem value_reasoning (m : AssistantMessage) :
    value getString m.json "reasoning_content" "" = .ok (m.reasoning.getD "") := by
  obtain ⟨content, reasoning, toolCalls⟩ := m
  cases reasoning with
  | none =>
    cases toolCalls with
    | nil => rfl
    | cons c cs => rfl
  | some r => rfl

theorem calls_json (m : AssistantMessage) : calls m.json = m.toolCalls.map ToolCall.json := by
  obtain ⟨content, reasoning, toolCalls⟩ := m
  cases reasoning with
  | none =>
    cases toolCalls with
    | nil => rfl
    | cons c cs => rfl
  | some r =>
    cases toolCalls with
    | nil => rfl
    | cons c cs => rfl

variable (text)

/-- The block of a call. -/
def ToolCall.block (c : ToolCall) : Json :=
  toolUseBlock c.id c.name (parsedInput text c.function)

/-- The call as it comes back. -/
def ToolCall.resent (c : ToolCall) : ToolCall :=
  { c with arguments := text.dump (parsedInput text c.function) }

variable {text}

theorem translateResponse_content (newId : String) {oresp : Json} (h : Answers oresp m) :
    ∃ amsg, translateResponse text newId oresp = .ok amsg ∧ amsg.field? "content" =
      some (.array (replyContent (m.reasoning.getD "") m.content
        (m.toolCalls.map (ToolCall.block text)))) := by
  obtain ⟨finish, hfinish⟩ := isOk_iff.mp
    ((Json.value_isOk Json.getString_isOk _ _ "stop").mpr h.finish)
  obtain ⟨model, hmodel⟩ := isOk_iff.mp
    ((Json.value_isOk Json.getString_isOk _ _ "default").mpr h.model)
  obtain ⟨prompt, hprompt⟩ := isOk_iff.mp
    ((Json.value_isOk Json.getInt_isOk _ _ 0).mpr h.promptTokens)
  obtain ⟨completion, hcompletion⟩ := isOk_iff.mp
    ((Json.value_isOk Json.getInt_isOk _ _ 0).mpr h.completionTokens)
  have hmsg : fieldOrEmpty (firstChoice oresp) "message" = m.json := by
    unfold fieldOrEmpty
    rw [h.message]
    rfl
  have hcalls : (calls m.json).mapM (translateCall text) =
      .ok (m.toolCalls.map (ToolCall.block text)) := by
    rw [calls_json, List.mapM_map]
    exact mapM_eq_ok fun c _ => rfl
  unfold translateResponse
  simp only [hmsg, hfinish, value_content, value_reasoning, hcalls, hmodel, hprompt,
    hcompletion]
  exact ⟨_, rfl, rfl⟩

/-! ## The turn -/

/-- A turn of the assistant in a request. -/
def assistantTurn (content : Json) : Json :=
  .object [("content", content), ("role", .string "assistant")]

theorem turnBlocks_thinking (reasoning : String) (blks : List Json) (t : TurnBlocks) :
    turnBlocks text (thinkingBlock reasoning :: blks) t = turnBlocks text blks t := rfl

theorem turnBlocks_text (answer : String) (blks : List Json) (t : TurnBlocks) :
    turnBlocks text (textBlock answer :: blks) t = turnBlocks text blks (t.addText answer) := rfl

theorem turnBlocks_block (hf : text.Faithful) (c : ToolCall) (blks : List Json)
    (t : TurnBlocks) : turnBlocks text (c.block text :: blks) t =
      turnBlocks text blks { t with toolCalls := t.toolCalls ++ [(c.resent text).json] } := by
  have hdumps : text.dumps (parsedInput text c.function) =
      .ok (text.dump (parsedInput text c.function)) := if_pos (parsedInput_encodes hf _)
  have huse : toolUse text (c.block text) = .ok (c.resent text).json := by
    show (do
      let arguments ← text.dumps (parsedInput text c.function)
      return Json.object [("function", .object [("arguments", .string arguments),
        ("name", .string c.name)]), ("id", .string c.id), ("type", .string "function")]) = _
    rw [hdumps]
    rfl
  show (do
    let call ← toolUse text (c.block text)
    turnBlocks text blks { t with toolCalls := t.toolCalls ++ [call] }) = _
  rw [huse]
  rfl

theorem turnBlocks_calls (hf : text.Faithful) (cs : List ToolCall) (t : TurnBlocks) :
    turnBlocks text (cs.map (ToolCall.block text)) t =
      .ok { t with toolCalls := t.toolCalls ++ cs.map fun c => (c.resent text).json } := by
  induction cs generalizing t with
  | nil =>
    rw [List.map_nil, List.map_nil, List.append_nil]
    rfl
  | cons c cs ih =>
    rw [List.map_cons, turnBlocks_block hf, ih, List.map_cons, List.append_assoc,
      List.singleton_append]

/-- The reasoning is passed over, and the text has one block at most. -/
theorem turnBlocks_replyContent (hf : text.Faithful) (reasoning answer : String)
    (cs : List ToolCall) :
    turnBlocks text (replyContent reasoning answer (cs.map (ToolCall.block text))) {} =
      .ok { text := answer, toolCalls := cs.map fun c => (c.resent text).json } := by
  have hrest : turnBlocks text ((if answer = "" then [] else [textBlock answer]) ++
      cs.map (ToolCall.block text)) {} =
        .ok { text := answer, toolCalls := cs.map fun c => (c.resent text).json } := by
    split
    · rename_i hanswer
      subst hanswer
      exact turnBlocks_calls hf cs {}
    · rw [List.singleton_append, turnBlocks_text, turnBlocks_calls hf]
      show Except.ok (TurnBlocks.mk ("" ++ answer) _ _) = _
      rw [String.empty_append]
      rfl
  have hall : turnBlocks text ((if reasoning = "" then [] else [thinkingBlock reasoning]) ++
      (if answer = "" then [] else [textBlock answer]) ++ cs.map (ToolCall.block text)) {} =
        .ok { text := answer, toolCalls := cs.map fun c => (c.resent text).json } := by
    rw [List.append_assoc]
    split
    · exact hrest
    · rw [List.singleton_append, turnBlocks_thinking]
      exact hrest
  -- the block that stands for nothing has the empty text
  have hone : ∀ (content : List Json) (t : TurnBlocks), turnBlocks text content {} = .ok t →
      turnBlocks text (if content.isEmpty then [textBlock ""] else content) {} = .ok t := by
    intro content t h
    cases content with
    | nil => exact h
    | cons blk blks => exact h
  exact hone _ _ hall

theorem translateMessages_turn (hf : text.Faithful) (reasoning answer : String)
    (cs : List ToolCall) :
    translateMessages text (.array [assistantTurn (.array
        (replyContent reasoning answer (cs.map (ToolCall.block text))))]) =
      .ok [(AssistantMessage.mk answer none (cs.map (ToolCall.resent text))).json] := by
  have hone : translateMessage text (assistantTurn (.array
      (replyContent reasoning answer (cs.map (ToolCall.block text))))) =
        .ok [(AssistantMessage.mk answer none (cs.map (ToolCall.resent text))).json] := by
    show (do
      let t ← turnBlocks text (replyContent reasoning answer (cs.map (ToolCall.block text))) {}
      if "assistant" = "assistant" ∧ t.toolCalls ≠ [] then
        return t.toolResults ++ [Json.object [("content", .string t.text),
          ("role", .string "assistant"), ("tool_calls", .array t.toolCalls)]]
      else if t.text ≠ "" ∨ t.toolResults = [] then
        return t.toolResults ++ [roleMessage "assistant" t.text]
      else return t.toolResults) = _
    have hjson : (cs.map fun c => (c.resent text).json) =
        (cs.map (ToolCall.resent text)).map ToolCall.json := by
      rw [List.map_map]
      rfl
    rw [turnBlocks_replyContent hf, hjson]
    generalize cs.map (ToolCall.resent text) = sent
    cases sent with
    | nil =>
      show (if answer ≠ "" ∨ ([] : List Json) = [] then _ else _) = _
      rw [if_pos (.inr rfl)]
      rfl
    | cons c cs => rfl
  show (do return (← [assistantTurn _].mapM (translateMessage text)).flatten) = _
  rw [List.mapM_cons, hone]
  rfl

/-! ## The round trip -/

variable (text)

/-- The same call; its arguments stand for the same document. -/
structure SameCall (c c' : ToolCall) : Prop where
  id : c'.id = c.id
  name : c'.name = c.name
  arguments : ∃ j j', text.parse (bytes c.arguments) = some j ∧
    text.parse (bytes c'.arguments) = some j' ∧ j'.canon = j.canon

def ObjectArguments (c : ToolCall) : Prop :=
  ∃ j, text.parse (bytes c.arguments) = some j ∧ j.isObject = true

variable {text}

theorem resent_same (hf : text.Faithful) {c : ToolCall} (h : ObjectArguments text c) :
    SameCall text c (c.resent text) := by
  obtain ⟨j, hparse, hobject⟩ := h
  have hinput : parsedInput text c.function = j := by
    show ((text.parse (bytes c.arguments)).filter Json.isObject).getD (.object []) = j
    rw [hparse, Option.filter_some, if_pos hobject]
    rfl
  have hback : text.parse (bytes (text.dump j)) = some j.canon :=
    hf.readsBack (.parsed hparse) (hf.encodes_parsed hparse)
  refine ⟨rfl, rfl, j, j.canon, hparse, ?_, Json.canon_canon j⟩
  show text.parse (bytes (text.dump (parsedInput text c.function))) = _
  rw [hinput, hback]

theorem toolCalls_round_trip (hf : text.Faithful) (newId : String) {oresp : Json}
    (hanswers : Answers oresp m) (harguments : ∀ c ∈ m.toolCalls, ObjectArguments text c) :
    ∃ amsg content, translateResponse text newId oresp = .ok amsg ∧
      amsg.field? "content" = some content ∧
      ∃ m' : AssistantMessage,
        translateMessages text (.array [assistantTurn content]) = .ok [m'.json] ∧
        m'.content = m.content ∧ m'.reasoning = none ∧
        List.Forall₂ (SameCall text) m.toolCalls m'.toolCalls := by
  obtain ⟨amsg, hamsg, hcontent⟩ := translateResponse_content newId hanswers
  refine ⟨amsg, _, hamsg, hcontent, _, translateMessages_turn hf _ m.content m.toolCalls, rfl,
    rfl, ?_⟩
  rw [List.forall₂_map_right_iff, List.forall₂_same]
  exact fun c hc => resent_same hf (harguments c hc)

end

/-- A message with reasoning and two calls, one of them with the arguments of `plainCall`. -/
def twoCalls : AssistantMessage where
  content := "I look."
  reasoning := some "so"
  toolCalls := [⟨"1", "f", "\x7b\"n\":[-5]\x7d"⟩, ⟨"2", "g", "\x7b\x7d"⟩]

def twoCallsCompletion : Completion := ⟨"req", 0, "m", "tool_calls", 3, 7, ⟨0, 0, 0⟩⟩

theorem twoCalls_arguments :
    ∀ c ∈ twoCalls.toolCalls, ObjectArguments CanonicalJson.canonical c := by
  have hplain : "\x7b\"n\":[-5]\x7d" = String.ofList (CanonicalJson.print plainInput) := by decide
  have hempty : "\x7b\x7d" = String.ofList (CanonicalJson.print (.object [])) := by decide
  intro c hc
  rcases List.mem_pair.mp hc with rfl | rfl
  · refine ⟨plainInput.canon, ?_, rfl⟩
    show CanonicalJson.canonical.parse (bytes "\x7b\"n\":[-5]\x7d") = _
    rw [hplain, CanonicalJson.canonical_parse]
    exact CanonicalJson.parse_print (by decide) (by decide)
  · refine ⟨(Json.object []).canon, ?_, rfl⟩
    show CanonicalJson.canonical.parse (bytes "\x7b\x7d") = _
    rw [hempty, CanonicalJson.canonical_parse]
    exact CanonicalJson.parse_print (by decide) (by decide)

theorem twoCalls_round_trip : ∃ amsg content,
    translateResponse CanonicalJson.canonical "msg_1"
      (chatCompletion twoCallsCompletion twoCalls) = .ok amsg ∧
    amsg.field? "content" = some content ∧
    ∃ m' : AssistantMessage,
      translateMessages CanonicalJson.canonical (.array [assistantTurn content]) =
        .ok [m'.json] ∧
      m'.content = twoCalls.content ∧ m'.reasoning = none ∧
      List.Forall₂ (SameCall CanonicalJson.canonical) twoCalls.toolCalls m'.toolCalls :=
  toolCalls_round_trip CanonicalJson.canonical_faithful "msg_1"
    (chatCompletion_answers twoCallsCompletion twoCalls) twoCalls_arguments

end TruellmEngine.Server
