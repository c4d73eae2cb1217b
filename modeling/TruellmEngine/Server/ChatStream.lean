/-
  The answer of a chat completion on its way to the client: as one JSON document, or as the replay
  of it in a stream (tools were in play).

  The client of a stream appends what the deltas bring and is strict: a chunk of another
  completion, a delta behind the finish reason or anything behind `[DONE]` ends it.

  `replay_agrees`: the client of the replay and the one that reads the document get the same
  message and the same finish reason, whatever the model, the reasoning parser and the tools gave.
-/
import TruellmEngine.Bridge.SubCallUsage
import TruellmEngine.Server.SanitizeUtf8
import TruellmEngine.Server.SseReplay
import TruellmEngine.Server.StripToolCalls

namespace TruellmEngine.Server

open Lib Bridge

/-! ## The answer -/

/-- What the parser of the model's format makes of a text. -/
structure ChatParsedMessage where
  content : List UInt8
  reasoningContent : List UInt8 := []

/-- The answer and the reasoning behind the tool loop. `parser` is there where reasoning is
    active; `narrative` is what the tool rounds said. -/
def replyTexts (parser : Option (List UInt8 → ChatParsedMessage))
    (narrative result : List UInt8) : List UInt8 × List UInt8 :=
  let parsed : ChatParsedMessage :=
    match parser with
    | some finish => if result = [] then ⟨result, []⟩ else finish result
    | none => ⟨result, []⟩
  let reasoning :=
    if narrative = [] then parsed.reasoningContent
    else if parsed.reasoningContent = [] then narrative
    else narrative ++ bytes "\n\n" ++ parsed.reasoningContent
  (stripToolCallJson parsed.content, reasoning)

/-- `assistant_msg`. -/
def assistantMessage (texts : List UInt8 × List UInt8) (pending : List Json) : Json :=
  .object ([("content", .string (ofBytes (sanitizeUtf8 texts.1)))] ++
    (if texts.2 = [] then []
      else [("reasoning_content", .string (ofBytes (sanitizeUtf8 texts.2)))]) ++
    [("role", .string "assistant")] ++
    if pending = [] then [] else [("tool_calls", .array pending)])

/-- `usage`, with what the sub-calls used if there were any. -/
def usageJson (promptTokens generatedTokens : Nat) (research : Option ResearchUsage) : Json :=
  .object ([("completion_tokens", .integer (.ofNat generatedTokens)),
      ("prompt_tokens", .integer (.ofNat promptTokens))] ++
    (match research with
      | some r => [("research_completion_tokens", .integer r.researchCompletionTokens),
          ("research_prompt_tokens", .integer r.researchPromptTokens),
          ("research_subcall_count", .integer r.researchSubcallCount),
          ("research_total_tokens", .integer r.researchTotalTokens)]
      | none => []) ++
    [("total_tokens", .integer (.ofNat (promptTokens + generatedTokens)))])

def finishReasonOf (result : GenerateResult) : String :=
  if result.finishReason = "" then "stop" else result.finishReason

/-- The document of a completion. -/
def completionDocument (reqId modelId : String) (created : Int64) (usage message : Json)
    (finishReason : String) : Json :=
  .object [("choices", .array [.object [("finish_reason", .string finishReason),
      ("index", .integer 0), ("message", message)]]), ("created", .integer created),
    ("id", .string reqId), ("model", .string modelId), ("object", .string "chat.completion"),
    ("usage", usage)]

/-! ## Streams -/

/-- A delta and the finish reason beside it. -/
structure Delta where
  delta : Json
  finishReason : Json := .null

/-- `chat.completion.chunk`. -/
def Delta.chunk (reqId modelId : String) (d : Delta) : Json :=
  .object [("choices", .array [.object [("delta", d.delta), ("finish_reason", d.finishReason),
      ("index", .integer 0)]]),
    ("id", .string reqId), ("model", .string modelId),
    ("object", .string "chat.completion.chunk")]

section

variable (text : JsonText) (reqId modelId : String)

/-- One chunk of the stream. -/
def send (d : Delta) : Except TypeError String := do
  let dumped ← text.dumps (d.chunk reqId modelId)
  return "data: " ++ dumped ++ "\n\n"

/-- What goes to the sink: the chunks, and the end. -/
def chunkStream (ds : List Delta) : Except TypeError String := do
  let chunks ← ds.mapM (send text reqId modelId)
  return String.join chunks ++ "data: [DONE]\n\n"

end

def roleDelta : Delta := { delta := .object [("role", .string "assistant")] }

/-- A field of the message, if it is there. -/
def fieldDelta (message : Json) (key : String) : List Delta :=
  match message.field? key with
  | some v => [{ delta := .object [(key, v)] }]
  | none => []

/-- The content of the message, unless it is empty. -/
def contentDelta (message : Json) : Except TypeError (List Delta) :=
  match message.field? "content" with
  | some content => do
    let spoken ← Json.getString content
    return if spoken = "" then [] else [{ delta := .object [("content", content)] }]
  | none => .ok []

/-- The replay of a message: its role, its reasoning, its content, its calls and the finish
    reason. -/
def replayDeltas (message : Json) (finishReason : String) : Except TypeError (List Delta) := do
  let content ← contentDelta message
  return [roleDelta] ++ fieldDelta message "reasoning_content" ++ content ++
    fieldDelta message "tool_calls" ++
    [{ delta := .object [], finishReason := .string finishReason }]

def bufferedReplay (text : JsonText) (reqId modelId : String) (message : Json)
    (finishReason : String) : Except TypeError String := do
  chunkStream text reqId modelId (← replayDeltas message finishReason)

section

variable (text : JsonText) (reqId modelId : String)
  (parser : Option (List UInt8 → ChatParsedMessage)) (narrative : List UInt8)
  (result : GenerateResult) (handed : List Json)

/-- The end of a request that does not stream: `handed` are the calls left to the client, and
    `unset` is read from a count that nothing was stored to. -/
def plainReply (created : Int64) (unset : Nat) (ctx : Option Context) :
    Except TypeError String := do
  let pending ← canonicalToolCalls text handed
  text.dumps (completionDocument reqId modelId created
    (usageJson (result.promptTokens.getD unset) (result.generatedTokens.getD unset)
      (ctx.bind mergeSubcallUsage))
    (assistantMessage (replyTexts parser narrative result.text) pending)
    (finishReasonOf result))

/-- The end of a request that streams, with tools in play. -/
def streamReply : Except TypeError String := do
  let pending ← canonicalToolCalls text handed
  bufferedReplay text reqId modelId
    (assistantMessage (replyTexts parser narrative result.text) pending) (finishReasonOf result)

end

/-! ## The clients -/

/-- What a client of a stream has got so far. -/
structure Assembled where
  id : Option String := none
  role : Option String := none
  content : String := ""
  reasoning : Option String := none
  toolCalls : List Json := []
  finishReason : Option String := none
  done : Bool := false

/-- One chunk more. -/
def Assembled.extend (a : Assembled) (doc : Json) : Option Assembled := do
  guard ((doc.field? "object").bind string? = some "chat.completion.chunk")
  let id ← (doc.field? "id").bind string?
  guard (a.id = none ∨ a.id = some id)
  guard (a.finishReason = none)
  let choices ← doc.field? "choices"
  let choice ← choices.items.head?
  let delta ← choice.field? "delta"
  return { a with
    id := some id
    role := ((delta.field? "role").bind string?).or a.role
    content := a.content ++ ((delta.field? "content").bind string?).getD ""
    reasoning :=
      match (delta.field? "reasoning_content").bind string? with
      | some more => some (a.reasoning.getD "" ++ more)
      | none => a.reasoning
    toolCalls := a.toolCalls ++ ((delta.field? "tool_calls").map Json.items).getD []
    finishReason := (choice.field? "finish_reason").bind string? }

/-- One event more. -/
def Assembled.read (text : JsonText) (a : Assembled) (e : Sse.Event) : Option Assembled := do
  guard (e.name = "message".toList ∧ a.done = false)
  if e.data = "[DONE]".toList then return { a with done := true }
  else a.extend (← text.parse (bytes (String.ofList e.data)))

def readStream (text : JsonText) (out : String) : Option Assembled :=
  (Sse.decode out.toList).foldlM (Assembled.read text) {}

/-- The message that the deltas make. -/
def Assembled.message (a : Assembled) : Json :=
  .object ([("content", .string a.content)] ++
    (match a.reasoning with
      | some reasoning => [("reasoning_content", .string reasoning)]
      | none => []) ++
    (match a.role with
      | some role => [("role", .string role)]
      | none => []) ++
    if a.toolCalls = [] then [] else [("tool_calls", .array a.toolCalls)])

/-- The message of a document, and the finish reason. -/
def readCompletion (text : JsonText) (body : String) : Option (Json × String) := do
  let doc ← text.parse (bytes body)
  let choices ← doc.field? "choices"
  let choice ← choices.items.head?
  let message ← choice.field? "message"
  let finishReason ← (choice.field? "finish_reason").bind string?
  return (message, finishReason)

/-! ## Reading a stream -/

section

variable {text : JsonText} {reqId modelId : String}

/-- A chunk that is read back as it was sent. -/
def Delta.Written (text : JsonText) (d : Delta) : Prop :=
  text.Written d.delta ∧ text.Written d.finishReason

theorem send_eq_ok {d : Delta} {s : String} : send text reqId modelId d = .ok s ↔
    text.encodes (d.chunk reqId modelId) = true ∧
      "data: " ++ text.dump (d.chunk reqId modelId) ++ "\n\n" = s := by
  unfold send
  rw [bind_eq_ok]
  constructor
  · rintro ⟨dumped, hdumped, hs⟩
    obtain ⟨hencodes, rfl⟩ := dumps_eq_ok.mp hdumped
    exact ⟨hencodes, Except.ok.inj hs⟩
  · rintro ⟨hencodes, rfl⟩
    exact ⟨_, dumps_eq_ok.mpr ⟨hencodes, rfl⟩, rfl⟩

theorem sends_eq_ok {ds : List Delta} {chunks : List String} :
    ds.mapM (send text reqId modelId) = .ok chunks ↔
      (∀ d ∈ ds, text.encodes (d.chunk reqId modelId) = true) ∧
        ds.map (fun d => "data: " ++ text.dump (d.chunk reqId modelId) ++ "\n\n") = chunks := by
  induction ds generalizing chunks with
  | nil =>
    rw [List.mapM_nil]
    exact ⟨fun h => ⟨by simp, Except.ok.inj h⟩, fun h => congrArg Except.ok h.2⟩
  | cons d ds ih =>
    rw [List.mapM_cons, bind_eq_ok, List.forall_mem_cons, List.map_cons]
    constructor
    · rintro ⟨s, hs, hrest⟩
      obtain ⟨rest, hmore, hchunks⟩ := bind_eq_ok.mp hrest
      obtain ⟨hencodes, rfl⟩ := send_eq_ok.mp hs
      obtain ⟨hall, rfl⟩ := ih.mp hmore
      exact ⟨⟨hencodes, hall⟩, Except.ok.inj hchunks⟩
    · rintro ⟨⟨hencodes, hall⟩, rfl⟩
      exact ⟨_, send_eq_ok.mpr ⟨hencodes, rfl⟩, bind_eq_ok.mpr ⟨_, ih.mpr ⟨hall, rfl⟩, rfl⟩⟩

/-- The events of a stream. -/
def streamData (text : JsonText) (reqId modelId : String) (ds : List Delta) : List (List Char) :=
  (ds.map fun d => (text.dump (d.chunk reqId modelId)).toList) ++ ["[DONE]".toList]

theorem chunkStream_eq_ok {ds : List Delta} {out : String} :
    chunkStream text reqId modelId ds = .ok out ↔
      (∀ d ∈ ds, text.encodes (d.chunk reqId modelId) = true) ∧
        out.toList = (streamData text reqId modelId ds).flatMap Sse.dataFrame := by
  have htoList : (String.join (ds.map fun d => "data: " ++ text.dump (d.chunk reqId modelId) ++
      "\n\n") ++ "data: [DONE]\n\n").toList =
      (streamData text reqId modelId ds).flatMap Sse.dataFrame := by
    unfold streamData
    rw [String.toList_append, List.flatMap_append]
    congr 1
    induction ds with
    | nil => rfl
    | cons d ds ih =>
      rw [List.map_cons, String.join_cons, String.toList_append, ih, List.map_cons,
        List.flatMap_cons]
      congr 1
      simp only [String.toList_append]
      rfl
  unfold chunkStream
  rw [bind_eq_ok]
  constructor
  · rintro ⟨chunks, hchunks, hout⟩
    obtain ⟨hencodes, rfl⟩ := sends_eq_ok.mp hchunks
    rw [← Except.ok.inj hout]
    exact ⟨hencodes, htoList⟩
  · rintro ⟨hencodes, hout⟩
    refine ⟨_, sends_eq_ok.mpr ⟨hencodes, rfl⟩, congrArg Except.ok ?_⟩
    rw [← String.toList_inj, htoList, hout]

theorem chunk_written {d : Delta} (h : d.Written text) : text.Written (d.chunk reqId modelId) := by
  have hindex : text.Written (.integer 0) := .integer _
  have hchoice : text.Written (.object [("delta", d.delta), ("finish_reason", d.finishReason),
      ("index", .integer 0)]) :=
    written_object ["delta", "finish_reason", "index"] rfl (by decide) (by simp [h.1, h.2, hindex])
  have hchoices : text.Written (.array [.object [("delta", d.delta),
      ("finish_reason", d.finishReason), ("index", .integer 0)]]) := .array (by simp [hchoice])
  exact written_object ["choices", "id", "model", "object"] rfl (by decide)
    (by simp [JsonText.Written.string, hchoices])

/-- The client with one chunk more. -/
def Assembled.more (a : Assembled) (reqId : String) (d : Delta) : Assembled :=
  { a with
    id := some reqId
    role := ((d.delta.canon.field? "role").bind string?).or a.role
    content := a.content ++ ((d.delta.canon.field? "content").bind string?).getD ""
    reasoning :=
      match (d.delta.canon.field? "reasoning_content").bind string? with
      | some more => some (a.reasoning.getD "" ++ more)
      | none => a.reasoning
    toolCalls := a.toolCalls ++ ((d.delta.canon.field? "tool_calls").map Json.items).getD []
    finishReason := string? d.finishReason.canon }

theorem extend_chunk {a : Assembled} (hid : a.id = none ∨ a.id = some reqId)
    (hfinish : a.finishReason = none) (d : Delta) :
    a.extend (d.chunk reqId modelId).canon = some (a.more reqId d) := by
  unfold Assembled.extend
  refine (guard_bind rfl _).trans ?_
  refine (guard_bind hid _).trans ?_
  exact guard_bind hfinish _

/-- The client with the chunks of a stream. -/
def Assembled.all (reqId : String) (ds : List Delta) : Assembled :=
  ds.foldl (fun a d => a.more reqId d) {}

/-- The deltas of a stream: each is read back, and only the last one may have a finish reason. -/
structure StreamOk (text : JsonText) (ds : List Delta) : Prop where
  written : ∀ d ∈ ds, d.Written text
  finish : ∀ d ∈ ds.dropLast, d.finishReason = .null

theorem read_chunk (hf : text.Faithful) (hend : text.parse (bytes "[DONE]") = none)
    {a : Assembled} (hid : a.id = none ∨ a.id = some reqId) (hfinish : a.finishReason = none)
    (hdone : a.done = false) {d : Delta} (hd : d.Written text)
    (hencodes : text.encodes (d.chunk reqId modelId) = true) :
    a.read text ⟨"message".toList, (text.dump (d.chunk reqId modelId)).toList⟩ =
      some (a.more reqId d) := by
  have hback := hf.readsBack (chunk_written hd) hencodes
  have hnot : (text.dump (d.chunk reqId modelId)).toList ≠ "[DONE]".toList := by
    intro h
    rw [String.toList_inj.mp h, hend] at hback
    cases hback
  unfold Assembled.read
  refine (guard_bind ⟨rfl, hdone⟩ _).trans ?_
  rw [if_neg hnot, String.ofList_toList, hback]
  exact extend_chunk hid hfinish d

theorem foldlM_read (hf : text.Faithful) (hend : text.parse (bytes "[DONE]") = none)
    {ds : List Delta} (hds : StreamOk text ds)
    (hencodes : ∀ d ∈ ds, text.encodes (d.chunk reqId modelId) = true) {a : Assembled}
    (hid : a.id = none ∨ a.id = some reqId) (hfinish : a.finishReason = none)
    (hdone : a.done = false) :
    ((ds.map fun d => (text.dump (d.chunk reqId modelId)).toList).map
        fun data => (⟨"message".toList, data⟩ : Sse.Event)).foldlM (Assembled.read text) a =
      some (ds.foldl (fun a d => a.more reqId d) a) := by
  induction ds generalizing a with
  | nil => rfl
  | cons d ds ih =>
    obtain ⟨hd, hmore⟩ := List.forall_mem_cons.mp hds.written
    obtain ⟨hone, hall⟩ := List.forall_mem_cons.mp hencodes
    rw [List.map_cons, List.map_cons, List.foldlM_cons,
      read_chunk hf hend hid hfinish hdone hd hone, List.foldl_cons]
    cases ds with
    | nil => rfl
    | cons e ds =>
      have hnull : d.finishReason = .null := hds.finish d (by simp)
      have hrest : StreamOk text (e :: ds) := by
        refine ⟨hmore, fun f hf => hds.finish f ?_⟩
        rw [List.dropLast_cons_of_ne_nil (by simp)]
        exact List.mem_cons_of_mem d hf
      have hopen : (a.more reqId d).finishReason = none := by
        show string? d.finishReason.canon = none
        rw [hnull]
        rfl
      exact ih hrest hall (Or.inr rfl) hopen hdone

/-- A stream is read to its end, and its client has all its deltas. -/
theorem readStream_chunks (hf : text.Faithful) (hend : text.parse (bytes "[DONE]") = none)
    {ds : List Delta} (hds : StreamOk text ds) {out : String}
    (hout : chunkStream text reqId modelId ds = .ok out) :
    readStream text out = some { Assembled.all reqId ds with done := true } := by
  obtain ⟨hencodes, hlist⟩ := chunkStream_eq_ok.mp hout
  have hlines : ∀ data ∈ streamData text reqId modelId ds, Sse.OneLine data := by
    intro data hdata
    rcases List.mem_append.mp hdata with hdata | hdata
    · obtain ⟨d, hd, rfl⟩ := List.mem_map.mp hdata
      exact hf.oneLine (hencodes d hd)
    · rw [List.mem_singleton.mp hdata]
      decide
  have hopen : ∀ (ds : List Delta) (a : Assembled), a.done = false →
      (ds.foldl (fun a d => a.more reqId d) a).done = false := by
    intro ds
    induction ds with
    | nil => exact fun _ h => h
    | cons d ds ih => exact fun a h => ih (a.more reqId d) h
  unfold readStream
  rw [hlist, Sse.decode_dataFrames hlines]
  unfold streamData
  rw [List.map_append, List.foldlM_append, foldlM_read hf hend hds hencodes (Or.inl rfl) rfl rfl]
  show Assembled.read text (Assembled.all reqId ds) ⟨"message".toList, "[DONE]".toList⟩ >>= pure = _
  unfold Assembled.read
  rw [bind_pure]
  refine (guard_bind ⟨rfl, hopen ds {} rfl⟩ _).trans ?_
  rw [if_pos rfl]
  rfl

/-! ## The replay -/

/-- A document that is read back as it is. -/
def Plain (text : JsonText) (j : Json) : Prop := text.Written j ∧ j.canon = j

theorem canonicalToolCalls_plain {raw calls : List Json}
    (h : canonicalToolCalls text raw = .ok calls) : ∀ c ∈ calls, Plain text c := by
  refine forall_of_mapM ?_ h
  intro c _ call hcall
  obtain ⟨fn, -, hcall⟩ := bind_eq_ok.mp hcall
  obtain ⟨id, -, hcall⟩ := bind_eq_ok.mp hcall
  obtain ⟨name, -, hcall⟩ := bind_eq_ok.mp hcall
  obtain ⟨args, -, hcall⟩ := bind_eq_ok.mp hcall
  rw [← Except.ok.inj hcall]
  have hfn : text.Written (.object [("arguments", .string args), ("name", .string name)]) :=
    written_object ["arguments", "name"] rfl (by decide) (by simp [JsonText.Written.string])
  exact ⟨written_object ["function", "id", "type"] rfl (by decide)
    (by simp [JsonText.Written.string, hfn]), rfl⟩

theorem canons_plain {xs : List Json} (h : ∀ x ∈ xs, Plain text x) : Json.canons xs = xs := by
  rw [Json.canons_eq_map]
  exact (List.map_congr_left fun x hx => (h x hx).2).trans (List.map_id xs)

/-- An optional delta. -/
def optional (p : Prop) [Decidable p] (key : String) (v : Json) : List Delta :=
  if p then [] else [{ delta := .object [(key, v)] }]

/-- The deltas of the replay of an answer. -/
def answerDeltas (texts : List UInt8 × List UInt8) (pending : List Json) (finishReason : String) :
    List Delta :=
  [roleDelta] ++
    optional (texts.2 = []) "reasoning_content" (.string (ofBytes (sanitizeUtf8 texts.2))) ++
    optional (ofBytes (sanitizeUtf8 texts.1) = "") "content"
      (.string (ofBytes (sanitizeUtf8 texts.1))) ++
    optional (pending = []) "tool_calls" (.array pending) ++
    [{ delta := .object [], finishReason := .string finishReason }]

theorem field_reasoning (texts : List UInt8 × List UInt8) (pending : List Json) :
    (assistantMessage texts pending).field? "reasoning_content" =
      if texts.2 = [] then none else some (.string (ofBytes (sanitizeUtf8 texts.2))) := by
  unfold assistantMessage
  by_cases hreasoning : texts.2 = []
  · rw [if_pos hreasoning, if_pos hreasoning]
    by_cases hpending : pending = []
    · rw [if_pos hpending]
      rfl
    · rw [if_neg hpending]
      rfl
  · rw [if_neg hreasoning, if_neg hreasoning]
    rfl

theorem field_toolCalls (texts : List UInt8 × List UInt8) (pending : List Json) :
    (assistantMessage texts pending).field? "tool_calls" =
      if pending = [] then none else some (.array pending) := by
  unfold assistantMessage
  by_cases hpending : pending = []
  · rw [if_pos hpending, if_pos hpending]
    by_cases hreasoning : texts.2 = []
    · rw [if_pos hreasoning]
      rfl
    · rw [if_neg hreasoning]
      rfl
  · rw [if_neg hpending, if_neg hpending]
    by_cases hreasoning : texts.2 = []
    · rw [if_pos hreasoning]
      rfl
    · rw [if_neg hreasoning]
      rfl

theorem replayDeltas_assistantMessage (texts : List UInt8 × List UInt8) (pending : List Json)
    (finishReason : String) : replayDeltas (assistantMessage texts pending) finishReason =
      .ok (answerDeltas texts pending finishReason) := by
  have hcontent : contentDelta (assistantMessage texts pending) =
      .ok (optional (ofBytes (sanitizeUtf8 texts.1) = "") "content"
        (.string (ofBytes (sanitizeUtf8 texts.1)))) := rfl
  have hreasoning : fieldDelta (assistantMessage texts pending) "reasoning_content" =
      optional (texts.2 = []) "reasoning_content"
        (.string (ofBytes (sanitizeUtf8 texts.2))) := by
    unfold fieldDelta optional
    rw [field_reasoning]
    by_cases h : texts.2 = []
    · rw [if_pos h, if_pos h]
    · rw [if_neg h, if_neg h]
  have hcalls : fieldDelta (assistantMessage texts pending) "tool_calls" =
      optional (pending = []) "tool_calls" (.array pending) := by
    unfold fieldDelta optional
    rw [field_toolCalls]
    by_cases h : pending = []
    · rw [if_pos h, if_pos h]
    · rw [if_neg h, if_neg h]
  unfold replayDeltas answerDeltas
  rw [hcontent, hreasoning, hcalls]
  rfl

theorem more_role (a : Assembled) : a.more reqId roleDelta =
    { a with id := some reqId, role := some "assistant", finishReason := none } := by
  show Assembled.mk (some reqId) (some "assistant") (a.content ++ "") a.reasoning
    (a.toolCalls ++ []) none a.done = _
  rw [String.append_empty, List.append_nil]

theorem more_reasoning (a : Assembled) (more : String) :
    a.more reqId { delta := .object [("reasoning_content", .string more)] } =
      { a with
        id := some reqId, reasoning := some (a.reasoning.getD "" ++ more)
        finishReason := none } := by
  show Assembled.mk (some reqId) a.role (a.content ++ "") (some (a.reasoning.getD "" ++ more))
    (a.toolCalls ++ []) none a.done = _
  rw [String.append_empty, List.append_nil]

theorem more_content (a : Assembled) (more : String) :
    a.more reqId { delta := .object [("content", .string more)] } =
      { a with id := some reqId, content := a.content ++ more, finishReason := none } := by
  show Assembled.mk (some reqId) a.role (a.content ++ more) a.reasoning (a.toolCalls ++ [])
    none a.done = _
  rw [List.append_nil]

theorem more_calls (a : Assembled) (pending : List Json) :
    a.more reqId { delta := .object [("tool_calls", .array pending)] } =
      { a with
        id := some reqId, toolCalls := a.toolCalls ++ Json.canons pending
        finishReason := none } := by
  show Assembled.mk (some reqId) a.role (a.content ++ "") a.reasoning
    (a.toolCalls ++ Json.canons pending) none a.done = _
  rw [String.append_empty]

theorem more_finish (a : Assembled) (finishReason : String) :
    a.more reqId { delta := .object [], finishReason := .string finishReason } =
      { a with id := some reqId, finishReason := some finishReason } := by
  show Assembled.mk (some reqId) a.role (a.content ++ "") a.reasoning (a.toolCalls ++ [])
    (some finishReason) a.done = _
  rw [String.append_empty, List.append_nil]

/-- The client of a replay. -/
theorem all_answerDeltas {texts : List UInt8 × List UInt8} {pending : List Json}
    (hpending : ∀ c ∈ pending, Plain text c) (finishReason : String) :
    Assembled.all reqId (answerDeltas texts pending finishReason) =
      { id := some reqId
        role := some "assistant"
        content := ofBytes (sanitizeUtf8 texts.1)
        reasoning := if texts.2 = [] then none else some (ofBytes (sanitizeUtf8 texts.2))
        toolCalls := pending
        finishReason := some finishReason
        done := false } := by
  have hcanons := canons_plain hpending
  unfold Assembled.all answerDeltas optional
  by_cases hempty : ofBytes (sanitizeUtf8 texts.1) = "" <;>
    by_cases hreasoning : texts.2 = [] <;> by_cases hnone : pending = [] <;>
    simp [hempty, hreasoning, hnone, more_role, more_reasoning, more_content, more_calls,
      more_finish, hcanons]

/-- A client of the replay makes the message of the document of its deltas. -/
theorem message_answer (texts : List UInt8 × List UInt8) (pending : List Json)
    (finishReason : String) (done : Bool) :
    Assembled.message
      { id := some reqId
        role := some "assistant"
        content := ofBytes (sanitizeUtf8 texts.1)
        reasoning := if texts.2 = [] then none else some (ofBytes (sanitizeUtf8 texts.2))
        toolCalls := pending
        finishReason := some finishReason
        done := done } = assistantMessage texts pending := by
  unfold Assembled.message assistantMessage
  by_cases hreasoning : texts.2 = []
  · rw [if_pos hreasoning, if_pos hreasoning]
  · rw [if_neg hreasoning, if_neg hreasoning]

theorem optional_written {p : Prop} [Decidable p] {key : String} {v : Json}
    (hv : text.Written v) : ∀ d ∈ optional p key v, d.Written text := by
  unfold optional
  split
  · simp
  · intro d hd
    rw [List.mem_singleton.mp hd]
    exact ⟨written_object [key] rfl (List.pairwise_singleton _ _) (by simp [hv]), .null⟩

theorem answerDeltas_ok (texts : List UInt8 × List UInt8) {pending : List Json}
    (hpending : ∀ c ∈ pending, Plain text c) (finishReason : String) :
    StreamOk text (answerDeltas texts pending finishReason) := by
  have hnull : ∀ (p : Prop) [Decidable p] (key : String) (v : Json),
      ∀ d ∈ optional p key v, d.finishReason = .null := by
    intro p _ key v d hd
    unfold optional at hd
    split at hd
    · cases hd
    · rw [List.mem_singleton.mp hd]
  constructor
  · have hrole : roleDelta.Written text :=
      ⟨written_object ["role"] rfl (by decide) (by simp [JsonText.Written.string]), .null⟩
    have hfinish : Delta.Written text
        { delta := .object [], finishReason := .string finishReason } :=
      ⟨.object (by decide) (by simp), .string _⟩
    unfold answerDeltas
    simp only [List.forall_mem_append, List.forall_mem_singleton]
    exact ⟨⟨⟨⟨hrole, optional_written (.string _)⟩, optional_written (.string _)⟩,
      optional_written (.array fun c hc => (hpending c hc).1)⟩, hfinish⟩
  · unfold answerDeltas
    rw [List.dropLast_concat]
    simp only [List.forall_mem_append, List.forall_mem_singleton]
    exact ⟨⟨⟨rfl, hnull _ _ _⟩, hnull _ _ _⟩, hnull _ _ _⟩

/-- What a document can be written with can be sent. -/
theorem chunk_encodes (hf : text.Faithful) (hid : text.encodes (.string reqId) = true)
    (hmodel : text.encodes (.string modelId) = true) {d : Delta}
    (hdelta : text.encodes d.delta = true) (hfinish : text.encodes d.finishReason = true) :
    text.encodes (d.chunk reqId modelId) = true := by
  have hindex := hf.encodes_integer 0
  have hname := hf.encodes_ascii (s := "chat.completion.chunk") (by decide)
  have hchoice : text.encodes (.object [("delta", d.delta), ("finish_reason", d.finishReason),
      ("index", .integer 0)]) = true :=
    encodes_object_of hf ["delta", "finish_reason", "index"] rfl (by decide)
      (by simp [hdelta, hfinish, hindex])
  have hchoices : text.encodes (.array [.object [("delta", d.delta),
      ("finish_reason", d.finishReason), ("index", .integer 0)]]) = true :=
    hf.encodes_array.mpr (by simp [hchoice])
  exact encodes_object_of hf ["choices", "id", "model", "object"] rfl (by decide)
    (by simp [hchoices, hid, hmodel, hname])

theorem optional_encodes (hf : text.Faithful) {p : Prop} [Decidable p] {key : String}
    (hkey : JsonText.Ascii key) {v : Json} (hv : ¬ p → text.encodes v = true) :
    ∀ d ∈ optional p key v, text.encodes d.delta = true ∧ text.encodes d.finishReason = true := by
  unfold optional
  split
  · simp
  · rename_i h
    intro d hd
    rw [List.mem_singleton.mp hd]
    exact ⟨encodes_object_of hf [key] rfl (by simp [hkey]) (by simp [hv h]), hf.encodes_null⟩

theorem message_plain (texts : List UInt8 × List UInt8) {pending : List Json}
    (hpending : ∀ c ∈ pending, Plain text c) : Plain text (assistantMessage texts pending) := by
  have hcalls : text.Written (.array pending) := .array fun c hc => (hpending c hc).1
  have hcanons := canons_plain hpending
  unfold assistantMessage
  by_cases hreasoning : texts.2 = []
  · by_cases hnone : pending = []
    · rw [if_pos hreasoning, if_pos hnone]
      exact ⟨written_object ["content", "role"] rfl (by decide)
        (by simp [JsonText.Written.string]), rfl⟩
    · rw [if_pos hreasoning, if_neg hnone]
      refine ⟨written_object ["content", "role", "tool_calls"] rfl (by decide)
        (by simp [JsonText.Written.string, hcalls]), ?_⟩
      simp [Json.canon, Json.canonFields, hcanons]
  · by_cases hnone : pending = []
    · rw [if_neg hreasoning, if_pos hnone]
      exact ⟨written_object ["content", "reasoning_content", "role"] rfl (by decide)
        (by simp [JsonText.Written.string]), rfl⟩
    · rw [if_neg hreasoning, if_neg hnone]
      refine ⟨written_object ["content", "reasoning_content", "role", "tool_calls"] rfl
        (by decide) (by simp [JsonText.Written.string, hcalls]), ?_⟩
      simp [Json.canon, Json.canonFields, hcanons]

theorem usage_written (promptTokens generatedTokens : Nat) (research : Option ResearchUsage) :
    text.Written (usageJson promptTokens generatedTokens research) := by
  have hint : ∀ i, text.Written (.integer i) := fun i => .integer i
  cases research with
  | none =>
    exact written_object ["completion_tokens", "prompt_tokens", "total_tokens"] rfl (by decide)
      (by simp [hint])
  | some r =>
    exact written_object ["completion_tokens", "prompt_tokens", "research_completion_tokens",
      "research_prompt_tokens", "research_subcall_count", "research_total_tokens",
      "total_tokens"] rfl (by decide) (by simp [hint])

/-- The choices of a document are read back where its message is. -/
theorem choices_written {message : Json} (hmessage : text.Written message)
    (finishReason : String) : text.Written (.array [.object [("finish_reason",
      .string finishReason), ("index", .integer 0), ("message", message)]]) := by
  have hindex : text.Written (.integer 0) := .integer _
  have hchoice : text.Written (.object [("finish_reason", .string finishReason),
      ("index", .integer 0), ("message", message)]) :=
    written_object ["finish_reason", "index", "message"] rfl (by decide)
      (by simp [JsonText.Written.string, hindex, hmessage])
  exact .array (by simp [hchoice])

theorem document_written {created : Int64} {usage message : Json} {finishReason : String}
    (husage : text.Written usage) (hmessage : text.Written message) :
    text.Written (completionDocument reqId modelId created usage message finishReason) := by
  have hcreated : text.Written (.integer created) := .integer _
  exact written_object ["choices", "created", "id", "model", "object", "usage"] rfl (by decide)
    (by simp [JsonText.Written.string, hcreated, husage, choices_written hmessage])

/-- The reader of the document gets the message and the finish reason. -/
theorem readCompletion_document (hf : text.Faithful) {created : Int64} {usage message : Json}
    {finishReason body : String} (husage : text.Written usage) (hmessage : Plain text message)
    (hbody : text.dumps
      (completionDocument reqId modelId created usage message finishReason) = .ok body) :
    readCompletion text body = some (message, finishReason) := by
  obtain ⟨hencodes, rfl⟩ := dumps_eq_ok.mp hbody
  unfold readCompletion
  rw [hf.readsBack (document_written husage hmessage.1) hencodes]
  show some (message.canon, finishReason) = _
  rw [hmessage.2]

/-- The texts of a message that can be written. -/
theorem answerDeltas_encode (hf : text.Faithful) {texts : List UInt8 × List UInt8}
    {pending : List Json} {finishReason : String}
    (hmessage : text.encodes (assistantMessage texts pending) = true)
    (hfinish : text.encodes (.string finishReason) = true) :
    ∀ d ∈ answerDeltas texts pending finishReason,
      text.encodes d.delta = true ∧ text.encodes d.finishReason = true := by
  have hfields := hf.encodes_object.mp hmessage
  have hcontent := (hfields ("content", _) List.mem_cons_self).2
  have hreasoning : ¬ texts.2 = [] →
      text.encodes (.string (ofBytes (sanitizeUtf8 texts.2))) = true := fun h =>
    (hfields ("reasoning_content", .string (ofBytes (sanitizeUtf8 texts.2)))
      (by simp [h])).2
  have hcalls : ¬ pending = [] → text.encodes (.array pending) = true := fun h =>
    (hfields ("tool_calls", .array pending) (by simp [h])).2
  have hrole : text.encodes roleDelta.delta = true :=
    encodes_object_of hf ["role"] rfl (by decide)
      (by simp [hf.encodes_ascii (s := "assistant") (by decide)])
  have hempty : text.encodes (.object []) = true := hf.encodes_object.mpr (by simp)
  unfold answerDeltas
  simp only [List.forall_mem_append, List.forall_mem_singleton]
  exact ⟨⟨⟨⟨⟨hrole, hf.encodes_null⟩, optional_encodes hf (by decide) hreasoning⟩,
    optional_encodes hf (by decide) fun _ => hcontent⟩,
    optional_encodes hf (by decide) hcalls⟩, hempty, hfinish⟩

/-- A client that streams gets the answer of one that does not. Whatever the tool loop left
    (a text, reasoning, calls for the client), if the document can be written then so can the
    stream, it is read to its end, and the deltas make the message of the document, with its
    finish reason. -/
theorem replay_agrees (hf : text.Faithful) (hend : text.parse (bytes "[DONE]") = none)
    {parser : Option (List UInt8 → ChatParsedMessage)} {narrative : List UInt8}
    {result : GenerateResult} {handed : List Json} {created : Int64} {unset : Nat}
    {ctx : Option Context} {body : String}
    (hbody : plainReply text reqId modelId parser narrative result handed created unset ctx =
      .ok body) :
    ∃ out a, streamReply text reqId modelId parser narrative result handed = .ok out ∧
      readStream text out = some a ∧ a.done = true ∧ a.id = some reqId ∧
      readCompletion text body = some (a.message, finishReasonOf result) ∧
      a.finishReason = some (finishReasonOf result) := by
  obtain ⟨pending, hpending, hbody⟩ := bind_eq_ok.mp hbody
  have hplain := canonicalToolCalls_plain hpending
  -- what the document is made of can be written
  have hdoc := hf.encodes_object.mp (dumps_eq_ok.mp hbody).1
  have hid := (hdoc ("id", .string reqId) (by simp)).2
  have hmodel := (hdoc ("model", .string modelId) (by simp)).2
  have hchoice := hf.encodes_object.mp
    (hf.encodes_array.mp (hdoc ("choices", _) List.mem_cons_self).2 _ List.mem_cons_self)
  have hfinish := (hchoice ("finish_reason", _) List.mem_cons_self).2
  have hmessage := (hchoice ("message", _)
    (List.mem_cons_of_mem _ (List.mem_cons_of_mem _ List.mem_cons_self))).2
  have hsend := answerDeltas_encode hf hmessage hfinish
  obtain ⟨out, hout⟩ : ∃ out, chunkStream text reqId modelId
      (answerDeltas (replyTexts parser narrative result.text) pending (finishReasonOf result)) =
        .ok out := by
    refine ⟨String.ofList ((streamData text reqId modelId _).flatMap Sse.dataFrame),
      chunkStream_eq_ok.mpr ⟨fun d hd => ?_, String.toList_ofList⟩⟩
    exact chunk_encodes hf hid hmodel (hsend d hd).1 (hsend d hd).2
  have hstream : streamReply text reqId modelId parser narrative result handed = .ok out :=
    bind_eq_ok.mpr ⟨pending, hpending,
      bind_eq_ok.mpr ⟨_, replayDeltas_assistantMessage _ _ _, hout⟩⟩
  have hread := readStream_chunks hf hend
    (answerDeltas_ok (replyTexts parser narrative result.text) hplain (finishReasonOf result)) hout
  rw [all_answerDeltas hplain] at hread
  refine ⟨out, _, hstream, hread, rfl, rfl, ?_, rfl⟩
  rw [message_answer]
  exact readCompletion_document hf (usage_written _ _ _) (message_plain _ hplain) hbody

end

/-- `[DONE]` is no document. -/
theorem parse_done : CanonicalJson.canonical.parse (bytes "[DONE]") = none := by
  have hchars : CanonicalJson.chars (bytes "[DONE]") = "[DONE]".toList := by decide
  rw [CanonicalJson.canonical_parse]
  unfold CanonicalJson.parse
  rw [hchars]
  rfl

/-- Prose and a call, with reasoning from a tool round. -/
theorem replay_agrees_tools : ∃ body out a,
    plainReply CanonicalJson.canonical "chatcmpl-1" "m" none (bytes "I search.")
      { text := bytes " Done.", finishReason := "" } [plainCall] 0 0 none = .ok body ∧
    streamReply CanonicalJson.canonical "chatcmpl-1" "m" none (bytes "I search.")
      { text := bytes " Done.", finishReason := "" } [plainCall] = .ok out ∧
    readStream CanonicalJson.canonical out = some a ∧ a.done = true ∧
      a.id = some "chatcmpl-1" ∧
      readCompletion CanonicalJson.canonical body = some (a.message, "stop") ∧
      a.finishReason = some "stop" := by
  obtain ⟨body, hbody⟩ : ∃ body, plainReply CanonicalJson.canonical "chatcmpl-1" "m" none
      (bytes "I search.") { text := bytes " Done.", finishReason := "" } [plainCall] 0 0 none =
        .ok body :=
    ⟨_, bind_eq_ok.mpr ⟨_, rfl, dumps_eq_ok.mpr ⟨by decide +kernel, rfl⟩⟩⟩
  obtain ⟨out, a, h⟩ := replay_agrees CanonicalJson.canonical_faithful parse_done hbody
  exact ⟨body, out, a, hbody, h⟩

end TruellmEngine.Server
