/-
  Replies of the Anthropic interface: the response of chat completions as an Anthropic message,
  and the message as the events of a stream.

  A message is made of blocks of three shapes; `Reply` has a message with its shapes known, and
  `translateResponse_reply` says that every translated response is one. Each shape is replayed
  as three events, and `renderSseStream_eq_ok` says when the stream is written and what it
  then is.
-/
import TruellmEngine.Lib.JsonText
import TruellmEngine.Lib.Sse

namespace TruellmEngine.Server

open Lib
open Lib.Json (value getString getInt)

/-! ## The message -/

/-- What is answered: the first of the choices. -/
def firstChoice (oresp : Json) : Json :=
  match oresp.field? "choices" with
  | some (.array (choice :: _)) => choice
  | _ => .object []

/-- The field, or an empty object. -/
def fieldOrEmpty (j : Json) (key : String) : Json := (j.field? key).getD (.object [])

def calls (msg : Json) : List Json :=
  match msg.field? "tool_calls" with
  | some (.array tcs) => tcs
  | _ => []

def thinkingBlock (reasoning : String) : Json :=
  .object [("thinking", .string reasoning), ("type", .string "thinking")]

def textBlock (answer : String) : Json :=
  .object [("text", .string answer), ("type", .string "text")]

def toolUseBlock (id name : String) (input : Json) : Json :=
  .object [("id", .string id), ("input", input), ("name", .string name),
    ("type", .string "tool_use")]

def intJson (i : Int32) : Json := .integer i.toInt64

def stopReason (finish : String) : String :=
  if finish = "length" then "max_tokens" else if finish = "tool_calls" then "tool_use"
  else "end_turn"

/-- The blocks of a message; there is always one. -/
def replyContent (reasoning answer : String) (toolUses : List Json) : List Json :=
  let content := (if reasoning = "" then [] else [thinkingBlock reasoning]) ++
    (if answer = "" then [] else [textBlock answer]) ++ toolUses
  if content.isEmpty then [textBlock ""] else content

section

variable (text : JsonText)

/-- The arguments of a call. What cannot be read, or is no object, is an empty object. -/
def parsedInput (fn : Json) : Json :=
  match value getString fn "arguments" "{}" with
  | .ok arguments => ((text.parse (bytes arguments)).filter Json.isObject).getD (.object [])
  | .error _ => .object []

def translateCall (tc : Json) : Except TypeError Json := do
  let fn := fieldOrEmpty tc "function"
  let id ← value getString tc "id" ""
  let name ← value getString fn "name" ""
  return toolUseBlock id name (parsedInput text fn)

def translateResponse (newId : String) (oresp : Json) : Except TypeError Json := do
  let choice := firstChoice oresp
  let msg := fieldOrEmpty choice "message"
  let finish ← value getString choice "finish_reason" "stop"
  let answer ← value getString msg "content" ""
  let reasoning ← value getString msg "reasoning_content" ""
  let toolUses ← (calls msg).mapM (translateCall text)
  let usage := fieldOrEmpty oresp "usage"
  let model ← value getString oresp "model" "default"
  let inputTokens ← value getInt usage "prompt_tokens" 0
  let outputTokens ← value getInt usage "completion_tokens" 0
  return .object [("content", .array (replyContent reasoning answer toolUses)),
    ("id", .string newId), ("model", .string model), ("role", .string "assistant"),
    ("stop_reason", .string (stopReason finish)), ("stop_sequence", .null),
    ("type", .string "message"),
    ("usage", .object [("input_tokens", intJson inputTokens),
      ("output_tokens", intJson outputTokens)])]

/-! ## The stream -/

/-- One frame of the stream. -/
def sse (event : String) (data : Json) : Except TypeError String := do
  return "event: " ++ event ++ "\ndata: " ++ (← text.dumps data) ++ "\n\n"

/-- The field `key` of a message; a message has those that are asked for. -/
def fieldAt (j : Json) (key : String) : Json := (j.field? key).getD .null

def messageStart (amsg : Json) : Json :=
  .object [
    ("message", .object [("content", .array []), ("id", fieldAt amsg "id"),
      ("model", fieldAt amsg "model"), ("role", .string "assistant"), ("stop_reason", .null),
      ("stop_sequence", .null), ("type", .string "message"),
      ("usage", .object [("input_tokens", fieldAt (fieldAt amsg "usage") "input_tokens"),
        ("output_tokens", intJson 0)])]),
    ("type", .string "message_start")]

def blockStart (idx : Int32) (block : Json) : Json :=
  .object [("content_block", block), ("index", intJson idx),
    ("type", .string "content_block_start")]

def blockDelta (idx : Int32) (delta : Json) : Json :=
  .object [("delta", delta), ("index", intJson idx), ("type", .string "content_block_delta")]

def blockStop (idx : Int32) : Json :=
  .object [("index", intJson idx), ("type", .string "content_block_stop")]

def thinkingDelta (thinking : String) : Json :=
  .object [("thinking", .string thinking), ("type", .string "thinking_delta")]

def textDelta (more : String) : Json :=
  .object [("text", .string more), ("type", .string "text_delta")]

def inputDelta (partialJson : String) : Json :=
  .object [("partial_json", .string partialJson), ("type", .string "input_json_delta")]

def messageDelta (amsg : Json) : Json :=
  .object [
    ("delta", .object [("stop_reason", fieldAt amsg "stop_reason"), ("stop_sequence", .null)]),
    ("type", .string "message_delta"),
    ("usage", .object [("output_tokens", fieldAt (fieldAt amsg "usage") "output_tokens")])]

def messageStop : Json := .object [("type", .string "message_stop")]

/-- The frames of a block. -/
def sseBlock (idx : Int32) (blk : Json) : Except TypeError String := do
  let bt ← value getString blk "type" "text"
  if bt = "thinking" then
    let started ← sse text "content_block_start" (blockStart idx (thinkingBlock ""))
    let thinking ← value getString blk "thinking" ""
    let delta ← sse text "content_block_delta" (blockDelta idx (thinkingDelta thinking))
    let stopped ← sse text "content_block_stop" (blockStop idx)
    return started ++ delta ++ stopped
  else if bt = "tool_use" then
    let id ← value getString blk "id" ""
    let name ← value getString blk "name" ""
    let started ← sse text "content_block_start"
      (blockStart idx (toolUseBlock id name (.object [])))
    let partialJson ← text.dumps (fieldOrEmpty blk "input")
    let delta ← sse text "content_block_delta" (blockDelta idx (inputDelta partialJson))
    let stopped ← sse text "content_block_stop" (blockStop idx)
    return started ++ delta ++ stopped
  else
    let started ← sse text "content_block_start" (blockStart idx (textBlock ""))
    let answer ← value getString blk "text" ""
    let delta ← sse text "content_block_delta" (blockDelta idx (textDelta answer))
    let stopped ← sse text "content_block_stop" (blockStop idx)
    return started ++ delta ++ stopped

def sseBlocks (idx : Int32) : List Json → Except TypeError String
  | [] => .ok ""
  | blk :: blks => do
    let first ← sseBlock text idx blk
    return first ++ (← sseBlocks (idx + 1) blks)

def renderSseStream (amsg : Json) : Except TypeError String := do
  let started ← sse text "message_start" (messageStart amsg)
  let blocks ← sseBlocks text 0 (fieldAt amsg "content").items
  let delta ← sse text "message_delta" (messageDelta amsg)
  let stopped ← sse text "message_stop" messageStop
  return started ++ blocks ++ delta ++ stopped

end

/-! ## Replies -/

/-- The shapes of a block. -/
inductive Block
  | thinking (reasoning : String)
  | text (answer : String)
  | toolUse (id name : String) (input : Json)

structure Reply where
  id : String
  model : String
  content : List Block
  stopReason : String
  inputTokens : Int32
  outputTokens : Int32

def Block.json : Block → Json
  | .thinking reasoning => thinkingBlock reasoning
  | .text answer => textBlock answer
  | .toolUse id name input => toolUseBlock id name input

/-- The block as it is when its stream starts. -/
def Block.opening : Block → Json
  | .thinking _ => thinkingBlock ""
  | .text _ => textBlock ""
  | .toolUse id name _ => toolUseBlock id name (.object [])

def Reply.json (r : Reply) : Json :=
  .object [("content", .array (r.content.map Block.json)), ("id", .string r.id),
    ("model", .string r.model), ("role", .string "assistant"),
    ("stop_reason", .string r.stopReason), ("stop_sequence", .null), ("type", .string "message"),
    ("usage", .object [("input_tokens", intJson r.inputTokens),
      ("output_tokens", intJson r.outputTokens)])]

section

variable (text : JsonText)

/-- The input of a call is a document that was read, or empty. -/
def Block.Read : Block → Prop
  | .toolUse _ _ input => text.Written input ∧ input.isObject = true
  | _ => True

variable {text}

theorem parsedInput_read (id name : String) (fn : Json) :
    Block.Read text (.toolUse id name (parsedInput text fn)) := by
  have hempty : text.Written (.object []) ∧ (Json.object []).isObject = true :=
    ⟨.object (by decide) (by simp), rfl⟩
  show text.Written (parsedInput text fn) ∧ (parsedInput text fn).isObject = true
  unfold parsedInput
  split
  · rename_i arguments _
    cases hj : (text.parse (bytes arguments)).filter Json.isObject with
    | none => exact hempty
    | some j =>
      obtain ⟨hparsed, hobject⟩ := Option.filter_eq_some_iff.mp hj
      exact ⟨.parsed hparsed, hobject⟩
  · exact hempty

theorem translateCall_block {tc blk : Json} (h : translateCall text tc = .ok blk) :
    ∃ b : Block, b.json = blk ∧ b.Read text := by
  obtain ⟨id, -, h⟩ := bind_eq_ok.mp h
  obtain ⟨name, -, h⟩ := bind_eq_ok.mp h
  cases h
  exact ⟨.toolUse id name _, rfl, parsedInput_read id name _⟩

/-- Blocks one by one are blocks together. -/
theorem exists_blocks {blks : List Json}
    (h : ∀ blk ∈ blks, ∃ b : Block, b.json = blk ∧ b.Read text) :
    ∃ bs : List Block, bs.map Block.json = blks ∧ ∀ b ∈ bs, b.Read text := by
  induction blks with
  | nil => exact ⟨[], rfl, by simp⟩
  | cons blk blks ih =>
    obtain ⟨⟨b, hb, hread⟩, hblks⟩ := List.forall_mem_cons.mp h
    obtain ⟨bs, hbs, hreads⟩ := ih hblks
    exact ⟨b :: bs, by rw [List.map_cons, hb, hbs], List.forall_mem_cons.mpr ⟨hread, hreads⟩⟩

theorem mem_replyContent {reasoning answer : String} {toolUses : List Json} {blk : Json}
    (h : blk ∈ replyContent reasoning answer toolUses) :
    blk = thinkingBlock reasoning ∨ blk = textBlock answer ∨ blk = textBlock "" ∨
      blk ∈ toolUses := by
  have hthinking : ∀ b ∈ (if reasoning = "" then [] else [thinkingBlock reasoning]),
      b = thinkingBlock reasoning := by
    intro b hb
    rw [List.mem_ite_nil_left] at hb
    exact List.mem_singleton.mp hb.2
  have htext : ∀ b ∈ (if answer = "" then [] else [textBlock answer]), b = textBlock answer := by
    intro b hb
    rw [List.mem_ite_nil_left] at hb
    exact List.mem_singleton.mp hb.2
  unfold replyContent at h
  dsimp only at h
  rw [apply_ite (blk ∈ ·)] at h
  generalize (if reasoning = "" then [] else [thinkingBlock reasoning]) = thinking at h hthinking
  generalize (if answer = "" then [] else [textBlock answer]) = texts at h htext
  split at h
  · exact .inr (.inr (.inl (List.mem_singleton.mp h)))
  · rw [List.mem_append, List.mem_append] at h
    rcases h with (h | h) | h
    · exact .inl (hthinking blk h)
    · exact .inr (.inl (htext blk h))
    · exact .inr (.inr (.inr h))

/-- A translated response is a reply whose inputs were read. -/
theorem translateResponse_reply {newId : String} {oresp amsg : Json}
    (h : translateResponse text newId oresp = .ok amsg) :
    ∃ r : Reply, r.json = amsg ∧ ∀ b ∈ r.content, b.Read text := by
  obtain ⟨finish, -, h⟩ := bind_eq_ok.mp h
  obtain ⟨answer, -, h⟩ := bind_eq_ok.mp h
  obtain ⟨reasoning, -, h⟩ := bind_eq_ok.mp h
  obtain ⟨toolUses, htoolUses, h⟩ := bind_eq_ok.mp h
  obtain ⟨model, -, h⟩ := bind_eq_ok.mp h
  obtain ⟨inputTokens, -, h⟩ := bind_eq_ok.mp h
  obtain ⟨outputTokens, -, h⟩ := bind_eq_ok.mp h
  cases h
  have hblocks : ∀ blk ∈ replyContent reasoning answer toolUses,
      ∃ b : Block, b.json = blk ∧ b.Read text := by
    intro blk hblk
    rcases mem_replyContent hblk with rfl | rfl | rfl | hblk
    · exact ⟨.thinking reasoning, rfl, trivial⟩
    · exact ⟨.text answer, rfl, trivial⟩
    · exact ⟨.text "", rfl, trivial⟩
    · exact forall_of_mapM (fun tc _ blk hblk => translateCall_block hblk) htoolUses blk hblk
  obtain ⟨bs, hbs, hreads⟩ := exists_blocks hblocks
  rw [← hbs]
  exact ⟨⟨newId, model, bs, _, inputTokens, outputTokens⟩, rfl, hreads⟩

/-! ## The events of a reply -/

variable (text)

/-- What the stream adds to the opening of a block. -/
def Block.delta : Block → Json
  | .thinking reasoning => thinkingDelta reasoning
  | .text answer => textDelta answer
  | .toolUse _ _ input => inputDelta (text.dump input)

def Block.events (idx : Int32) (b : Block) : List (String × Json) :=
  [("content_block_start", blockStart idx b.opening),
    ("content_block_delta", blockDelta idx (b.delta text)),
    ("content_block_stop", blockStop idx)]

def blocksEvents (idx : Int32) : List Block → List (String × Json)
  | [] => []
  | b :: bs => b.events text idx ++ blocksEvents (idx + 1) bs

def Reply.events (r : Reply) : List (String × Json) :=
  ("message_start", messageStart r.json) :: blocksEvents text 0 r.content ++
    [("message_delta", messageDelta r.json), ("message_stop", messageStop)]

/-- The frames of events. -/
def frames (events : List (String × Json)) : String :=
  String.join (events.map fun e =>
    "event: " ++ e.1 ++ "\ndata: " ++ text.dump e.2 ++ "\n\n")

def AllEncode (events : List (String × Json)) : Prop := ∀ e ∈ events, text.encodes e.2 = true

/-- The input of a call can be written. -/
def Block.InputEncodes : Block → Prop
  | .toolUse _ _ input => text.encodes input = true
  | _ => True

variable {text}

theorem frames_append (es fs : List (String × Json)) :
    frames text (es ++ fs) = frames text es ++ frames text fs := by
  unfold frames
  rw [List.map_append, String.join_append]

theorem allEncode_append {es fs : List (String × Json)} :
    AllEncode text (es ++ fs) ↔ AllEncode text es ∧ AllEncode text fs :=
  List.forall_mem_append

theorem dumps_eq_ok {j : Json} {s : String} :
    text.dumps j = .ok s ↔ text.encodes j = true ∧ text.dump j = s := by
  unfold JsonText.dumps
  split
  · rename_i h
    rw [h, Except.ok.injEq]
    simp
  · rename_i h
    simp [h]

theorem sse_eq_ok {event s : String} {data : Json} :
    sse text event data = .ok s ↔
      AllEncode text [(event, data)] ∧ frames text [(event, data)] = s := by
  unfold sse AllEncode frames
  rw [bind_eq_ok]
  constructor
  · rintro ⟨dumped, hdumped, hs⟩
    obtain ⟨hencodes, rfl⟩ := dumps_eq_ok.mp hdumped
    refine ⟨by simpa using hencodes, ?_⟩
    rw [← Except.ok.inj hs]
    simp
  · rintro ⟨hencodes, hs⟩
    refine ⟨_, dumps_eq_ok.mpr ⟨by simpa using hencodes, rfl⟩, ?_⟩
    rw [← hs]
    simp [pure, Except.pure]

/-- Three frames in a row. -/
theorem sse_three_eq_ok {e₁ e₂ e₃ s : String} {d₁ d₂ d₃ : Json} :
    (do
      let a ← sse text e₁ d₁
      let b ← sse text e₂ d₂
      let c ← sse text e₃ d₃
      return a ++ b ++ c) = .ok s ↔
      AllEncode text [(e₁, d₁), (e₂, d₂), (e₃, d₃)] ∧
        frames text [(e₁, d₁), (e₂, d₂), (e₃, d₃)] = s := by
  have hencode : AllEncode text [(e₁, d₁), (e₂, d₂), (e₃, d₃)] ↔
      AllEncode text [(e₁, d₁)] ∧ AllEncode text [(e₂, d₂)] ∧ AllEncode text [(e₃, d₃)] := by
    simp [AllEncode]
  have hframes : frames text [(e₁, d₁), (e₂, d₂), (e₃, d₃)] =
      frames text [(e₁, d₁)] ++ frames text [(e₂, d₂)] ++ frames text [(e₃, d₃)] := by
    rw [← frames_append, ← frames_append]
    rfl
  simp only [bind_eq_ok, sse_eq_ok, hencode, hframes, pure, Except.pure, Except.ok.injEq]
  constructor
  · rintro ⟨a, ⟨h₁, rfl⟩, b, ⟨h₂, rfl⟩, c, ⟨h₃, rfl⟩, rfl⟩
    exact ⟨⟨h₁, h₂, h₃⟩, rfl⟩
  · rintro ⟨⟨h₁, h₂, h₃⟩, rfl⟩
    exact ⟨_, ⟨h₁, rfl⟩, _, ⟨h₂, rfl⟩, _, ⟨h₃, rfl⟩, rfl⟩

theorem sseBlock_eq_ok {idx : Int32} {b : Block} {s : String} :
    sseBlock text idx b.json = .ok s ↔
      (b.InputEncodes text ∧ AllEncode text (b.events text idx)) ∧
        frames text (b.events text idx) = s := by
  cases b with
  | thinking reasoning =>
    show _ ↔ (True ∧ _) ∧ _
    rw [true_and]
    exact sse_three_eq_ok
  | text answer =>
    show _ ↔ (True ∧ _) ∧ _
    rw [true_and]
    exact sse_three_eq_ok
  | toolUse id name input =>
    -- the input is written before its frame
    have hsplit : sseBlock text idx (Block.toolUse id name input).json = .ok s ↔
        text.encodes input = true ∧
          (do
            let a ← sse text "content_block_start"
              (blockStart idx (toolUseBlock id name (.object [])))
            let b ← sse text "content_block_delta"
              (blockDelta idx (inputDelta (text.dump input)))
            let c ← sse text "content_block_stop" (blockStop idx)
            return a ++ b ++ c) = .ok s := by
      show (do
        let a ← sse text "content_block_start"
          (blockStart idx (toolUseBlock id name (.object [])))
        let p ← text.dumps input
        let b ← sse text "content_block_delta" (blockDelta idx (inputDelta p))
        let c ← sse text "content_block_stop" (blockStop idx)
        return a ++ b ++ c) = .ok s ↔ _
      simp only [bind_eq_ok, dumps_eq_ok]
      constructor
      · rintro ⟨a, ha, p, ⟨hinput, rfl⟩, hrest⟩
        exact ⟨hinput, a, ha, hrest⟩
      · rintro ⟨hinput, a, ha, hrest⟩
        exact ⟨a, ha, _, ⟨hinput, rfl⟩, hrest⟩
    rw [hsplit, sse_three_eq_ok, ← and_assoc]
    rfl

theorem sseBlocks_eq_ok {idx : Int32} {bs : List Block} {s : String} :
    sseBlocks text idx (bs.map Block.json) = .ok s ↔
      ((∀ b ∈ bs, b.InputEncodes text) ∧ AllEncode text (blocksEvents text idx bs)) ∧
        frames text (blocksEvents text idx bs) = s := by
  induction bs generalizing idx s with
  | nil =>
    show Except.ok "" = .ok s ↔ _
    rw [Except.ok.injEq]
    exact ⟨fun h => ⟨⟨by simp, by simp [blocksEvents, AllEncode]⟩, h⟩, fun h => h.2⟩
  | cons b bs ih =>
    rw [List.map_cons, sseBlocks, blocksEvents, frames_append, allEncode_append,
      List.forall_mem_cons]
    simp only [bind_eq_ok, sseBlock_eq_ok, ih, pure, Except.pure, Except.ok.injEq]
    constructor
    · rintro ⟨_, ⟨⟨hinput, hevents⟩, rfl⟩, _, ⟨⟨hinputs, hrest⟩, rfl⟩, rfl⟩
      exact ⟨⟨⟨hinput, hinputs⟩, hevents, hrest⟩, rfl⟩
    · rintro ⟨⟨⟨hinput, hinputs⟩, hevents, hrest⟩, rfl⟩
      exact ⟨_, ⟨⟨hinput, hevents⟩, rfl⟩, _, ⟨⟨hinputs, hrest⟩, rfl⟩, rfl⟩

/-- The stream of a reply is written where its inputs and its events can be, and it is the
    frames of the events. -/
theorem renderSseStream_eq_ok {r : Reply} {s : String} :
    renderSseStream text r.json = .ok s ↔
      ((∀ b ∈ r.content, b.InputEncodes text) ∧ AllEncode text (r.events text)) ∧
        frames text (r.events text) = s := by
  have hencode : AllEncode text (r.events text) ↔
      AllEncode text [("message_start", messageStart r.json)] ∧
        AllEncode text (blocksEvents text 0 r.content) ∧
        AllEncode text [("message_delta", messageDelta r.json)] ∧
        AllEncode text [("message_stop", messageStop)] := by
    simp [AllEncode, Reply.events, or_imp, forall_and]
  have hframes : frames text (r.events text) =
      frames text [("message_start", messageStart r.json)] ++
        frames text (blocksEvents text 0 r.content) ++
        frames text [("message_delta", messageDelta r.json)] ++
        frames text [("message_stop", messageStop)] := by
    rw [← frames_append, ← frames_append, ← frames_append]
    simp [Reply.events]
  show (do
    let a ← sse text "message_start" (messageStart r.json)
    let b ← sseBlocks text 0 (r.content.map Block.json)
    let c ← sse text "message_delta" (messageDelta r.json)
    let d ← sse text "message_stop" messageStop
    return a ++ b ++ c ++ d) = .ok s ↔ _
  simp only [bind_eq_ok, sse_eq_ok, sseBlocks_eq_ok, hencode, hframes, pure, Except.pure,
    Except.ok.injEq]
  constructor
  · rintro ⟨_, ⟨h₁, rfl⟩, _, ⟨⟨hinputs, h₂⟩, rfl⟩, _, ⟨h₃, rfl⟩, _, ⟨h₄, rfl⟩, rfl⟩
    exact ⟨⟨hinputs, h₁, h₂, h₃, h₄⟩, rfl⟩
  · rintro ⟨⟨hinputs, h₁, h₂, h₃, h₄⟩, rfl⟩
    exact ⟨_, ⟨h₁, rfl⟩, _, ⟨⟨hinputs, h₂⟩, rfl⟩, _, ⟨h₃, rfl⟩, _, ⟨h₄, rfl⟩, rfl⟩

end

end TruellmEngine.Server
