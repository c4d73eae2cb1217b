/-
  Streams as a client reads them. The client starts a block where it is announced, appends what
  the deltas bring, reads the input of a call when its block stops, and takes the end of the
  message from `message_delta`. It is strict: an event that is out of order, or whose index is
  not the position of the block, ends it.

  `replay`: a client of the stream of a translated response ends with the message, and the
  events of its blocks are balanced, at the positions of the blocks.
-/
import TruellmEngine.Lib.CanonicalJson
import TruellmEngine.Server.AnthropicReply

namespace TruellmEngine.Server

open Lib

/-! ## The client -/

/-- A block under way, with the text of its input so far. -/
structure OpenBlock where
  block : Json
  partialJson : String

/-- What came of a message. -/
structure Received where
  message : Json
  content : List Json
  current : Option OpenBlock

inductive Client
  | waiting
  | receiving (r : Received)
  | finished (message : Json)

/-- The index of the block at a position; the counter of the stream is an `int`. -/
def position (n : ℕ) : Int := (Int32.ofNat n).toInt

def string? : Json → Option String
  | .string s => some s
  | _ => none

/-- The text that a field of a block has got so far, with more behind it. -/
def appendField (block : Json) (key : String) (delta : Json) : Option Json := do
  let old ← (block.field? key).bind string?
  let more ← (delta.field? key).bind string?
  return block.setField key (.string (old ++ more))

def OpenBlock.extend (b : OpenBlock) (delta : Json) : Option OpenBlock :=
  match (delta.field? "type").bind string? with
  | some "text_delta" => (appendField b.block "text" delta).map fun block => { b with block }
  | some "thinking_delta" =>
    (appendField b.block "thinking" delta).map fun block => { b with block }
  | some "input_json_delta" => do
    let more ← (delta.field? "partial_json").bind string?
    return { b with partialJson := b.partialJson ++ more }
  | _ => none

/-- The block when it stops: the input of a call is read from its text. -/
def OpenBlock.close (text : JsonText) (b : OpenBlock) : Option Json :=
  match (b.block.field? "type").bind string? with
  | some "tool_use" =>
    (text.parse (bytes b.partialJson)).map fun input => b.block.setField "input" input
  | _ => some b.block

/-- The event is for the block behind those received. -/
def Received.expects (r : Received) (doc : Json) : Prop :=
  (doc.field? "index").bind Json.number? = some (position r.content.length)

instance (r : Received) (doc : Json) : Decidable (r.expects doc) :=
  inferInstanceAs (Decidable (_ = _))

def Received.start (r : Received) (doc : Json) : Option Received := do
  guard (r.expects doc ∧ r.current.isNone)
  let block ← doc.field? "content_block"
  return { r with current := some ⟨block, ""⟩ }

def Received.extend (r : Received) (doc : Json) : Option Received := do
  guard (r.expects doc)
  let block ← r.current
  let delta ← doc.field? "delta"
  let more ← block.extend delta
  return { r with current := some more }

def Received.stop (text : JsonText) (r : Received) (doc : Json) : Option Received := do
  guard (r.expects doc)
  let block ← r.current
  let whole ← block.close text
  return { r with content := r.content ++ [whole], current := none }

/-- The end of a message as `message_delta` tells it. -/
def Received.complete (r : Received) (doc : Json) : Option Received := do
  guard r.current.isNone
  let delta ← doc.field? "delta"
  let usage ← doc.field? "usage"
  let reason ← delta.field? "stop_reason"
  let stopSequence ← delta.field? "stop_sequence"
  let outputTokens ← usage.field? "output_tokens"
  let counted ← r.message.field? "usage"
  let ended := (r.message.setField "stop_reason" reason).setField "stop_sequence" stopSequence
  return { r with
    message := ended.setField "usage" (counted.setField "output_tokens" outputTokens) }

def Client.step (text : JsonText) : Client → String × Json → Option Client
  | .waiting, ("message_start", doc) =>
    (doc.field? "message").map fun message => .receiving ⟨message, [], none⟩
  | .receiving r, ("content_block_start", doc) => (r.start doc).map .receiving
  | .receiving r, ("content_block_delta", doc) => (r.extend doc).map .receiving
  | .receiving r, ("content_block_stop", doc) => (r.stop text doc).map .receiving
  | .receiving r, ("message_delta", doc) => (r.complete doc).map .receiving
  | .receiving r, ("message_stop", _) => do
    guard r.current.isNone
    return .finished (r.message.setField "content" (.array r.content))
  | _, _ => none

/-- The document of an event; it names the event too. -/
def readEvent (text : JsonText) (e : Sse.Event) : Option (String × Json) := do
  let doc ← text.parse (bytes (String.ofList e.data))
  guard ((doc.field? "type").bind string? = some (String.ofList e.name))
  return (String.ofList e.name, doc)

def readEvents (text : JsonText) (out : String) : Option (List (String × Json)) :=
  (Sse.decode out.toList).mapM (readEvent text)

/-! ## Reading the events of a reply -/

section

variable {text : JsonText}

theorem guard_bind {α : Type} {p : Prop} [Decidable p] (h : p) (f : Unit → Option α) :
    ((guard p : Option Unit) >>= f) = f () := by
  rw [guard, if_pos h]
  rfl

theorem number?_index (i : Int32) : (intJson i).canon.number? = some i.toInt := by
  rw [Json.number?_canon]
  show some i.toInt64.toInt = some i.toInt
  rw [Int32.toInt_toInt64]

theorem expects_position {r : Received} {doc : Json}
    (h : doc.field? "index" = some (intJson (Int32.ofNat r.content.length)).canon) :
    r.expects doc := by
  unfold Received.expects
  rw [h]
  exact number?_index _

/-- The block with its delta, before it stops. -/
def Block.filled (text : JsonText) : Block → OpenBlock
  | .thinking reasoning => ⟨thinkingBlock reasoning, ""⟩
  | .text answer => ⟨textBlock answer, ""⟩
  | .toolUse id name input => ⟨toolUseBlock id name (.object []), text.dump input⟩

theorem opening_canon (b : Block) : b.opening.canon = b.opening := by
  cases b <;> rfl

theorem extend_opening (b : Block) :
    (OpenBlock.mk b.opening "").extend (b.delta text).canon = some (b.filled text) := by
  cases b with
  | thinking reasoning =>
    show some (OpenBlock.mk (thinkingBlock ("" ++ reasoning)) "") = _
    rw [String.empty_append]
    rfl
  | text answer =>
    show some (OpenBlock.mk (textBlock ("" ++ answer)) "") = _
    rw [String.empty_append]
    rfl
  | toolUse id name input =>
    show some (OpenBlock.mk (toolUseBlock id name (.object [])) ("" ++ text.dump input)) = _
    rw [String.empty_append]
    rfl

/-- The input that is read from its text is the input that was written. -/
theorem close_filled (hf : text.Faithful) {b : Block} (hread : b.Read text)
    (hinput : b.InputEncodes text) : (b.filled text).close text = some b.json.canon := by
  cases b with
  | thinking reasoning => rfl
  | text answer => rfl
  | toolUse id name input =>
    show (text.parse (bytes (text.dump input))).map
      (fun input => (toolUseBlock id name (.object [])).setField "input" input) = _
    rw [hf.readsBack hread.1 hinput]
    rfl

theorem start_block {r : Received} (hnone : r.current = none) (b : Block) :
    r.start (blockStart (Int32.ofNat r.content.length) b.opening).canon =
      some { r with current := some ⟨b.opening, ""⟩ } := by
  unfold Received.start
  rw [guard_bind ⟨expects_position rfl, by rw [hnone]; rfl⟩]
  show some { r with current := some (OpenBlock.mk b.opening.canon "") } = _
  rw [opening_canon]

theorem extend_block {r : Received} {b : Block} (hcurrent : r.current = some ⟨b.opening, ""⟩) :
    r.extend (blockDelta (Int32.ofNat r.content.length) (b.delta text)).canon =
      some { r with current := some (b.filled text) } := by
  unfold Received.extend
  rw [guard_bind (expects_position rfl), hcurrent]
  show ((OpenBlock.mk b.opening "").extend (b.delta text).canon).bind
    (fun more => some { r with current := some more }) = _
  rw [extend_opening]
  rfl

theorem stop_block (hf : text.Faithful) {r : Received} {b : Block} (hread : b.Read text)
    (hinput : b.InputEncodes text) (hcurrent : r.current = some (b.filled text)) :
    r.stop text (blockStop (Int32.ofNat r.content.length)).canon =
      some { r with content := r.content ++ [b.json.canon], current := none } := by
  unfold Received.stop
  rw [guard_bind (expects_position rfl), hcurrent]
  show ((b.filled text).close text).bind
    (fun whole => some { r with content := r.content ++ [whole], current := none }) = _
  rw [close_filled hf hread hinput]
  rfl

/-- The events as they are read back. -/
def readBack (events : List (String × Json)) : List (String × Json) :=
  events.map fun e => (e.1, e.2.canon)

/-- What the client makes of a block, from its start to its stop. -/
theorem foldlM_block (hf : text.Faithful) {r : Received} (hnone : r.current = none) {b : Block}
    (hread : b.Read text) (hinput : b.InputEncodes text) :
    (readBack (b.events text (Int32.ofNat r.content.length))).foldlM (Client.step text)
        (.receiving r) =
      some (.receiving { r with content := r.content ++ [b.json.canon] }) := by
  show (((r.start (blockStart (Int32.ofNat r.content.length) b.opening).canon).map
    Client.receiving).bind fun c => _) = _
  rw [start_block hnone]
  show ((Received.extend { r with current := some ⟨b.opening, ""⟩ }
    (blockDelta (Int32.ofNat r.content.length) (b.delta text)).canon).map
      Client.receiving).bind _ = _
  rw [extend_block rfl]
  show ((Received.stop text { r with current := some (b.filled text) }
    (blockStop (Int32.ofNat r.content.length)).canon).map Client.receiving).bind _ = _
  rw [stop_block hf hread hinput rfl]
  show some (Client.receiving _) = _
  rw [← hnone]

theorem foldlM_blocks (hf : text.Faithful) {r : Received} (hnone : r.current = none)
    {bs : List Block} (hread : ∀ b ∈ bs, b.Read text) (hinputs : ∀ b ∈ bs, b.InputEncodes text) :
    (readBack (blocksEvents text (Int32.ofNat r.content.length) bs)).foldlM (Client.step text)
        (.receiving r) =
      some (.receiving { r with content := r.content ++ bs.map fun b => b.json.canon }) := by
  induction bs generalizing r with
  | nil =>
    rw [List.map_nil, List.append_nil]
    rfl
  | cons b bs ih =>
    obtain ⟨hb, hbs⟩ := List.forall_mem_cons.mp hread
    obtain ⟨hinput, hinputs⟩ := List.forall_mem_cons.mp hinputs
    have hnext : Int32.ofNat r.content.length + 1 =
        Int32.ofNat (r.content ++ [b.json.canon]).length := by
      rw [List.length_append, Int32.ofNat_add]
      rfl
    have hsplit : readBack (blocksEvents text (Int32.ofNat r.content.length) (b :: bs)) =
        readBack (b.events text (Int32.ofNat r.content.length)) ++
          readBack (blocksEvents text (Int32.ofNat (r.content ++ [b.json.canon]).length) bs) := by
      rw [← hnext]
      exact List.map_append
    rw [hsplit, List.foldlM_append, foldlM_block hf hnone hb hinput]
    have hrest := @ih { r with content := r.content ++ [b.json.canon] } hnone hbs hinputs
    rw [List.append_assoc, List.singleton_append] at hrest
    exact hrest

/-- The message as it is announced. -/
def announced (r : Reply) : Json :=
  .object [("content", .array []), ("id", .string r.id), ("model", .string r.model),
    ("role", .string "assistant"), ("stop_reason", .null), ("stop_sequence", .null),
    ("type", .string "message"), ("usage", .object [("input_tokens", (intJson r.inputTokens).canon),
      ("output_tokens", (intJson 0).canon)])]

/-- The message that is announced, completed, with the blocks in it. -/
theorem complete_announced (r : Reply) (content : List Json) :
    (Received.mk (announced r) content none).complete (messageDelta r.json).canon =
      some ⟨.object [("content", .array []), ("id", .string r.id), ("model", .string r.model),
        ("role", .string "assistant"), ("stop_reason", .string r.stopReason),
        ("stop_sequence", .null), ("type", .string "message"),
        ("usage", .object [("input_tokens", (intJson r.inputTokens).canon),
          ("output_tokens", (intJson r.outputTokens).canon)])], content, none⟩ := rfl

theorem foldlM_reply (hf : text.Faithful) {r : Reply} (hread : ∀ b ∈ r.content, b.Read text)
    (hinputs : ∀ b ∈ r.content, b.InputEncodes text) :
    (readBack (r.events text)).foldlM (Client.step text) .waiting =
      some (.finished r.json.canon) := by
  have hsplit : readBack (r.events text) =
      ("message_start", (messageStart r.json).canon) ::
        (readBack (blocksEvents text (Int32.ofNat ([] : List Json).length) r.content) ++
        [("message_delta", (messageDelta r.json).canon), ("message_stop", messageStop)]) :=
    congrArg (List.cons _) List.map_append
  have hblocks := @foldlM_blocks text hf ⟨announced r, [], none⟩ rfl r.content hread hinputs
  rw [hsplit, List.foldlM_cons]
  show ((readBack (blocksEvents text (Int32.ofNat ([] : List Json).length) r.content) ++ _).foldlM
    (Client.step text) (.receiving ⟨announced r, [], none⟩)) = _
  rw [List.foldlM_append, hblocks]
  show ((Received.complete ⟨announced r, r.content.map fun b => b.json.canon, none⟩
    (messageDelta r.json).canon).map Client.receiving).bind
      (fun c => Client.step text c ("message_stop", messageStop)) = _
  rw [complete_announced]
  show some (Client.finished _) = some (Client.finished (.object
    (("content", .array (Json.canons (r.content.map Block.json))) :: _)))
  rw [Json.canons_eq_map, List.map_map]
  rfl

/-! ## The events in the stream -/

theorem written_object {fields : List (String × Json)} (keys : List String)
    (hkeys : fields.map Prod.fst = keys) (hascend : keys.Pairwise (· < ·))
    (h : ∀ f ∈ fields, text.Written f.2) : text.Written (.object fields) := by
  refine .object ?_ h
  unfold Json.KeysAscend
  rw [hkeys]
  exact hascend

def eventNames : List String :=
  ["message_start", "content_block_start", "content_block_delta", "content_block_stop",
    "message_delta", "message_stop"]

theorem oneLine_name : ∀ name ∈ eventNames, name.toList ≠ [] ∧ Sse.OneLine name.toList := by
  decide

/-- An event that is read back as it was sent. -/
def Sent (text : JsonText) (e : String × Json) : Prop :=
  e.1 ∈ eventNames ∧ text.Written e.2 ∧ (e.2.canon.field? "type").bind string? = some e.1

theorem opening_written (b : Block) : text.Written b.opening := by
  cases b with
  | thinking reasoning =>
    exact written_object ["thinking", "type"] rfl (by decide)
      (by simp [JsonText.Written.string])
  | text answer =>
    exact written_object ["text", "type"] rfl (by decide) (by simp [JsonText.Written.string])
  | toolUse id name input =>
    have hempty : text.Written (.object []) := .object (by decide) (by simp)
    exact written_object ["id", "input", "name", "type"] rfl (by decide)
      (by simp [JsonText.Written.string, hempty])

theorem delta_written (b : Block) : text.Written (b.delta text) := by
  cases b with
  | thinking reasoning =>
    exact written_object ["thinking", "type"] rfl (by decide)
      (by simp [JsonText.Written.string])
  | text answer =>
    exact written_object ["text", "type"] rfl (by decide) (by simp [JsonText.Written.string])
  | toolUse id name input =>
    exact written_object ["partial_json", "type"] rfl (by decide)
      (by simp [JsonText.Written.string])

theorem events_sent (idx : Int32) (b : Block) : ∀ e ∈ b.events text idx, Sent text e := by
  have hidx : text.Written (intJson idx) := .integer _
  have hstart : Sent text ("content_block_start", blockStart idx b.opening) :=
    ⟨by simp [eventNames], written_object ["content_block", "index", "type"] rfl (by decide)
      (by simp [JsonText.Written.string, opening_written, hidx]), rfl⟩
  have hdelta : Sent text ("content_block_delta", blockDelta idx (b.delta text)) :=
    ⟨by simp [eventNames], written_object ["delta", "index", "type"] rfl (by decide)
      (by simp [JsonText.Written.string, delta_written, hidx]), rfl⟩
  have hstop : Sent text ("content_block_stop", blockStop idx) :=
    ⟨by simp [eventNames], written_object ["index", "type"] rfl (by decide)
      (by simp [JsonText.Written.string, hidx]), rfl⟩
  unfold Block.events
  simp [hstart, hdelta, hstop]

theorem blocksEvents_sent (idx : Int32) (bs : List Block) :
    ∀ e ∈ blocksEvents text idx bs, Sent text e := by
  induction bs generalizing idx with
  | nil => exact fun e he => absurd he List.not_mem_nil
  | cons b bs ih => exact List.forall_mem_append.mpr ⟨events_sent idx b, ih (idx + 1)⟩

theorem reply_sent (r : Reply) : ∀ e ∈ r.events text, Sent text e := by
  have hint : ∀ i : Int32, text.Written (intJson i) := fun i => .integer _
  have hempty : text.Written (.array []) := .array (by simp)
  have husage : text.Written (.object [("input_tokens", intJson r.inputTokens),
      ("output_tokens", intJson 0)]) :=
    written_object ["input_tokens", "output_tokens"] rfl (by decide) (by simp [hint])
  have hmessage : text.Written (.object [("content", .array []), ("id", .string r.id),
      ("model", .string r.model), ("role", .string "assistant"), ("stop_reason", .null),
      ("stop_sequence", .null), ("type", .string "message"),
      ("usage", .object [("input_tokens", intJson r.inputTokens),
        ("output_tokens", intJson 0)])]) :=
    written_object ["content", "id", "model", "role", "stop_reason", "stop_sequence", "type",
      "usage"] rfl (by decide)
      (by simp [JsonText.Written.string, JsonText.Written.null, hempty, husage])
  have hstart : Sent text ("message_start", messageStart r.json) :=
    ⟨by simp [eventNames], written_object ["message", "type"] rfl (by decide)
      (List.forall_mem_cons.mpr ⟨hmessage, by simp [JsonText.Written.string]⟩), rfl⟩
  have hreason : text.Written (.object [("stop_reason", .string r.stopReason),
      ("stop_sequence", .null)]) :=
    written_object ["stop_reason", "stop_sequence"] rfl (by decide)
      (by simp [JsonText.Written.string, JsonText.Written.null])
  have houtput : text.Written (.object [("output_tokens", intJson r.outputTokens)]) :=
    written_object ["output_tokens"] rfl (by decide) (by simp [hint])
  have hdelta : Sent text ("message_delta", messageDelta r.json) :=
    ⟨by simp [eventNames], written_object ["delta", "type", "usage"] rfl (by decide)
      (List.forall_mem_cons.mpr ⟨hreason, List.forall_mem_cons.mpr ⟨.string _,
        List.forall_mem_singleton.mpr houtput⟩⟩), rfl⟩
  have hstop : Sent text ("message_stop", messageStop) :=
    ⟨by simp [eventNames],
      written_object ["type"] rfl (by decide) (by simp [JsonText.Written.string]), rfl⟩
  exact List.forall_mem_append.mpr
    ⟨List.forall_mem_cons.mpr ⟨hstart, blocksEvents_sent 0 r.content⟩, by simp [hdelta, hstop]⟩

theorem readEvent_frame (hf : text.Faithful) {e : String × Json} (hsent : Sent text e)
    (hencodes : text.encodes e.2 = true) :
    readEvent text ⟨e.1.toList, (text.dump e.2).toList⟩ = some (e.1, e.2.canon) := by
  unfold readEvent
  rw [String.ofList_toList, String.ofList_toList, hf.readsBack hsent.2.1 hencodes]
  exact guard_bind hsent.2.2 _

theorem toList_frames (events : List (String × Json)) :
    (frames text events).toList =
      (events.map fun e => (⟨e.1.toList, (text.dump e.2).toList⟩ : Sse.Event)).flatMap
        Sse.frame := by
  induction events with
  | nil => rfl
  | cons e events ih =>
    have hone : (frames text [e]).toList =
        Sse.frame ⟨e.1.toList, (text.dump e.2).toList⟩ := by
      unfold frames Sse.frame
      rw [List.map_singleton, String.join_cons, String.join_nil, String.append_empty]
      simp only [String.toList_append]
    have hcons : frames text (e :: events) = frames text [e] ++ frames text events :=
      frames_append [e] events
    rw [hcons, String.toList_append, ih, hone, List.map_cons, List.flatMap_cons]

/-- The stream is read back event by event. -/
theorem readEvents_frames (hf : text.Faithful) {events : List (String × Json)}
    (hsent : ∀ e ∈ events, Sent text e) (hencode : AllEncode text events) :
    readEvents text (frames text events) = some (readBack events) := by
  have hlines : ∀ e ∈ events.map fun e =>
      (⟨e.1.toList, (text.dump e.2).toList⟩ : Sse.Event),
      e.name ≠ [] ∧ Sse.OneLine e.name ∧ Sse.OneLine e.data := by
    rw [List.forall_mem_map]
    intro e he
    obtain ⟨hne, hname⟩ := oneLine_name e.1 (hsent e he).1
    exact ⟨hne, hname, hf.oneLine (hencode e he)⟩
  unfold readEvents
  rw [toList_frames, Sse.decode_frames hlines]
  clear hlines
  induction events with
  | nil => rfl
  | cons e events ih =>
    obtain ⟨he, hes⟩ := List.forall_mem_cons.mp hsent
    obtain ⟨hencodes, hencode⟩ := List.forall_mem_cons.mp hencode
    rw [List.map_cons, List.mapM_cons, readEvent_frame hf he hencodes, ih hes hencode]
    rfl

/-! ## What can be written -/

/-- An object with plain keys can be written where its values can. -/
theorem encodes_object_of (hf : text.Faithful) {fields : List (String × Json)}
    (keys : List String) (hkeys : fields.map Prod.fst = keys)
    (hascii : ∀ key ∈ keys, JsonText.Ascii key) (h : ∀ f ∈ fields, text.encodes f.2 = true) :
    text.encodes (.object fields) = true := by
  apply hf.encodes_object.mpr
  intro f hfield
  have hkey : f.1 ∈ keys := hkeys ▸ List.mem_map_of_mem hfield
  exact ⟨hf.encodes_ascii (hascii f.1 hkey), h f hfield⟩

theorem opening_encodes (hf : text.Faithful) {b : Block} (h : text.encodes b.json = true) :
    text.encodes b.opening = true := by
  have hnothing := hf.encodes_ascii (s := "") (by decide)
  cases b with
  | thinking reasoning =>
    have htype := hf.encodes_ascii (s := "thinking") (by decide)
    exact encodes_object_of hf ["thinking", "type"] rfl (by decide) (by simp [hnothing, htype])
  | text answer =>
    have htype := hf.encodes_ascii (s := "text") (by decide)
    exact encodes_object_of hf ["text", "type"] rfl (by decide) (by simp [hnothing, htype])
  | toolUse id name input =>
    have hfields := hf.encodes_object.mp h
    have hid := (hfields ("id", .string id) (by simp)).2
    have hname := (hfields ("name", .string name) (by simp)).2
    have htype := (hfields ("type", .string "tool_use") (by simp)).2
    have hempty : text.encodes (.object []) = true := hf.encodes_object.mpr (by simp)
    exact encodes_object_of hf ["id", "input", "name", "type"] rfl (by decide)
      (by simp [hid, hname, htype, hempty])

theorem delta_encodes (hf : text.Faithful) {b : Block} (h : text.encodes b.json = true) :
    b.InputEncodes text ∧ text.encodes (b.delta text) = true := by
  cases b with
  | thinking reasoning =>
    have hreasoning := (hf.encodes_object.mp h ("thinking", .string reasoning) (by simp)).2
    have htype := hf.encodes_ascii (s := "thinking_delta") (by decide)
    exact ⟨trivial, encodes_object_of hf ["thinking", "type"] rfl (by decide)
      (by simp [hreasoning, htype])⟩
  | text answer =>
    have hanswer := (hf.encodes_object.mp h ("text", .string answer) (by simp)).2
    have htype := hf.encodes_ascii (s := "text_delta") (by decide)
    exact ⟨trivial, encodes_object_of hf ["text", "type"] rfl (by decide)
      (by simp [hanswer, htype])⟩
  | toolUse id name input =>
    have hinput := (hf.encodes_object.mp h ("input", input) (by simp)).2
    have hdump := hf.encodes_dump hinput
    have htype := hf.encodes_ascii (s := "input_json_delta") (by decide)
    exact ⟨hinput, encodes_object_of hf ["partial_json", "type"] rfl (by decide)
      (by simp [hdump, htype])⟩

theorem name_encodes (hf : text.Faithful) :
    ∀ name ∈ eventNames, text.encodes (.string name) = true := by
  intro name hname
  have hascii : ∀ name ∈ eventNames, JsonText.Ascii name := by decide
  exact hf.encodes_ascii (hascii name hname)

/-- The events of a block can be written where the block can. -/
theorem events_encode (hf : text.Faithful) (idx : Int32) {b : Block}
    (h : text.encodes b.json = true) : AllEncode text (b.events text idx) := by
  have hidx : text.encodes (intJson idx) = true := hf.encodes_integer _
  have hstarts := name_encodes hf "content_block_start" (by simp [eventNames])
  have hdeltas := name_encodes hf "content_block_delta" (by simp [eventNames])
  have hstops := name_encodes hf "content_block_stop" (by simp [eventNames])
  have hstart : text.encodes (blockStart idx b.opening) = true :=
    encodes_object_of hf ["content_block", "index", "type"] rfl (by decide)
      (by simp [opening_encodes hf h, hidx, hstarts])
  have hdelta : text.encodes (blockDelta idx (b.delta text)) = true :=
    encodes_object_of hf ["delta", "index", "type"] rfl (by decide)
      (by simp [(delta_encodes hf h).2, hidx, hdeltas])
  have hstop : text.encodes (blockStop idx) = true :=
    encodes_object_of hf ["index", "type"] rfl (by decide) (by simp [hidx, hstops])
  simp [AllEncode, Block.events, hstart, hdelta, hstop]

theorem blocksEvents_encode (hf : text.Faithful) (idx : Int32) {bs : List Block}
    (h : ∀ b ∈ bs, text.encodes b.json = true) : AllEncode text (blocksEvents text idx bs) := by
  induction bs generalizing idx with
  | nil => exact fun e he => absurd he List.not_mem_nil
  | cons b bs ih =>
    obtain ⟨hb, hbs⟩ := List.forall_mem_cons.mp h
    exact allEncode_append.mpr ⟨events_encode hf idx hb, ih (idx + 1) hbs⟩

/-- Where a reply can be written, so can its inputs and its events. -/
theorem reply_encodes (hf : text.Faithful) {r : Reply} (h : text.encodes r.json = true) :
    (∀ b ∈ r.content, b.InputEncodes text) ∧ AllEncode text (r.events text) := by
  have hfields := hf.encodes_object.mp h
  have hcontent : ∀ b ∈ r.content, text.encodes b.json = true := by
    have hall := hf.encodes_array.mp (hfields ("content", .array (r.content.map Block.json))
      (by simp)).2
    intro b hb
    exact hall _ (List.mem_map_of_mem hb)
  have hint : ∀ i : Int32, text.encodes (intJson i) = true := fun i => hf.encodes_integer _
  have hid : text.encodes (.string r.id) = true := (hfields ("id", _) (by simp)).2
  have hmodel : text.encodes (.string r.model) = true := (hfields ("model", _) (by simp)).2
  have hrole : text.encodes (.string "assistant") = true := (hfields ("role", _) (by simp)).2
  have hreason : text.encodes (.string r.stopReason) = true :=
    (hfields ("stop_reason", _) (by simp)).2
  have hnull := hf.encodes_null
  have htype : text.encodes (.string "message") = true := (hfields ("type", _) (by simp)).2
  have hempty : text.encodes (.array []) = true := hf.encodes_array.mpr (by simp)
  have hstarts := name_encodes hf "message_start" (by simp [eventNames])
  have hdeltas := name_encodes hf "message_delta" (by simp [eventNames])
  have hstops := name_encodes hf "message_stop" (by simp [eventNames])
  have husage : text.encodes (.object [("input_tokens", intJson r.inputTokens),
      ("output_tokens", intJson 0)]) = true :=
    encodes_object_of hf ["input_tokens", "output_tokens"] rfl (by decide) (by simp [hint])
  have hmessage : text.encodes (.object [("content", .array []), ("id", .string r.id),
      ("model", .string r.model), ("role", .string "assistant"), ("stop_reason", .null),
      ("stop_sequence", .null), ("type", .string "message"),
      ("usage", .object [("input_tokens", intJson r.inputTokens),
        ("output_tokens", intJson 0)])]) = true :=
    encodes_object_of hf ["content", "id", "model", "role", "stop_reason", "stop_sequence",
      "type", "usage"] rfl (by decide)
      (by simp [hid, hmodel, hrole, hnull, htype, hempty, husage])
  have hstart : text.encodes (messageStart r.json) = true :=
    encodes_object_of hf ["message", "type"] rfl (by decide)
      (List.forall_mem_cons.mpr ⟨hmessage, by simp [hstarts]⟩)
  have hends : text.encodes (.object [("stop_reason", .string r.stopReason),
      ("stop_sequence", .null)]) = true :=
    encodes_object_of hf ["stop_reason", "stop_sequence"] rfl (by decide)
      (by simp [hreason, hnull])
  have houtput : text.encodes (.object [("output_tokens", intJson r.outputTokens)]) = true :=
    encodes_object_of hf ["output_tokens"] rfl (by decide) (by simp [hint])
  have hdelta : text.encodes (messageDelta r.json) = true :=
    encodes_object_of hf ["delta", "type", "usage"] rfl (by decide)
      (List.forall_mem_cons.mpr ⟨hends, List.forall_mem_cons.mpr
        ⟨hdeltas, List.forall_mem_singleton.mpr houtput⟩⟩)
  have hstop : text.encodes messageStop = true :=
    encodes_object_of hf ["type"] rfl (by decide) (by simp [hstops])
  refine ⟨fun b hb => (delta_encodes hf (hcontent b hb)).1, ?_⟩
  exact allEncode_append.mpr ⟨List.forall_mem_cons.mpr
    ⟨hstart, blocksEvents_encode hf 0 hcontent⟩, by simp [AllEncode, hdelta, hstop]⟩

theorem field_encodes (hf : text.Faithful) {j v : Json} {key : String}
    (hj : text.encodes j = true) (h : j.field? key = some v) : text.encodes v = true := by
  cases j with
  | object fields =>
    obtain ⟨before, after, hsplit, -⟩ := List.lookup_eq_some_iff.mp h
    exact (hf.encodes_object.mp hj (key, v) (by rw [hsplit]; simp)).2
  | _ => cases h

theorem fieldOrEmpty_encodes (hf : text.Faithful) {j : Json} (hj : text.encodes j = true)
    (key : String) : text.encodes (fieldOrEmpty j key) = true := by
  unfold fieldOrEmpty
  cases h : j.field? key with
  | none => exact hf.encodes_object.mpr (by simp)
  | some v => exact field_encodes hf hj h

theorem getString_encodes (hf : text.Faithful) {j : Json} {key dflt s : String}
    (hj : text.encodes j = true) (hdflt : JsonText.Ascii dflt)
    (h : Json.value Json.getString j key dflt = .ok s) : text.encodes (.string s) = true := by
  cases j with
  | object fields =>
    unfold Json.value at h
    dsimp only at h
    split at h
    · rename_i v hv
      have hencodes := field_encodes hf hj hv
      cases v with
      | string s' =>
        cases h
        exact hencodes
      | _ => cases h
    · cases h
      exact hf.encodes_ascii hdflt
  | _ => cases h

theorem firstChoice_encodes (hf : text.Faithful) {oresp : Json} (h : text.encodes oresp = true) :
    text.encodes (firstChoice oresp) = true := by
  unfold firstChoice
  split
  · rename_i choice _ hchoices
    exact hf.encodes_array.mp (field_encodes hf h hchoices) choice (by simp)
  · exact hf.encodes_object.mpr (by simp)

theorem parsedInput_encodes (hf : text.Faithful) (fn : Json) :
    text.encodes (parsedInput text fn) = true := by
  have hempty : text.encodes (.object []) = true := hf.encodes_object.mpr (by simp)
  unfold parsedInput
  split
  · rename_i arguments _
    cases hj : (text.parse (bytes arguments)).filter Json.isObject with
    | none => exact hempty
    | some j => exact hf.encodes_parsed (Option.filter_eq_some_iff.mp hj).1
  · exact hempty

theorem translateCall_encodes (hf : text.Faithful) {tc blk : Json}
    (htc : text.encodes tc = true) (h : translateCall text tc = .ok blk) :
    text.encodes blk = true := by
  obtain ⟨id, hid, h⟩ := bind_eq_ok.mp h
  obtain ⟨name, hname, h⟩ := bind_eq_ok.mp h
  cases h
  have hid := getString_encodes hf htc (by decide) hid
  have hname := getString_encodes hf (fieldOrEmpty_encodes hf htc "function") (by decide) hname
  have htype := hf.encodes_ascii (s := "tool_use") (by decide)
  exact encodes_object_of hf ["id", "input", "name", "type"] rfl (by decide)
    (by simp [hid, hname, htype, parsedInput_encodes hf])

theorem calls_encode (hf : text.Faithful) {msg : Json} (h : text.encodes msg = true) :
    ∀ tc ∈ calls msg, text.encodes tc = true := by
  unfold calls
  split
  · rename_i tcs htcs
    exact hf.encodes_array.mp (field_encodes hf h htcs)
  · exact fun tc htc => absurd htc List.not_mem_nil

theorem textBlock_encodes (hf : text.Faithful) {answer : String}
    (h : text.encodes (.string answer) = true) : text.encodes (textBlock answer) = true := by
  have htype := hf.encodes_ascii (s := "text") (by decide)
  exact encodes_object_of hf ["text", "type"] rfl (by decide) (by simp [h, htype])

theorem thinkingBlock_encodes (hf : text.Faithful) {reasoning : String}
    (h : text.encodes (.string reasoning) = true) :
    text.encodes (thinkingBlock reasoning) = true := by
  have htype := hf.encodes_ascii (s := "thinking") (by decide)
  exact encodes_object_of hf ["thinking", "type"] rfl (by decide) (by simp [h, htype])

theorem stopReason_encodes (hf : text.Faithful) (finish : String) :
    text.encodes (.string (stopReason finish)) = true := by
  unfold stopReason
  split
  · exact hf.encodes_ascii (by decide)
  · split
    · exact hf.encodes_ascii (by decide)
    · exact hf.encodes_ascii (by decide)

/-- The message of a response that can be written can be written. -/
theorem translateResponse_encodes (hf : text.Faithful) {newId : String} {oresp amsg : Json}
    (horesp : text.encodes oresp = true) (hnewId : text.encodes (.string newId) = true)
    (h : translateResponse text newId oresp = .ok amsg) : text.encodes amsg = true := by
  obtain ⟨finish, -, h⟩ := bind_eq_ok.mp h
  obtain ⟨answer, hanswer, h⟩ := bind_eq_ok.mp h
  obtain ⟨reasoning, hreasoning, h⟩ := bind_eq_ok.mp h
  obtain ⟨toolUses, htoolUses, h⟩ := bind_eq_ok.mp h
  obtain ⟨model, hmodel, h⟩ := bind_eq_ok.mp h
  obtain ⟨inputTokens, -, h⟩ := bind_eq_ok.mp h
  obtain ⟨outputTokens, -, h⟩ := bind_eq_ok.mp h
  cases h
  have hmsg := fieldOrEmpty_encodes hf (firstChoice_encodes hf horesp) "message"
  have hanswer := getString_encodes hf hmsg (by decide) hanswer
  have hreasoning := getString_encodes hf hmsg (by decide) hreasoning
  have hmodel := getString_encodes hf horesp (by decide) hmodel
  have hint : ∀ i : Int32, text.encodes (intJson i) = true := fun i => hf.encodes_integer _
  have hrole := hf.encodes_ascii (s := "assistant") (by decide)
  have hreason := stopReason_encodes hf finish
  have htype := hf.encodes_ascii (s := "message") (by decide)
  have hcontent : text.encodes (.array (replyContent reasoning answer toolUses)) = true := by
    apply hf.encodes_array.mpr
    intro blk hblk
    rcases mem_replyContent hblk with rfl | rfl | rfl | hblk
    · exact thinkingBlock_encodes hf hreasoning
    · exact textBlock_encodes hf hanswer
    · exact textBlock_encodes hf (hf.encodes_ascii (by decide))
    · exact forall_of_mapM (fun tc htc _ => translateCall_encodes hf (calls_encode hf hmsg tc htc))
        htoolUses blk hblk
  have husage : text.encodes (.object [("input_tokens", intJson inputTokens),
      ("output_tokens", intJson outputTokens)]) = true :=
    encodes_object_of hf ["input_tokens", "output_tokens"] rfl (by decide) (by simp [hint])
  exact encodes_object_of hf ["content", "id", "model", "role", "stop_reason", "stop_sequence",
    "type", "usage"] rfl (by decide)
    (by simp [hcontent, hnewId, hmodel, hrole, hreason, hf.encodes_null, htype, husage])

/-! ## Balance -/

/-- The index that an event carries. -/
def mark (e : String × Json) : Option (String × Int) :=
  ((e.2.field? "index").bind Json.number?).map fun i => (e.1, i)

/-- The events of the block at a position. -/
def blockMarks (n : ℕ) : List (String × Int) :=
  [("content_block_start", position n), ("content_block_delta", position n),
    ("content_block_stop", position n)]

theorem filterMap_mark_block (n : ℕ) (b : Block) :
    (readBack (b.events text (Int32.ofNat n))).filterMap mark = blockMarks n := by
  have hindex := number?_index (Int32.ofNat n)
  have hmark : ∀ (name : String) (doc : Json),
      doc.field? "index" = some (intJson (Int32.ofNat n)).canon →
      mark (name, doc) = some (name, position n) := by
    intro name doc hdoc
    show ((doc.field? "index").bind Json.number?).map (fun i => (name, i)) = _
    rw [hdoc, Option.bind_some, hindex]
    rfl
  show [_, _, _].filterMap mark = _
  rw [List.filterMap_cons_some (hmark _ _ rfl), List.filterMap_cons_some (hmark _ _ rfl),
    List.filterMap_cons_some (hmark _ _ rfl)]
  rfl

theorem filterMap_mark_blocks (k : ℕ) (bs : List Block) :
    (readBack (blocksEvents text (Int32.ofNat k) bs)).filterMap mark =
      (List.range' k bs.length).flatMap blockMarks := by
  induction bs generalizing k with
  | nil => rfl
  | cons b bs ih =>
    have hnext : Int32.ofNat k + 1 = Int32.ofNat (k + 1) := (Int32.ofNat_add k 1).symm
    show ((b.events text (Int32.ofNat k) ++ blocksEvents text (Int32.ofNat k + 1) bs).map
      fun e => (e.1, e.2.canon)).filterMap mark = _
    rw [List.map_append, List.filterMap_append, hnext]
    show (readBack _).filterMap mark ++ (readBack _).filterMap mark = _
    rw [filterMap_mark_block, ih, List.length_cons, List.range'_succ, List.flatMap_cons]

theorem filterMap_mark_reply (r : Reply) :
    (readBack (r.events text)).filterMap mark =
      (List.range r.content.length).flatMap blockMarks := by
  rw [List.range_eq_range', ← @filterMap_mark_blocks text 0 r.content]
  show ((_ :: blocksEvents text 0 r.content ++ _).map fun e => (e.1, e.2.canon)).filterMap mark = _
  rw [List.map_append, List.map_cons, List.filterMap_append, List.filterMap_cons_none rfl]
  show _ ++ [] = _
  rw [List.append_nil]
  rfl

/-- For every translated response: the stream is written, if the response is one that was read,
    and whoever reads it gets the message, with the events of the blocks in balance. -/
theorem replay (hf : text.Faithful) {newId : String} {oresp amsg : Json}
    (h : translateResponse text newId oresp = .ok amsg) :
    (text.encodes oresp = true → text.encodes (.string newId) = true →
        ∃ out, renderSseStream text amsg = .ok out) ∧
      ∀ out, renderSseStream text amsg = .ok out →
        ∃ events, readEvents text out = some events ∧
          events.foldlM (Client.step text) .waiting = some (.finished amsg.canon) ∧
          events.filterMap mark =
            (List.range (fieldAt amsg "content").items.length).flatMap blockMarks := by
  have hwritten : text.encodes oresp = true → text.encodes (.string newId) = true →
      text.encodes amsg = true := fun horesp hnewId =>
    translateResponse_encodes hf horesp hnewId h
  obtain ⟨r, rfl, hread⟩ := translateResponse_reply h
  constructor
  · intro horesp hnewId
    exact ⟨_, renderSseStream_eq_ok.mpr ⟨reply_encodes hf (hwritten horesp hnewId), rfl⟩⟩
  · intro out hout
    obtain ⟨⟨hinputs, hencode⟩, rfl⟩ := renderSseStream_eq_ok.mp hout
    refine ⟨_, readEvents_frames hf (reply_sent r) hencode, foldlM_reply hf hread hinputs, ?_⟩
    have hlength : (fieldAt r.json "content").items.length = r.content.length :=
      List.length_map Block.json
    rw [hlength]
    exact filterMap_mark_reply r

end

/-- A call with arguments, and one whose arguments cannot be read. -/
def plainCall : Json :=
  .object [("function", .object [("arguments", .string "\x7b\"n\":[-5]\x7d"),
    ("name", .string "f")]), ("id", .string "1")]

def brokenCall : Json :=
  .object [("function", .object [("arguments", .string "\x7b"), ("name", .string "g")]),
    ("id", .string "2")]

/-- A response with reasoning, a text that looks like an event, and the two calls. -/
def toolResponse : Json :=
  .object [("choices", .array [.object [("finish_reason", .string "tool_calls"),
      ("message", .object [("content", .string "a\n\ndata: b"),
        ("reasoning_content", .string "so"), ("tool_calls", .array [plainCall, brokenCall])])]]),
    ("usage", .object [("completion_tokens", .unsigned 7), ("prompt_tokens", .unsigned 3)])]

def plainInput : Json := .object [("n", .array [.integer (-5)])]

def toolMessage : Json :=
  .object [("content", .array [thinkingBlock "so", textBlock "a\n\ndata: b",
      toolUseBlock "1" "f" plainInput, toolUseBlock "2" "g" (.object [])]),
    ("id", .string "msg_1"), ("model", .string "default"), ("role", .string "assistant"),
    ("stop_reason", .string "tool_use"), ("stop_sequence", .null), ("type", .string "message"),
    ("usage", .object [("input_tokens", .integer 3), ("output_tokens", .integer 7)])]

theorem translate_plainCall : translateCall CanonicalJson.canonical plainCall =
    .ok (toolUseBlock "1" "f" plainInput) := by
  have htext : "\x7b\"n\":[-5]\x7d" = String.ofList (CanonicalJson.print plainInput) := by decide
  have hread := @CanonicalJson.parse_print plainInput (by decide) (by decide)
  have hcanon : plainInput.canon = plainInput := rfl
  have hinput : parsedInput CanonicalJson.canonical (fieldOrEmpty plainCall "function") =
      plainInput := by
    show ((CanonicalJson.canonical.parse (bytes "\x7b\"n\":[-5]\x7d")).filter
      Json.isObject).getD (.object []) = _
    rw [htext, CanonicalJson.canonical_parse, hread, hcanon]
    rfl
  show Except.ok (toolUseBlock "1" "f" (parsedInput _ (fieldOrEmpty plainCall "function"))) = _
  rw [hinput]

theorem translate_brokenCall : translateCall CanonicalJson.canonical brokenCall =
    .ok (toolUseBlock "2" "g" (.object [])) := by
  have hchars : CanonicalJson.chars (bytes "\x7b") = ['\x7b'] := by decide
  have hread : CanonicalJson.parse (bytes "\x7b") = none := by
    unfold CanonicalJson.parse
    rw [hchars]
    rfl
  have hinput : parsedInput CanonicalJson.canonical (fieldOrEmpty brokenCall "function") =
      .object [] := by
    show ((CanonicalJson.canonical.parse (bytes "\x7b")).filter Json.isObject).getD
      (.object []) = _
    rw [CanonicalJson.canonical_parse, hread]
    rfl
  show Except.ok (toolUseBlock "2" "g" (parsedInput _ (fieldOrEmpty brokenCall "function"))) = _
  rw [hinput]

theorem replay_tools : ∃ out events,
    renderSseStream CanonicalJson.canonical toolMessage = .ok out ∧
      readEvents CanonicalJson.canonical out = some events ∧
      events.foldlM (Client.step CanonicalJson.canonical) .waiting =
        some (.finished toolMessage.canon) ∧
      events.filterMap mark = (List.range 4).flatMap blockMarks := by
  have hcalls : [plainCall, brokenCall].mapM (translateCall CanonicalJson.canonical) =
      .ok [toolUseBlock "1" "f" plainInput, toolUseBlock "2" "g" (.object [])] := by
    rw [List.mapM_cons, List.mapM_cons, translate_plainCall, translate_brokenCall]
    rfl
  have htranslate : translateResponse CanonicalJson.canonical "msg_1" toolResponse =
      .ok toolMessage :=
    bind_eq_ok.mpr ⟨"tool_calls", rfl, bind_eq_ok.mpr ⟨"a\n\ndata: b", rfl,
      bind_eq_ok.mpr ⟨"so", rfl, bind_eq_ok.mpr ⟨_, hcalls, rfl⟩⟩⟩⟩
  obtain ⟨hwritten, hread⟩ := replay CanonicalJson.canonical_faithful htranslate
  obtain ⟨out, hout⟩ := hwritten (by decide) (by decide)
  obtain ⟨events, hevents, hfold, hmarks⟩ := hread out hout
  exact ⟨out, events, hout, hevents, hfold, hmarks⟩

end TruellmEngine.Server
