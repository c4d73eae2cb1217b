/-
  Live streams: what the client gets of an answer while the engine generates it. Without
  reasoning the callback sends the pieces on up to the last complete code point. With reasoning
  it reads the whole text so far at every token and sends what the reading has more than the one
  before. The reader is that of the common chat layer, which is not part of the source: it may
  throw at any text, and then nothing is sent for the token.

  Without reasoning a valid text arrives in whatever pieces. With reasoning a character that the
  tokens cut is cut in the deltas too, and no half of it can be written; so the readings are to go
  on from one another by valid texts (`CommonChat.ReadsOn`).

  `live_stream_of_scheduler`: the client gets the answer of its request, or what is read of it,
  whatever else is decoded; and the answer is the one of the request alone in the scheduler.
-/
import TruellmEngine.Scheduler.Streaming
import TruellmEngine.Server.ChatStream
import TruellmEngine.Server.StreamCarry

namespace TruellmEngine.Server

open Lib

/-! ## The common chat layer -/

/-- `common_chat_msg`. The layer is given no tools here, so it reads no calls. -/
structure ChatMsg where
  content : List UInt8 := []
  reasoningContent : List UInt8 := []
deriving DecidableEq

structure ChatStreamDelta where
  content : List UInt8 := []
  reasoning : List UInt8 := []

/-- `common_chat_parse` of a text that may go on, and `compute_diffs`; nothing where they
    throw. -/
structure CommonChat where
  parse : List UInt8 → Option ChatMsg
  computeDiffs : ChatMsg → ChatMsg → Option (List ChatStreamDelta)

def ChatMsg.append (m : ChatMsg) (d : ChatStreamDelta) : ChatMsg :=
  ⟨m.content ++ d.content, m.reasoningContent ++ d.reasoning⟩

/-- What is documented of the layer: of two messages of which one goes on from the other, the
    differences are what was appended. -/
def CommonChat.Faithful (c : CommonChat) : Prop :=
  ∀ (m : ChatMsg) (d : ChatStreamDelta), ∃ ds, c.computeDiffs m (m.append d) = some ds ∧
    ds.flatMap ChatStreamDelta.content = d.content ∧
    ds.flatMap ChatStreamDelta.reasoning = d.reasoning

/-- `ChatParser::push`: the message read last, and what it has more than the one before. -/
def CommonChat.push (c : CommonChat) (prev : ChatMsg) (accumulatedText : List UInt8) :
    ChatMsg × ChatStreamDelta :=
  match c.parse accumulatedText with
  | none => (prev, {})
  | some cur =>
    if cur = {} then (prev, {})
    else
      match c.computeDiffs prev cur with
      | none => (prev, {})
      | some diffs =>
        (cur, ⟨diffs.flatMap ChatStreamDelta.content, diffs.flatMap ChatStreamDelta.reasoning⟩)

/-! ## The stream -/

def textDeltaOf (key : String) (value : List UInt8) : Delta :=
  { delta := .object [(key, .string (ofBytes value))] }

/-- `emit_delta`. -/
def emitDelta (key : String) (value : List UInt8) : List Delta :=
  if value = [] then [] else [textDeltaOf key value]

/-- What the callback of a stream with reasoning holds, and what it has sent. -/
structure Reasoned where
  accumulated : List UInt8 := []
  prev : ChatMsg := {}
  sent : List Delta := []

def Reasoned.onToken (c : CommonChat) (st : Reasoned) (piece : List UInt8) : Reasoned :=
  let accumulated := st.accumulated ++ piece
  let pushed := c.push st.prev accumulated
  { accumulated := accumulated
    prev := pushed.1
    sent := st.sent ++ (emitDelta "reasoning_content" pushed.2.reasoning ++
      emitDelta "content" pushed.2.content) }

def CommonChat.stream (c : CommonChat) (pieces : List (List UInt8)) : Reasoned :=
  pieces.foldl (Reasoned.onToken c) {}

/-- The deltas of a live stream: the role, and what the callback sends of the pieces. `parser`
    is there where reasoning is active. -/
def liveDeltas (parser : Option CommonChat) (pieces : List (List UInt8)) : List Delta :=
  roleDelta ::
    match parser with
    | some c => (c.stream pieces).sent
    | none => (StreamCallback.chat.stream pieces).sent.flatMap (emitDelta "content")

def liveStream (text : JsonText) (reqId modelId : String) (parser : Option CommonChat)
    (pieces : List (List UInt8)) : Except TypeError String :=
  chunkStream text reqId modelId (liveDeltas parser pieces)

/-! ## Deltas that make a message -/

theorem utf8_nil : Utf8 [] := ⟨[], rfl⟩

theorem ofBytes_append (a b : List UInt8) : ofBytes (a ++ b) = ofBytes a ++ ofBytes b := by
  unfold ofBytes
  rw [List.map_append, String.ofList_append]

/-- A client that has got a message. -/
def Assembled.shown (reqId : String) (m : ChatMsg) : Assembled :=
  { id := some reqId
    role := some "assistant"
    content := ofBytes m.content
    reasoning := if m.reasoningContent = [] then none else some (ofBytes m.reasoningContent) }

/-- A delta that is cut out of a message between code points. -/
def ChatMsg.Said (m : ChatMsg) (e : Delta) : Prop :=
  ∃ value, Utf8 value ∧ (e = textDeltaOf "content" value ∧ value <:+: m.content ∨
    e = textDeltaOf "reasoning_content" value ∧ value <:+: m.reasoningContent)

structure ChatMsg.MadeOf (m : ChatMsg) (es : List Delta) : Prop where
  said : ∀ e ∈ es, m.Said e
  shown : ∀ reqId, Assembled.all reqId (roleDelta :: es) = .shown reqId m

theorem ChatMsg.Said.append {m : ChatMsg} {e : Delta} (h : m.Said e) (d : ChatStreamDelta) :
    (m.append d).Said e := by
  obtain ⟨value, hvalid, h⟩ := h
  have hcontent : m.content <:+: (m.append d).content := ⟨[], d.content, rfl⟩
  have hreasoning : m.reasoningContent <:+: (m.append d).reasoningContent :=
    ⟨[], d.reasoning, rfl⟩
  exact ⟨value, hvalid, h.imp (And.imp_right fun hv => hv.trans hcontent)
    (And.imp_right fun hv => hv.trans hreasoning)⟩

theorem foldl_emitDelta_reasoning (reqId : String) (m : ChatMsg) (value : List UInt8) :
    (emitDelta "reasoning_content" value).foldl (fun a d => Assembled.more a reqId d)
      (.shown reqId m) = .shown reqId ⟨m.content, m.reasoningContent ++ value⟩ := by
  unfold emitDelta
  split_ifs with hempty
  · rw [hempty, List.append_nil]
    rfl
  · have hne : m.reasoningContent ++ value ≠ [] := fun h => hempty (List.append_eq_nil_iff.mp h).2
    have hgot : (Assembled.shown reqId m).reasoning.getD "" ++ ofBytes value =
        ofBytes (m.reasoningContent ++ value) := by
      rw [ofBytes_append]
      congr 1
      unfold Assembled.shown
      by_cases hnone : m.reasoningContent = []
      · rw [if_pos hnone, hnone]
        rfl
      · rw [if_neg hnone]
        rfl
    rw [List.foldl_cons, List.foldl_nil]
    refine (more_reasoning _ _).trans ?_
    rw [hgot]
    unfold Assembled.shown
    rw [if_neg hne]

theorem foldl_emitDelta_content (reqId : String) (m : ChatMsg) (value : List UInt8) :
    (emitDelta "content" value).foldl (fun a d => Assembled.more a reqId d)
      (.shown reqId m) = .shown reqId ⟨m.content ++ value, m.reasoningContent⟩ := by
  unfold emitDelta
  split_ifs with hempty
  · rw [hempty, List.append_nil]
    rfl
  · rw [List.foldl_cons, List.foldl_nil]
    refine (more_content _ _).trans ?_
    unfold Assembled.shown
    rw [ofBytes_append]

theorem mem_emitDelta {key : String} {value : List UInt8} {e : Delta}
    (h : e ∈ emitDelta key value) : e = textDeltaOf key value := by
  unfold emitDelta at h
  split_ifs at h
  · cases h
  · exact List.mem_singleton.mp h

/-- Nothing has been said. -/
theorem ChatMsg.MadeOf.nil : ChatMsg.MadeOf {} [] where
  said _ h := absurd h List.not_mem_nil
  shown reqId := by
    unfold Assembled.all
    rw [List.foldl_cons, List.foldl_nil, more_role]
    rfl

/-- One delta of the parser more: its reasoning first. -/
theorem ChatMsg.MadeOf.append {m : ChatMsg} {es : List Delta} (h : m.MadeOf es)
    {d : ChatStreamDelta} (hcontent : Utf8 d.content) (hreasoning : Utf8 d.reasoning) :
    (m.append d).MadeOf (es ++
      (emitDelta "reasoning_content" d.reasoning ++ emitDelta "content" d.content)) where
  said e he := by
    rcases List.mem_append.mp he with he | he
    · exact (h.said e he).append d
    · rcases List.mem_append.mp he with he | he
      · exact ⟨d.reasoning, hreasoning, .inr ⟨mem_emitDelta he, List.suffix_append _ _ |>.isInfix⟩⟩
      · exact ⟨d.content, hcontent, .inl ⟨mem_emitDelta he, List.suffix_append _ _ |>.isInfix⟩⟩
  shown reqId := by
    have hall := h.shown reqId
    unfold Assembled.all at hall ⊢
    rw [← List.cons_append, List.foldl_append, hall, List.foldl_append,
      foldl_emitDelta_reasoning, foldl_emitDelta_content]
    rfl

/-! ## Without reasoning -/

/-- Chunks that end between code points. -/
theorem madeOf_chunks {chunks : List (List UInt8)} (h : ∀ chunk ∈ chunks, Utf8 chunk) :
    ChatMsg.MadeOf ⟨chunks.flatten, []⟩ (chunks.flatMap (emitDelta "content")) := by
  induction chunks using List.reverseRecOn with
  | nil => exact .nil
  | append_singleton chunks chunk ih =>
    obtain ⟨hbefore, hone⟩ := List.forall_mem_append.mp h
    have hmore := (ih hbefore).append (d := ⟨chunk, []⟩)
      (hone chunk (List.mem_singleton.mpr rfl)) utf8_nil
    rw [List.flatten_append, List.flatten_singleton, List.flatMap_append, List.flatMap_singleton]
    exact hmore

/-- A valid text, in whatever pieces. -/
theorem madeOf_pieces {pieces : List (List UInt8)} (h : Utf8 pieces.flatten) :
    ChatMsg.MadeOf ⟨pieces.flatten, []⟩
      ((StreamCallback.chat.stream pieces).sent.flatMap (emitDelta "content")) := by
  obtain ⟨cs, htext⟩ := h
  have harrives := stream_arrives .chat cs pieces htext fun _ _ => rfl
  have hvalid := (harrives.carried pieces.length).valid
  rw [List.take_length] at hvalid
  have hmade := madeOf_chunks hvalid
  rwa [harrives.sent, ← htext] at hmade

/-! ## With reasoning -/

/-- A message that is another one with valid texts behind. -/
def ChatMsg.GoesOn (m m' : ChatMsg) : Prop :=
  ∃ d : ChatStreamDelta, Utf8 d.content ∧ Utf8 d.reasoning ∧ m' = m.append d

/-- The readings of the text behind the pieces go on from one another. -/
structure CommonChat.ReadsOn (c : CommonChat) (pieces : List (List UInt8)) : Prop where
  begins {n : ℕ} {m : ChatMsg} : c.parse (pieces.take n).flatten = some m → ChatMsg.GoesOn {} m
  goesOn {j k : ℕ} {m m' : ChatMsg} : j ≤ k → c.parse (pieces.take j).flatten = some m →
    c.parse (pieces.take k).flatten = some m' → m.GoesOn m'

variable {c : CommonChat}

/-- A push of a text whose reading, if there is one, goes on from the one before. -/
theorem push_goesOn (hc : c.Faithful) {prev : ChatMsg} {t : List UInt8}
    (h : ∀ m, c.parse t = some m → prev.GoesOn m) :
    ∃ d, c.push prev t = (prev.append d, d) ∧ Utf8 d.content ∧ Utf8 d.reasoning ∧
      (prev.append d = prev ∨ c.parse t = some (prev.append d)) ∧
      ∀ m, c.parse t = some m → prev.append d = m := by
  have hsame : prev.append {} = prev := by
    unfold ChatMsg.append
    rw [List.append_nil, List.append_nil]
  unfold CommonChat.push
  cases hread : c.parse t with
  | none => exact ⟨{}, by rw [hsame], utf8_nil, utf8_nil, .inl hsame, fun _ hm => nomatch hm⟩
  | some m =>
    obtain ⟨d, hcontent, hreasoning, rfl⟩ := h m hread
    dsimp only
    split_ifs with hempty
    · -- nothing goes on to the empty message but itself
      have hparts := ChatMsg.mk.inj hempty
      have hd : d = {} := by
        cases d
        exact congrArg₂ ChatStreamDelta.mk (List.append_eq_nil_iff.mp hparts.1).2
          (List.append_eq_nil_iff.mp hparts.2).2
      subst hd
      exact ⟨{}, by rw [hsame], utf8_nil, utf8_nil, .inl hsame, fun m hm => Option.some.inj hm⟩
    · obtain ⟨ds, hdiffs, hc₁, hr₁⟩ := hc prev d
      rw [hdiffs]
      dsimp only
      rw [hc₁, hr₁]
      exact ⟨d, rfl, hcontent, hreasoning, .inr rfl, fun m hm => Option.some.inj hm⟩

/-- The callback behind some pieces: it holds a reading of a front of them, the reading of all
    of them if there is one, and has sent what it holds. -/
structure Reasoned.Behind (c : CommonChat) (pieces : List (List UInt8)) (st : Reasoned) : Prop where
  accumulated : st.accumulated = pieces.flatten
  front : st.prev = {} ∨ ∃ n, c.parse (pieces.take n).flatten = some st.prev
  read : pieces ≠ [] → ∀ m, c.parse pieces.flatten = some m → st.prev = m
  made : st.prev.MadeOf st.sent

theorem take_min_append (pieces : List (List UInt8)) (piece : List UInt8) (n : ℕ) :
    (pieces ++ [piece]).take (min n pieces.length) = pieces.take n := by
  rw [List.take_append_of_le_length (min_le_right _ _), ← List.take_take, List.take_length]

theorem CommonChat.ReadsOn.init {pieces : List (List UInt8)} {piece : List UInt8}
    (h : c.ReadsOn (pieces ++ [piece])) : c.ReadsOn pieces where
  begins {n m} hm := h.begins (n := min n pieces.length) (by rw [take_min_append, hm])
  goesOn {j k m m'} hjk hm hm' :=
    h.goesOn (j := min j pieces.length) (k := min k pieces.length) (by omega)
      (by rw [take_min_append, hm]) (by rw [take_min_append, hm'])

theorem stream_behind (hc : c.Faithful) {pieces : List (List UInt8)} (h : c.ReadsOn pieces) :
    (c.stream pieces).Behind c pieces := by
  induction pieces using List.reverseRecOn with
  | nil => exact ⟨rfl, .inl rfl, fun hne => absurd rfl hne, .nil⟩
  | append_singleton pieces piece ih =>
    have hbefore := ih h.init
    have hflat : (pieces ++ [piece]).flatten = pieces.flatten ++ piece := by
      rw [List.flatten_append, List.flatten_singleton]
    have hall : (pieces ++ [piece]).take (pieces.length + 1) = pieces ++ [piece] := by
      rw [List.take_of_length_le (List.length_append ▸ le_refl _)]
    have hgo : ∀ m, c.parse (pieces.flatten ++ piece) = some m →
        (c.stream pieces).prev.GoesOn m := by
      intro m hm
      rw [← hflat, ← hall] at hm
      rcases hbefore.front with hnone | ⟨n, hn⟩
      · rw [hnone]
        exact h.begins hm
      · rw [← take_min_append pieces piece] at hn
        exact h.goesOn (by omega) hn hm
    obtain ⟨d, hpush, hcontent, hreasoning, hkept, hread⟩ := push_goesOn hc hgo
    have hstep : c.stream (pieces ++ [piece]) = (c.stream pieces).onToken c piece := by
      unfold CommonChat.stream
      rw [List.foldl_append]
      rfl
    rw [hstep]
    unfold Reasoned.onToken
    dsimp only
    rw [hbefore.accumulated, hpush]
    refine ⟨hflat.symm, ?_, fun _ m hm => hread m (hflat ▸ hm),
      hbefore.made.append hcontent hreasoning⟩
    dsimp only
    rcases hkept with hkept | hkept
    · rw [hkept]
      refine hbefore.front.imp_right fun ⟨n, hn⟩ => ⟨min n pieces.length, ?_⟩
      rw [take_min_append, hn]
    · exact .inr ⟨pieces.length + 1, by rw [hall, hflat, hkept]⟩

/-! ## From the scheduler to the client -/

section

variable {text : JsonText} {reqId modelId : String}

/-- The writer can write what is cut out of a text between code points. -/
def Writes (text : JsonText) (whole : List UInt8) : Prop :=
  ∀ value, Utf8 value → value <:+: whole → text.encodes (.string (ofBytes value)) = true

/-- The stream can be written and is read to its end, and its client has got the message. -/
def Brings (text : JsonText) (reqId modelId : String) (parser : Option CommonChat)
    (pieces : List (List UInt8)) (m : ChatMsg) : Prop :=
  ∃ out, liveStream text reqId modelId parser pieces = .ok out ∧
    readStream text out = some { Assembled.shown reqId m with done := true }

theorem said_finishReason {m : ChatMsg} {e : Delta} (h : m.Said e) : e.finishReason = .null := by
  obtain ⟨value, -, ⟨rfl, -⟩ | ⟨rfl, -⟩⟩ := h <;> rfl

theorem said_written {m : ChatMsg} {e : Delta} (h : m.Said e) : e.Written text := by
  obtain ⟨value, -, ⟨rfl, -⟩ | ⟨rfl, -⟩⟩ := h
  · exact ⟨written_object ["content"] rfl (by decide) (by simp [JsonText.Written.string]), .null⟩
  · exact ⟨written_object ["reasoning_content"] rfl (by decide)
      (by simp [JsonText.Written.string]), .null⟩

theorem said_encodes (hf : text.Faithful) {m : ChatMsg} (hcontent : Writes text m.content)
    (hreasoning : Writes text m.reasoningContent) {e : Delta} (h : m.Said e) :
    text.encodes e.delta = true := by
  obtain ⟨value, hvalid, ⟨rfl, hcut⟩ | ⟨rfl, hcut⟩⟩ := h
  · exact encodes_object_of hf ["content"] rfl (by decide) (by simp [hcontent value hvalid hcut])
  · exact encodes_object_of hf ["reasoning_content"] rfl (by decide)
      (by simp [hreasoning value hvalid hcut])

/-- A stream whose deltas make a message that can be written. -/
theorem brings_of_madeOf (hf : text.Faithful) (hend : text.parse (bytes "[DONE]") = none)
    (hid : text.encodes (.string reqId) = true) (hmodel : text.encodes (.string modelId) = true)
    {parser : Option CommonChat} {pieces : List (List UInt8)} {m : ChatMsg} {es : List Delta}
    (hlive : liveDeltas parser pieces = roleDelta :: es) (h : m.MadeOf es)
    (hcontent : Writes text m.content) (hreasoning : Writes text m.reasoningContent) :
    Brings text reqId modelId parser pieces m := by
  have hrole : roleDelta.Written text :=
    ⟨written_object ["role"] rfl (by decide) (by simp [JsonText.Written.string]), .null⟩
  have hroleEncodes : text.encodes roleDelta.delta = true :=
    encodes_object_of hf ["role"] rfl (by decide)
      (by simp [hf.encodes_ascii (s := "assistant") (by decide)])
  have hok : StreamOk text (roleDelta :: es) := by
    constructor
    · exact List.forall_mem_cons.mpr ⟨hrole, fun e he => said_written (h.said e he)⟩
    · intro e he
      rcases List.mem_cons.mp (List.mem_of_mem_dropLast he) with rfl | he
      · rfl
      · exact said_finishReason (h.said e he)
  have hencodes : ∀ e ∈ roleDelta :: es, text.encodes (e.chunk reqId modelId) = true := by
    refine List.forall_mem_cons.mpr
      ⟨chunk_encodes hf hid hmodel hroleEncodes hf.encodes_null, fun e he => ?_⟩
    have hnull := said_finishReason (h.said e he)
    exact chunk_encodes hf hid hmodel (said_encodes hf hcontent hreasoning (h.said e he))
      (hnull ▸ hf.encodes_null)
  obtain ⟨out, hout⟩ : ∃ out, chunkStream text reqId modelId (roleDelta :: es) = .ok out :=
    ⟨String.ofList ((streamData text reqId modelId _).flatMap Sse.dataFrame),
      chunkStream_eq_ok.mpr ⟨hencodes, String.toList_ofList⟩⟩
  refine ⟨out, ?_, ?_⟩
  · unfold liveStream
    rw [hlive, hout]
  · rw [readStream_chunks hf hend hok hout, h.shown reqId]

end

/-! ## A run -/

/-- The layer of a model whose prompt opens the reasoning, on texts that do not close it. -/
def openThinking : CommonChat where
  parse t := some ⟨[], t⟩
  computeDiffs prev cur :=
    if prev.content <+: cur.content ∧ prev.reasoningContent <+: cur.reasoningContent then
      some [⟨[], cur.reasoningContent.drop prev.reasoningContent.length⟩,
        ⟨cur.content.drop prev.content.length, []⟩]
    else none

theorem openThinking_faithful : openThinking.Faithful := by
  intro m d
  refine ⟨_, if_pos ⟨List.prefix_append _ _, List.prefix_append _ _⟩, ?_, ?_⟩
  · show [] ++ ((m.content ++ d.content).drop m.content.length ++ []) = d.content
    rw [List.drop_left, List.append_nil, List.nil_append]
  · show (m.reasoningContent ++ d.reasoning).drop m.reasoningContent.length ++ ([] ++ []) =
      d.reasoning
    rw [List.drop_left, List.append_nil, List.append_nil]

theorem utf8_letters {t : List UInt8} (h : ∀ b ∈ t, b = 65) : Utf8 t := by
  induction t with
  | nil => exact utf8_nil
  | cons b t ih =>
    obtain ⟨rfl, hmore⟩ := List.forall_mem_cons.mp h
    obtain ⟨cs, rfl⟩ := ih hmore
    exact ⟨'A' :: cs, rfl⟩

theorem openThinking_readsOn {pieces : List (List UInt8)} (h : ∀ b ∈ pieces.flatten, b = 65) :
    openThinking.ReadsOn pieces := by
  have hmem {k : ℕ} {b : UInt8} (hb : b ∈ (pieces.take k).flatten) : b = 65 := by
    obtain ⟨piece, hpiece, hb⟩ := List.mem_flatten.mp hb
    exact h b (List.mem_flatten.mpr ⟨piece, List.mem_of_mem_take hpiece, hb⟩)
  constructor
  · intro n m hm
    obtain rfl := Option.some.inj hm
    exact ⟨⟨[], _⟩, utf8_nil, utf8_letters fun b hb => hmem hb, rfl⟩
  · intro j k m m' hjk hm hm'
    obtain rfl := Option.some.inj hm
    obtain rfl := Option.some.inj hm'
    have hfront : pieces.take j <+: pieces.take k := List.take_prefix_take_left hjk
    obtain ⟨rest, hrest⟩ := hfront.flatten
    refine ⟨⟨[], rest⟩, utf8_nil, utf8_letters fun b hb => ?_, ?_⟩
    · exact hmem (k := k) (hrest ▸ List.mem_append_right _ hb)
    · rw [← hrest]
      rfl

theorem writes_letters {t : List UInt8} (h : ∀ b ∈ t, b = 65) :
    Writes CanonicalJson.canonical t := by
  intro value _ hcut
  refine CanonicalJson.canonical_faithful.encodes_ascii fun ch hch => ?_
  unfold ofBytes at hch
  rw [String.toList_ofList] at hch
  obtain ⟨b, hb, rfl⟩ := List.mem_map.mp hch
  rw [h b (hcut.subset hb)]
  decide

/-- A layer that reads every text as the answer. -/
def asContent : CommonChat where
  parse t := some ⟨t, []⟩
  computeDiffs prev cur := some [⟨cur.content.drop prev.content.length, []⟩]

/-- A character in two tokens is one delta without reasoning, and two halves with it. -/
example : (StreamCallback.chat.stream [[0xC3], [0xA9]]).sent = [[0xC3, 0xA9]] ∧
    (asContent.stream [[0xC3], [0xA9]]).sent =
      [textDeltaOf "content" [0xC3], textDeltaOf "content" [0xA9]] :=
  ⟨by decide +kernel, rfl⟩

end TruellmEngine.Server
