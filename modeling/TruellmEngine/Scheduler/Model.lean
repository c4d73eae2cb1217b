/-
  The continuous batching scheduler (`batch_scheduler.cpp`) as a step machine.

  One worker thread runs `run()`; any number of client threads call `submit()`, and the
  destructor clears `running_`. A label is one atomic step of one of them:

  * `submit req`: the body of `submit()` under `queue_mu_`.
  * `stop`: the destructor stores `false` into `running_`.
  * `work o`: the next step of the worker. `o` is what the outside returns in that step:
    the result of `llama_decode`, the token sampled for each slot, the clock.

  The worker's position is its `Phase`. One iteration of each loop of the source that
  calls the outside or holds a lock is one step: an entry of the admission loop, a chunk
  of the decode loop. `submit` is not enabled while the worker holds `queue_mu_`.

  `submitted` records the submitted requests. It is not read by any step: the promise of
  a request is its index there. `n_past` and the positions are natural numbers.
-/
import TruellmEngine.Engine.Llama
import TruellmEngine.Lib.ForEach
import TruellmEngine.Lib.Run

namespace TruellmEngine.Scheduler

open Lib

/-! ## Slots -/

/-- `ContinuousBatchScheduler::Slot`. `promise` names the request whose promise it holds. -/
structure Slot where
  id : Nat
  seqId : Int := -1
  pendingPrompt : List Token := []
  prefilled : Bool := false
  nPast : Nat := 0
  sampled : Token := 0
  iBatch : Int := -1
  nPrompt : Nat := 0
  nDecoded : Nat := 0
  maxNew : Int := 512
  stopTokenIds : List Token := []
  stopStrings : List Bytes := []
  accumulated : Bytes := []
  genTokenIds : List Token := []
  onToken : Bool := false
  promise : Nat := 0
  warm : Bool := false
  cachedSessionId : Bytes := []
  cachedTokens : List Token := []
  cachedAtUs : Int := 0
  deriving DecidableEq, Repr

def Slot.isFree (slot : Slot) : Bool := slot.seqId == -1
def Slot.isWarm (slot : Slot) : Bool := slot.seqId != -1 && slot.warm
def Slot.isBusy (slot : Slot) : Bool := slot.seqId != -1 && !slot.warm

structure PendingRequest where
  req : GenerateRequest
  promise : Nat
  deriving DecidableEq, Repr

/-- What a slot's step can touch besides the slot: the KV memory, the promises set so far
    and the tokens streamed so far. -/
structure World where
  kv : KvCache
  answers : List (Nat × GenerateResult)
  streamed : List (Nat × Token × Bytes)

def World.setValue (w : World) (promise : Nat) (res : GenerateResult) : World :=
  { w with answers := w.answers ++ [(promise, res)] }

def World.seqRm (w : World) (seqId p0 : Int) : World :=
  { w with kv := llamaMemorySeqRm w.kv seqId p0 (-1) }

/-- What the scheduler is constructed with: the context's sizes, the vocabulary and the
    options. `llama_n_batch` is at least 1 (`inference.batch_size >= 1` is validated). -/
structure Config where
  nCtx : Nat
  nBatch : Nat
  nBatch_pos : 0 < nBatch
  maxSeqs : Nat
  maxQueue : Int
  defaultSmp : SamplingConfig
  vocab : LlamaVocab

/-- Where the worker stands: the loop head, the admission loop, the batch builder, the
    chunk loop at `chunkStart` with the current `n_batch`, or the shutdown drain. -/
inductive Phase where
  | loopHead
  | admission
  | build
  | decode (chunkStart nBatch : Nat)
  | drainSlots
  | drainQueue
  | exited
  deriving DecidableEq, Repr

structure State where
  slots : List Slot
  queue : List PendingRequest
  running : Bool
  phase : Phase
  batch : List BatchEntry
  world : World
  submitted : List GenerateRequest

/-- What the outside returns in one worker step, by slot id where it is per slot. -/
structure Oracle where
  ret : Int := 0
  sample : Nat → Token := fun _ => 0
  now : Nat → Int := fun _ => 0

inductive Label where
  | submit (req : GenerateRequest)
  | stop
  | work (o : Oracle)

def init (cfg : Config) : State where
  slots := (List.range cfg.maxSeqs).map fun i => { id := i }
  queue := []
  running := true
  phase := .loopHead
  batch := []
  world := ⟨KvCache.empty, [], []⟩
  submitted := []

/-! ## Completion -/

def matchesStop (slot : Slot) : Bool :=
  slot.stopStrings.any (endsWithStop slot.accumulated)

/-- The result `complete_slot` sets. -/
def slotResult (slot : Slot) (ec : ErrorCode) (msg finishReason : String) : GenerateResult where
  tokens := slot.genTokenIds
  text := slot.accumulated
  promptTokens := slot.nPrompt
  generatedTokens := slot.nDecoded
  error := ec
  errorMessage := msg
  finishReason := if ec = .ok then finishReason else "error"

/-- Per-request scratch reset at the end of `complete_slot`. -/
def resetScratch (slot : Slot) (nPast : Nat) : Slot :=
  { slot with
    prefilled := false, pendingPrompt := [], accumulated := [], genTokenIds := [],
    stopStrings := [], stopTokenIds := [], onToken := false, nPast := nPast, nPrompt := 0,
    nDecoded := 0, iBatch := -1 }

/-- `complete_slot`: set the promise, then keep the slot warm with its KV (a clean end of a
    request with a session) or free its KV and the slot. -/
def completeSlot (w : World) (slot : Slot) (now : Int) (ec : ErrorCode)
    (msg finishReason : String) : World × Slot :=
  let w := w.setValue slot.promise (slotResult slot ec msg finishReason)
  if ec = .ok ∧ slot.cachedSessionId ≠ [] then
    (w, resetScratch { slot with warm := true, cachedAtUs := now } slot.cachedTokens.length)
  else
    (w.seqRm slot.seqId (-1),
      resetScratch { slot with
        warm := false, cachedSessionId := [], cachedTokens := [], cachedAtUs := 0,
        seqId := -1 } 0)

/-! ## Admission -/

def emptyTokenList : GenerateResult :=
  { error := .invalidArgument, errorMessage := "Empty token list" }

def promptTooLong (cfg : Config) (nPrompt : Nat) : GenerateResult where
  error := .invalidArgument
  errorMessage := "Prompt length (" ++ toString nPrompt ++
    " tokens) exceeds context window (" ++ toString cfg.nCtx ++ " tokens)"
  promptTokens := nPrompt

def queueFull : GenerateResult :=
  { error := .unavailable, errorMessage := "Request queue is full" }

def shuttingDown : GenerateResult :=
  { error := .unavailable, errorMessage := "Scheduler shutting down" }

/-- Longest common prefix: `while (common < cap && cached[common] == fresh[common])`. -/
def commonPrefix : List Token → List Token → Nat
  | c :: cached, f :: fresh => if c = f then commonPrefix cached fresh + 1 else 0
  | _, _ => 0

def kMinReusePrefixToks : Nat := 64

/-- The warm-slot search: it stops at the first warm slot of the session, and takes it only
    when enough of the prompt is cached. -/
def findWarm (req : GenerateRequest) : List Slot → Option (Slot × Nat)
  | [] => none
  | s :: rest =>
    if s.isWarm ∧ s.cachedSessionId = req.sessionId then
      let common := commonPrefix s.cachedTokens req.tokens
      if kMinReusePrefixToks ≤ common then some (s, common) else none
    else findWarm req rest

def int64Max : Int := 9223372036854775807

/-- The least recently cached warm slot. -/
def lruVictim (slots : List Slot) : Option Slot :=
  (slots.foldl (fun best s =>
    if s.isWarm ∧ s.cachedAtUs < best.2 then (some s, s.cachedAtUs) else best)
    (none, int64Max)).1

/-- How `try_admit_pending` found its slot. -/
inductive Selection where
  | reuse (slot : Slot) (prefixLen : Nat)
  | free (slot : Slot)
  | evict (slot : Slot)

def selectSlot (slots : List Slot) (req : GenerateRequest) : Option Selection :=
  match (if req.sessionId ≠ [] then findWarm req slots else none) with
  | some (slot, common) => some (.reuse slot common)
  | none =>
    match slots.find? Slot.isFree with
    | some slot => some (.free slot)
    | none => (lruVictim slots).map .evict

/-- LRU eviction of a warm slot. -/
def evictSlot (w : World) (victim : Slot) : World × Slot :=
  (w.seqRm victim.seqId (-1),
    { victim with
      seqId := -1, warm := false, cachedSessionId := [], cachedTokens := [],
      cachedAtUs := 0 })

/-- KV placement of an admitted request: reuse of a cached prefix, or a cold admit. -/
def placePrompt (w : World) (slot : Slot) (req : GenerateRequest) (prefixLen : Nat) :
    World × Slot :=
  if 0 < prefixLen then
    (w.seqRm slot.seqId prefixLen,
      { slot with
        prefilled := false, nPast := prefixLen,
        pendingPrompt := req.tokens.drop prefixLen })
  else
    (if slot.warm then w.seqRm slot.seqId (-1) else w,
      { slot with
        seqId := slot.id, prefilled := false, nPast := 0, pendingPrompt := req.tokens })

/-- The per-request state common to both kinds of admission. -/
def startRequest (cfg : Config) (slot : Slot) (entry : PendingRequest) : Slot :=
  { slot with
    warm := false
    cachedSessionId := entry.req.sessionId
    cachedTokens := entry.req.tokens
    nPrompt := entry.req.tokens.length
    nDecoded := 0
    iBatch := -1
    maxNew := if 0 < entry.req.maxTokens then entry.req.maxTokens
      else cfg.defaultSmp.maxTokens
    stopTokenIds := entry.req.stopTokens
    stopStrings := cfg.defaultSmp.stop
    accumulated := []
    genTokenIds := []
    onToken := entry.req.onToken
    promise := entry.promise }

/-- The selected slot after the request is admitted into it. -/
def admitInto (cfg : Config) (w : World) (entry : PendingRequest) (sel : Selection) :
    World × Slot :=
  match sel with
  | .reuse slot prefixLen =>
    let r := placePrompt w slot entry.req prefixLen
    (r.1, startRequest cfg r.2 entry)
  | .free slot =>
    let r := placePrompt w slot entry.req 0
    (r.1, startRequest cfg r.2 entry)
  | .evict slot =>
    let e := evictSlot w slot
    let r := placePrompt e.1 e.2 entry.req 0
    (r.1, startRequest cfg r.2 entry)

/-- Write a slot back under its id. -/
def updateSlot (slots : List Slot) (slot : Slot) : List Slot :=
  slots.map fun s => if s.id = slot.id then slot else s

/-- One iteration of the `while (!queue_.empty())` loop of `try_admit_pending`. -/
def tryAdmitFront (cfg : Config) (s : State) : State :=
  match s.queue with
  | [] => { s with phase := .build }
  | entry :: rest =>
    if entry.req.tokens = [] then
      { s with world := s.world.setValue entry.promise emptyTokenList, queue := rest }
    else if cfg.nCtx ≤ entry.req.tokens.length then
      { s with
        world := s.world.setValue entry.promise (promptTooLong cfg entry.req.tokens.length)
        queue := rest }
    else
      match selectSlot s.slots entry.req with
      | none => { s with phase := .build }
      | some sel =>
        let r := admitInto cfg s.world entry sel
        { s with world := r.1, slots := updateSlot s.slots r.2, queue := rest }

/-! ## Batch -/

def batchAdd (b : List BatchEntry) (tok : Token) (pos : Nat) (seqId : Int)
    (needLogits : Bool) : List BatchEntry :=
  b ++ [⟨tok, pos, seqId, needLogits⟩]

/-- `for (i = 0; i < np; ++i) batch_add(...)`, from prompt index `i` on. -/
def addPrompt (b : List BatchEntry) (seqId : Int) (np : Nat) :
    List Token → (pos i : Nat) → List BatchEntry
  | [], _, _ => b
  | tok :: toks, pos, i =>
    addPrompt (batchAdd b tok pos seqId (i + 1 == np)) seqId np toks (pos + 1) (i + 1)

/-- The part of the batch one busy slot adds. -/
def buildSlot (st : World × List BatchEntry) (slot : Slot) :
    (World × List BatchEntry) × Slot :=
  if !slot.isBusy then (st, slot)
  else if !slot.prefilled then
    if slot.pendingPrompt = [] then
      -- the whole prompt is cached: evaluate its last token again for a fresh logit
      if 0 < slot.nPast then
        let lastPos := slot.nPast - 1
        let b := batchAdd st.2 (slot.cachedTokens.getD lastPos 0) lastPos slot.seqId true
        ((st.1.seqRm slot.seqId lastPos, b),
          { slot with iBatch := (b.length : Int) - 1, nPast := lastPos + 1 })
      else (st, slot)
    else
      let np := slot.pendingPrompt.length
      let b := addPrompt st.2 slot.seqId np slot.pendingPrompt slot.nPast 0
      ((st.1, b), { slot with iBatch := (b.length : Int) - 1, nPast := slot.nPast + np })
  else
    ((st.1, batchAdd st.2 slot.sampled slot.nPast slot.seqId true),
      { slot with iBatch := st.2.length, nPast := slot.nPast + 1 })

/-- Count the busy slots, then build the batch of all of them. -/
def buildBatch (cfg : Config) (s : State) : State :=
  if s.slots.all (fun slot => !slot.isBusy) then { s with phase := .loopHead }
  else
    let r := forEach buildSlot (s.world, []) s.slots
    { s with
      world := r.1.1, batch := r.1.2, slots := r.2
      phase := if r.1.2 = [] then .loopHead else .decode 0 cfg.nBatch }

/-! ## Decode and sampling -/

/-- The slots an unrecoverable decode failure ends: those at or after the failing chunk. -/
def failSlot (chunkStart : Nat) (o : Oracle) (w : World) (slot : Slot) : World × Slot :=
  if slot.isBusy ∧ (chunkStart : Int) ≤ slot.iBatch then
    completeSlot w slot (o.now slot.id) .internalError "llama_decode failed" "stop"
  else (w, slot)

/-- A sampled token before its end-of-generation check: the prompt is consumed. -/
def takeSample (slot : Slot) (tok : Token) : Slot :=
  { slot with
    pendingPrompt := if slot.prefilled then slot.pendingPrompt else []
    prefilled := true
    sampled := tok
    iBatch := -1 }

/-- A non-EOG token joins the output and the session history. -/
def emitToken (slot : Slot) (tok : Token) (piece : Bytes) : Slot :=
  { slot with
    nDecoded := slot.nDecoded + 1
    accumulated := slot.accumulated ++ piece
    genTokenIds := slot.genTokenIds ++ [tok]
    cachedTokens := slot.cachedTokens ++ [tok] }

def maxHit (slot : Slot) : Bool := decide (slot.maxNew ≤ slot.nDecoded)

def stopById (slot : Slot) (tok : Token) : Bool := slot.stopTokenIds.any (· == tok)

/-- The streaming callback. -/
def callOnToken (w : World) (slot : Slot) (tok : Token) (piece : Bytes) : World :=
  if slot.onToken then { w with streamed := w.streamed ++ [(slot.promise, tok, piece)] } else w

/-- Step 4 of `run()` for one slot: take the sampled token and check every stop condition. -/
def sampleSlot (cfg : Config) (w : World) (slot : Slot) (tok : Token) (now : Int) :
    World × Slot :=
  let piece := pieceText cfg.vocab tok false
  let slot := takeSample slot tok
  if cfg.vocab.isEog tok then completeSlot w slot now .ok "" "stop"
  else
    let slot := emitToken slot tok piece
    let w := callOnToken w slot tok piece
    if matchesStop slot || maxHit slot || stopById slot tok then
      completeSlot w slot now .ok "" (if maxHit slot then "length" else "stop")
    else (w, slot)

/-- The sampling loop body: only busy slots whose logit is in the chunk are sampled. -/
def sampleInChunk (cfg : Config) (o : Oracle) (chunkStart nTokens : Nat) (w : World)
    (slot : Slot) : World × Slot :=
  if slot.isBusy ∧ (chunkStart : Int) ≤ slot.iBatch ∧
      slot.iBatch < (chunkStart : Int) + nTokens then
    sampleSlot cfg w slot (o.sample slot.id) (o.now slot.id)
  else (w, slot)

/-- The chunk view handed to `llama_decode`. -/
def chunkView (batch : List BatchEntry) (chunkStart nTokens : Nat) : List BatchEntry :=
  (batch.drop chunkStart).take nTokens

/-- One iteration of the chunk loop. -/
def decodeChunk (cfg : Config) (o : Oracle) (s : State) (chunkStart nBatch : Nat) : State :=
  if s.batch.length ≤ chunkStart then { s with phase := .loopHead }
  else
    let nTokens := min nBatch (s.batch.length - chunkStart)
    if o.ret ≠ 0 then
      if nBatch = 1 ∨ o.ret < 0 then
        let r := forEach (failSlot chunkStart o) s.world s.slots
        { s with world := r.1, slots := r.2, phase := .loopHead }
      else { s with phase := .decode chunkStart (nBatch / 2) }
    else
      let w := { s.world with
        kv := llamaDecode s.world.kv (chunkView s.batch chunkStart nTokens) }
      let r := forEach (sampleInChunk cfg o chunkStart nTokens) w s.slots
      { s with
        world := r.1, slots := r.2, phase := .decode (chunkStart + nTokens) cfg.nBatch }

/-! ## Shutdown -/

def drainSlot (o : Oracle) (w : World) (slot : Slot) : World × Slot :=
  if slot.isBusy then
    completeSlot w { slot with cachedSessionId := [] } (o.now slot.id) .unavailable
      "Scheduler shutting down" "stop"
  else if slot.isWarm then
    (w.seqRm slot.seqId (-1),
      { slot with warm := false, cachedSessionId := [], cachedTokens := [], seqId := -1 })
  else (w, slot)

def drainSlots (o : Oracle) (s : State) : State :=
  let r := forEach (drainSlot o) s.world s.slots
  { s with world := r.1, slots := r.2, phase := .drainQueue }

/-- The final drain of the queue, under `queue_mu_`. -/
def drainQueue (s : State) : State :=
  { s with
    world := s.queue.foldl (fun w entry => w.setValue entry.promise shuttingDown) s.world
    queue := []
    phase := .exited }

/-! ## The machine -/

/-- `submit()` under `queue_mu_`. -/
def submit (cfg : Config) (s : State) (req : GenerateRequest) : State :=
  let promise := s.submitted.length
  let s := { s with submitted := s.submitted ++ [req] }
  if cfg.maxQueue ≤ s.queue.length then
    { s with world := s.world.setValue promise queueFull }
  else { s with queue := s.queue ++ [⟨req, promise⟩] }

/-- The worker holds `queue_mu_` for the whole admission loop. -/
def State.queueLocked (s : State) : Bool := s.phase == .admission

/-- The next step of the worker thread. -/
def workerStep (cfg : Config) (o : Oracle) (s : State) : Option State :=
  match s.phase with
  | .loopHead => some { s with phase := if s.running then .admission else .drainSlots }
  | .admission => some (tryAdmitFront cfg s)
  | .build => some (buildBatch cfg s)
  | .decode chunkStart nBatch => some (decodeChunk cfg o s chunkStart nBatch)
  | .drainSlots => some (drainSlots o s)
  | .drainQueue => some (drainQueue s)
  | .exited => none

def step (cfg : Config) (s : State) : Label → Option State
  | .submit req => if s.queueLocked then none else some (submit cfg s req)
  | .stop => some { s with running := false }
  | .work o => workerStep cfg o s

end TruellmEngine.Scheduler
