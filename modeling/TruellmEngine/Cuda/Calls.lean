/-
  Concurrent calls of `CudaEngine::generate`.

  The calls share the block allocator, the KV pool, one host vector of logits
  (`d_logits_buf_`), the attention capture of the token reduction and the codebooks of the KV
  compression. The atomic steps of a call are the allocator's operations, the reduction of the
  prompt, a forward pass with what follows it, and one sampling with the checks that follow it.
  Behind a megakernel prefill these are the compression of the pool and the capture.

  The pool is a map from slots to cells. The legacy forward pass addresses position `p` of a
  sequence through its block table, the megakernel by the offset `p` itself, whatever the
  sequence (`slotOf`). The forward pass is any function of the cells before and the new
  tokens, the compression any function of the codebooks and the pool, and the sampler any
  function of the logits. As a ghost, cells and logits carry the call and the forward pass that
  wrote them; a compressed cell keeps its writer.

  Left out: the active-session registry (it serves `inject_tokens`) and the timings.
-/
import TruellmEngine.Cuda.Allocator
import TruellmEngine.Engine.GgmlCalls
import Mathlib.Data.Fintype.Defs

namespace TruellmEngine.Cuda

open Lib

variable {ι Cell Logits Capture Book : Type*}

/-- The engine: its model and configuration. -/
structure Engine (Cell Logits Capture Book : Type*) where
  vocab : LlamaVocab
  blockSize : Nat
  blockSize_pos : 0 < blockSize
  maxNumBlocks : Nat
  useMegakernel : Bool
  /-- The forward pass: the cells of the new tokens and the last logits. -/
  forward : List Cell → List Token → Except ErrorCode ((Nat → Cell) × Logits)
  sampler : Logits → Token
  /-- `run_scoring_pass`, which reads what the last megakernel prefill captured. -/
  compressTokens : Capture → List Token → List Token
  /-- `update_cache`, after a megakernel prefill of the tokens. -/
  updateCache : Capture → List Token → Capture
  /-- `run_kv_compression_pass` over the given number of tokens: the codebooks it leaves, and
      the cells of the pool's slots. The first call with vectors enough seeds the codebooks,
      and later ones encode with them. -/
  runKvCompressionPass : Book → Nat → (Nat → Cell) → Book × (Nat → Cell)
  zeroCell : Cell
  noLogits : Logits
  noCapture : Capture
  noCodebook : Book

/-- What the calls share. -/
structure Device (ι Cell Logits Capture Book : Type*) where
  alloc : Allocator Unit
  kv : Nat → Written ι Cell
  logits : Written ι Logits
  capture : Capture
  codebook : Book

inductive Phase where
  | allocate
  | reduce
  /-- `extend_sequence` before the prefill, of the whole prompt or of position `i`. -/
  | extend (i : Nat)
  | prefill
  | sample
  | decodeExtend
  | decode
  | release
  | returned
  deriving DecidableEq

/-- A call. `seqPos` counts the positions filled so far: it is the loop variable of the
    legacy prefill, and `seq_pos` of the decode loop. -/
structure Call where
  req : GenerateRequest
  phase : Phase := .allocate
  prompt : List Token := []
  nextToken : Token := 0
  step : Nat := 0
  seqPos : Nat := 0
  passes : Nat := 0
  result : GenerateResult := .zero
  deriving DecidableEq

namespace Phase

/-- The call has a block table. -/
def live : Phase → Bool
  | .allocate | .returned => false
  | _ => true

/-- The call may still read the cells it wrote. -/
def reads : Phase → Bool
  | .allocate | .release | .returned => false
  | _ => true

/-- The next step is a forward pass. -/
def forwards : Phase → Bool
  | .prefill | .decode => true
  | _ => false

end Phase

variable (e : Engine Cell Logits Capture Book)

def Engine.newDevice (ι : Type*) : Device ι Cell Logits Capture Book where
  alloc := Allocator.init e.blockSize e.maxNumBlocks ()
  kv := fun _ => ⟨e.zeroCell, none⟩
  logits := ⟨e.noLogits, none⟩
  capture := e.noCapture
  codebook := e.noCodebook

/-! ## The forward pass -/

/-- The pool slot of position `p` of a sequence. -/
def slotOf (a : Allocator Unit) (seqId : UInt64) (p : Nat) : Nat :=
  if e.useMegakernel then p
  else (a.tableOf seqId).getD (p / e.blockSize) 0 * e.blockSize + p % e.blockSize

/-- Write `len` cells at the slots of the positions from `pos` on. -/
def writeCells (slot : Nat → Nat) (pos len : Nat) (new : Nat → Written ι Cell)
    (kv : Nat → Written ι Cell) : Nat → Written ι Cell :=
  (List.range len).foldl (fun kv k => Function.update kv (slot (pos + k)) (new k)) kv

/-- `run_forward` and `run_forward_megakernel`: read the cells of the positions before
    `pos`, write those of the new tokens, and the logits. -/
def runForward (i : ι) (seqId : UInt64) (pass : Nat) (d : Device ι Cell Logits Capture Book)
    (pos : Nat) (tokens : List Token) : Except ErrorCode (Device ι Cell Logits Capture Book) :=
  match e.forward ((List.range pos).map fun p => (d.kv (slotOf e d.alloc seqId p)).value)
      tokens with
  | .error ec => .error ec
  | .ok (cells, logits) =>
    .ok { d with
      kv := writeCells (slotOf e d.alloc seqId) pos tokens.length
        (fun k => ⟨cells k, some (i, pass)⟩) d.kv
      logits := ⟨logits, some (i, pass)⟩ }

/-- The compression of the pool in place. -/
def Device.compressed (d : Device ι Cell Logits Capture Book) (n : Nat) :
    Device ι Cell Logits Capture Book :=
  let (codebook, cells) := e.runKvCompressionPass d.codebook n fun x => (d.kv x).value
  { d with codebook := codebook, kv := fun x => ⟨cells x, (d.kv x).writer⟩ }

/-- What follows a prefill pass of a prompt: on the megakernel path, the compression and
    `update_cache`. -/
def Device.prefilled (d : Device ι Cell Logits Capture Book) (prompt : List Token) :
    Device ι Cell Logits Capture Book :=
  if e.useMegakernel then
    { d.compressed e prompt.length with capture := e.updateCache d.capture prompt }
  else d

/-! ## The call -/

/-- An early return with an error, after `free_sequence`. -/
def Call.fail (c : Call) (ec : ErrorCode) (msg : String) : Call :=
  { c with phase := .release, result := { c.result with error := ec, errorMessage := msg } }

/-- The end of `generate`: the sequence is freed and the result returned. -/
def Call.finish (c : Call) : Call :=
  { c with
    phase := .release
    result := { c.result with generatedTokens := c.result.tokens.length, error := .ok } }

/-- The tokens of the next prefill pass: all of them, or one. -/
def Call.chunk (c : Call) : List Token :=
  if e.useMegakernel then c.prompt else (c.prompt.drop c.seqPos).take 1

/-- The first extension or forward pass of the prefill. -/
def Call.beginPrefill (c : Call) : Call :=
  if e.useMegakernel then
    if e.blockSize < c.prompt.length then { c with phase := .extend e.blockSize }
    else { c with phase := .prefill }
  else if c.prompt = [] then { c with phase := .sample }
  else { c with phase := .prefill }

/-- What follows an extension at `k`. -/
def Call.afterExtend (c : Call) (k : Nat) : Call :=
  if e.useMegakernel && decide (k + e.blockSize < c.prompt.length) then
    { c with phase := .extend (k + e.blockSize) }
  else { c with phase := .prefill }

/-- What follows a prefill pass. -/
def Call.afterPrefill (c : Call) : Call :=
  if e.useMegakernel || decide (c.prompt.length ≤ c.seqPos) then { c with phase := .sample }
  else if c.seqPos % e.blockSize = 0 then { c with phase := .extend c.seqPos }
  else { c with phase := .prefill }

/-- `for (int step = 0; step < request.max_tokens; ++step)` with the sampled token, up to the
    next extension or forward pass. -/
def Call.afterSample (c : Call) (token : Token) : Call :=
  let c := { c with nextToken := token }
  if c.req.maxTokens ≤ c.step then c.finish
  else if e.vocab.typed && token == e.vocab.eos then c.finish
  else if c.req.stopTokens.any (token == ·) then c.finish
  else
    let c := { c with result := cudaPush c.result token (pieceText e.vocab token true) }
    if c.seqPos % e.blockSize = 0 then { c with phase := .decodeExtend }
    else { c with phase := .decode }

variable (seqId : ι → UInt64)

/-- One atomic step of `generate` for call `i`, which drew the sequence id `seqId i`. -/
def act (i : ι) (d : Device ι Cell Logits Capture Book) (c : Call) :
    Device ι Cell Logits Capture Book × Call :=
  match c.phase with
  | .allocate =>
    let r := d.alloc.allocateSequence (seqId i) c.req.tokens.length
    if r.1 then ({ d with alloc := r.2 }, { c with phase := .reduce })
    else
      ({ d with alloc := r.2 },
        { c.fail .unavailable "KV pool exhausted" with phase := .returned })
  | .reduce =>
    let prompt := e.compressTokens d.capture c.req.tokens
    (d, { c with
      prompt := prompt
      result := { c.result with promptTokens := prompt.length } }.beginPrefill e)
  | .extend k =>
    match d.alloc.extendSequence (seqId i) with
    | (none, a) => ({ d with alloc := a }, c.fail .unavailable "KV pool exhausted during prefill")
    | (some _, a) => ({ d with alloc := a }, c.afterExtend e k)
  | .prefill =>
    match runForward e i (seqId i) (c.passes + 1) d c.seqPos (c.chunk e) with
    | .error ec =>
      (d, c.fail ec
        (if e.useMegakernel then "Megakernel prefill failed" else "Prefill step failed"))
    | .ok d =>
      (d.prefilled e c.prompt,
        { c with passes := c.passes + 1, seqPos := c.seqPos + (c.chunk e).length }.afterPrefill e)
  | .sample => (d, c.afterSample e (e.sampler d.logits.value))
  | .decodeExtend =>
    match d.alloc.extendSequence (seqId i) with
    | (none, a) => ({ d with alloc := a }, c.finish)
    | (some _, a) => ({ d with alloc := a }, { c with phase := .decode })
  | .decode =>
    match runForward e i (seqId i) (c.passes + 1) d c.seqPos [c.nextToken] with
    | .error _ => (d, c.finish)
    | .ok d =>
      (d, { c with
        passes := c.passes + 1, seqPos := c.seqPos + 1, step := c.step + 1, phase := .sample })
  | .release =>
    ({ d with alloc := d.alloc.freeSequence (seqId i) }, { c with phase := .returned })
  | .returned => (d, c)

/-! ## Isolation -/

/-- The calls at a moment: the device, and the calls that are issued on it. -/
abbrev Calls (ι Cell Logits Capture Book : Type*) :=
  Threads ι (Device ι Cell Logits Capture Book) Call

/-- The tokens of the next forward pass. -/
def Call.forwardTokens (c : Call) : List Token :=
  if c.phase = .prefill then c.chunk e else [c.nextToken]

/-- A forward pass of another call would overwrite what the call reads next: the logits
    before a sampling, and on the megakernel path the cells after the prefill. -/
def Call.Exposed (c : Call) : Prop :=
  c.phase = .sample ∨
    (e.useMegakernel = true ∧ (c.phase = .decodeExtend ∨ c.phase = .decode))

/-- Where a megakernel prefill gives the positions these cells, the codebooks and the cells
    that earlier calls left do not change what the compression makes of them. -/
def CompressedAlike (d : Device ι Cell Logits Capture Book) (n : Nat) (cells : Nat → Cell) :
    Prop :=
  ∀ p < n,
    (e.runKvCompressionPass d.codebook n fun x => if x < n then cells x else (d.kv x).value).2 p =
      (e.runKvCompressionPass e.noCodebook n fun x => if x < n then cells x else e.zeroCell).2 p

/-- What a step of call `i` in a phase must find, so that the calls do not see each other:
    blocks are refused to a call only if it would not get them alone, what earlier prefills
    captured does not change the reduced prompt, which the legacy path requires to have a
    token, a forward pass is run while no other call is exposed, and what earlier prefills left
    does not change the compression of a megakernel prefill. -/
def UndisturbedIn (w : Calls ι Cell Logits Capture Book) (i : ι) : Phase → Prop
  | .allocate =>
    w.shared.alloc.promptBlocks (w.locals i).req.tokens.length ≤ w.shared.alloc.freeList.length ∨
      e.maxNumBlocks < w.shared.alloc.promptBlocks (w.locals i).req.tokens.length
  | .reduce =>
    e.compressTokens w.shared.capture (w.locals i).req.tokens =
        e.compressTokens e.noCapture (w.locals i).req.tokens ∧
      (e.useMegakernel = true ∨ e.compressTokens e.noCapture (w.locals i).req.tokens ≠ [])
  | .extend _ | .decodeExtend =>
    w.shared.alloc.freeList ≠ [] ∨
      e.maxNumBlocks ≤ (w.shared.alloc.tableOf (seqId i)).length
  | .prefill =>
    (∀ j, j ≠ i → ¬ (w.locals j).Exposed e) ∧
      (e.useMegakernel = true → ∀ out ∈ (e.forward [] (w.locals i).prompt).toOption,
        CompressedAlike e w.shared (w.locals i).prompt.length out.1)
  | .decode => ∀ j, j ≠ i → ¬ (w.locals j).Exposed e
  | .sample | .release | .returned => True

def Undisturbed (w : Calls ι Cell Logits Capture Book) (i : ι) : Prop :=
  UndisturbedIn e seqId w i (w.locals i).phase

instance (c : Call) : Decidable (c.Exposed e) := inferInstanceAs (Decidable (_ ∨ _ ∧ (_ ∨ _)))

instance [DecidableEq Cell] (d : Device ι Cell Logits Capture Book) (n : Nat)
    (cells : Nat → Cell) : Decidable (CompressedAlike e d n cells) :=
  inferInstanceAs (Decidable (∀ p < n, _))

instance [Fintype ι] [DecidableEq ι] [DecidableEq Cell] (w : Calls ι Cell Logits Capture Book)
    (i : ι) : (ph : Phase) → Decidable (UndisturbedIn e seqId w i ph)
  | .allocate => inferInstanceAs (Decidable (_ ∨ _))
  | .reduce => inferInstanceAs (Decidable (_ ∧ (_ ∨ _)))
  | .extend _ => inferInstanceAs (Decidable (_ ∨ _))
  | .decodeExtend => inferInstanceAs (Decidable (_ ∨ _))
  | .prefill => inferInstanceAs (Decidable ((∀ j, j ≠ i → _) ∧ (_ → ∀ out ∈ _, _)))
  | .decode => inferInstanceAs (Decidable (∀ j, j ≠ i → ¬ (w.locals j).Exposed e))
  | .sample => inferInstanceAs (Decidable True)
  | .release => inferInstanceAs (Decidable True)
  | .returned => inferInstanceAs (Decidable True)

instance [Fintype ι] [DecidableEq ι] [DecidableEq Cell] (w : Calls ι Cell Logits Capture Book)
    (i : ι) : Decidable (Undisturbed e seqId w i) :=
  inferInstanceAs (Decidable (UndisturbedIn e seqId w i _))

/-- A forward pass reads cells of its own call only, and writes to no slot that holds a cell
    another call may still read; on the megakernel path, where a compression may follow, no
    other call has any. A sampling finds the logits of the call's last forward pass. -/
def Isolated (w : Calls ι Cell Logits Capture Book) (i : ι) : Prop :=
  match (w.locals i).phase with
  | .prefill | .decode =>
    (∀ p < (w.locals i).seqPos,
      ∃ n, (w.shared.kv (slotOf e w.shared.alloc (seqId i) p)).writer = some (i, n)) ∧
    ∀ j, j ≠ i → (w.locals j).phase.reads = true →
      (e.useMegakernel = true → (w.locals j).seqPos = 0) ∧
        ∀ p < (w.locals j).seqPos, ∀ k < ((w.locals i).forwardTokens e).length,
          slotOf e w.shared.alloc (seqId i) ((w.locals i).seqPos + k) ≠
            slotOf e w.shared.alloc (seqId j) p
  | .sample => w.shared.logits.writer = some (i, (w.locals i).passes)
  | _ => True

end TruellmEngine.Cuda
