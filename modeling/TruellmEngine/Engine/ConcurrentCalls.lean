/-
  Concurrent calls of `generate`, on the three engines without the batch scheduler.

  `docs/architecture.md` has `generate()` serialized by a mutex in the router, "one
  inference at a time"; neither the router nor the engines have one.
  `concurrent_calls_separate` states which schedules need none. `concurrent_calls_mixed`
  is one schedule for each engine on which a call returns another call's tokens.
-/
import TruellmEngine.Cuda.CallsIsolated
import Mathlib.Data.Fintype.Basic

namespace TruellmEngine

open Lib

variable {ι Cell Logits Capture Book : Type*} [DecidableEq ι]

/-- On the ggml engine, while no call resets the cache under a running one, and on the CUDA
    engine, on the legacy and on the megakernel path, while no step disturbs another call:
    every call is always where it would be alone, every forward pass reads and writes cells
    of its own call only, and every sampled token comes from the call's last logits. The
    calls of the CUDA engine have drawn different sequence ids. -/
theorem concurrent_calls_separate (reqs : ι → GenerateRequest) (is : List ι) :
    (∀ (e : Ggml.Engine Cell Logits) (samplers : ι → Logits → Token),
      AllSteps (Threads.step (Ggml.act e)) Ggml.Undisturbed
          (Threads.start (e.newContext ι) (Ggml.issued reqs samplers)) is →
        Ggml.CallsSeparate e reqs samplers is) ∧
    ∀ (e : Cuda.Engine Cell Logits Capture Book) (seqId : ι ↪ UInt64),
      AllSteps (Threads.step (Cuda.act e seqId)) (Cuda.Undisturbed e seqId)
          (Threads.start (e.newDevice ι) (Cuda.issued reqs)) is →
        Cuda.CallsSeparate e seqId reqs is := by
  constructor
  · intro e samplers hok
    exact Ggml.callsSeparate e reqs samplers hok
  · intro e seqId hok
    exact Cuda.callsSeparate e seqId.injective reqs hok

/-! ## Small engines -/

/-- The cell of a token is the token, the logits are the context, and the sampler adds it
    up. -/
def sumForward (cells tokens : List Token) : (Nat → Token) × List Token :=
  (fun k => tokens.getD k 0, cells ++ tokens)

def sumSampler (logits : List Token) : Token := logits.foldl (· + ·) 0

def sumGgml : Ggml.Engine Token (List Token) where
  vocab := Scheduler.tinyVocab
  smp := {}
  nBatch := 8
  forward cells tokens := some (sumForward cells tokens)
  noLogits := []

/-- A codebook of one entry, the first cell it is given, and with it the encoding of the tokens
    (`kv_vq` with `codebook_size = 1`, on prompts of one token). -/
def oneEntry (codebook : Option Token) (n : Nat) (cells : Nat → Token) :
    Option Token × (Nat → Token) :=
  let entry := codebook.getD (cells 0)
  (some entry, fun p => if p < n then entry else cells p)

def sumCuda (useMegakernel kvVq : Bool) :
    Cuda.Engine Token (List Token) Unit (Option Token) where
  vocab := Scheduler.tinyVocab
  blockSize := 4
  blockSize_pos := by decide
  maxNumBlocks := 8
  useMegakernel := useMegakernel
  forward cells tokens := .ok (sumForward cells tokens)
  sampler := sumSampler
  compressTokens _ tokens := tokens
  updateCache _ _ := ()
  runKvCompressionPass codebook n cells :=
    if kvVq then oneEntry codebook n cells else (codebook, cells)
  zeroCell := 0
  noLogits := []
  noCapture := ()
  noCodebook := none

/-- Prompts `[10]` and `[20]`, two tokens each. -/
def twoRequests (i : Fin 2) : GenerateRequest where
  tokens := [10 * ((i : Nat) + 1)]
  maxTokens := 2

/-- The sequence ids 1 and 2. -/
def twoIds : Fin 2 ↪ UInt64 where
  toFun i := if i = 0 then 1 else 2
  inj' := by decide

/-- The two calls one after the other on the ggml engine, interleaved between sampling and
    forward pass on the legacy CUDA engine, and between the last sampling of the one and the
    prefill of the other on the megakernel path. -/
theorem two_calls_separate :
    Ggml.CallsSeparate sumGgml twoRequests (fun _ => sumSampler)
        [0, 0, 0, 0, 0, 0, 1, 1, 1, 1, 1, 1] ∧
      Cuda.CallsSeparate (sumCuda false true) twoIds twoRequests
        [0, 1, 0, 1, 0, 0, 1, 1, 0, 0, 1, 1, 0, 0, 1, 1, 0, 1] ∧
      Cuda.CallsSeparate (sumCuda true false) twoIds twoRequests
        [0, 1, 0, 1, 0, 0, 0, 0, 0, 0, 1, 1, 1, 1, 1, 1, 0, 1] := by
  refine ⟨?_, ?_, ?_⟩
  · apply (@concurrent_calls_separate _ _ _ Unit Unit _ twoRequests _).1
    decide +kernel
  · apply (concurrent_calls_separate twoRequests _).2
    decide +kernel
  · apply (concurrent_calls_separate twoRequests _).2
    decide +kernel

/-- What call 0 has returned so far, in a run and alone. -/
def firstTokens {S L : Type*} (act : Fin 2 → S → L → S × L) (s : S) (l : Fin 2 → L)
    (tokens : L → List Token) (is : List (Fin 2)) : Option (List Token × List Token) :=
  (run (Threads.step act) (Threads.start s l) is).map fun w =>
    (tokens (w.locals 0), tokens (Threads.alone act 0 s (l 0) (w.taken 0)).2)

theorem not_asAlone {S L : Type*} {act : Fin 2 → S → L → S × L} {s : S} {l : Fin 2 → L}
    {tokens : L → List Token} {is : List (Fin 2)} {xs ys : List Token}
    (h : firstTokens act s l tokens is = some (xs, ys)) (hne : xs ≠ ys) :
    ¬ AllStates (Threads.step act) (Threads.AsAlone act s l) (Threads.start s l) is := by
  intro hall
  obtain ⟨w, hw, hview⟩ := Option.map_eq_some_iff.mp h
  have hlast := hall.last hw 0
  rw [Prod.mk.injEq] at hview
  obtain ⟨hxs, hys⟩ := hview
  apply hne
  rw [← hxs, ← hys, ← hlast]

/-- The second call runs its prefill while the first one is about to sample, or, on the
    megakernel path, about to feed its first token back: the next token of the first call is
    computed from the prompt of the second. With `kv_vq` the megakernel path does so even where
    the second call has returned before the first one begins: the first prompt is encoded with
    the codebook of the second. -/
theorem concurrent_calls_mixed :
    ¬ Ggml.CallsSeparate sumGgml twoRequests (fun _ => sumSampler) [0, 0, 1, 1, 0] ∧
      ¬ Cuda.CallsSeparate (sumCuda false false) twoIds twoRequests [0, 0, 0, 1, 1, 1, 0] ∧
      ¬ Cuda.CallsSeparate (sumCuda true false) twoIds twoRequests
        [0, 0, 0, 0, 1, 1, 1, 0, 0] ∧
      ¬ Cuda.CallsSeparate (sumCuda true true) twoIds twoRequests
        [1, 1, 1, 1, 1, 1, 1, 1, 1, 0, 0, 0, 0, 0, 0] := by
  refine ⟨?_, ?_, ?_, ?_⟩
  · have hview : firstTokens (Ggml.act sumGgml) (sumGgml.newContext (Fin 2))
        (Ggml.issued twoRequests fun _ => sumSampler) (fun c => c.result.tokens) [0, 0, 1, 1, 0] =
          some ([20], [10]) := by decide +kernel
    exact fun h => not_asAlone hview (by decide) h.1
  · have hview : firstTokens (Cuda.act (sumCuda false false) twoIds)
        ((sumCuda false false).newDevice (Fin 2)) (Cuda.issued twoRequests)
        (fun c => c.result.tokens) [0, 0, 0, 1, 1, 1, 0] = some ([20], [10]) := by
      decide +kernel
    exact fun h => not_asAlone hview (by decide) h.1
  · have hview : firstTokens (Cuda.act (sumCuda true false) twoIds)
        ((sumCuda true false).newDevice (Fin 2)) (Cuda.issued twoRequests)
        (fun c => c.result.tokens) [0, 0, 0, 0, 1, 1, 1, 0, 0] = some ([10, 30], [10, 20]) := by
      decide +kernel
    exact fun h => not_asAlone hview (by decide) h.1
  · have hview : firstTokens (Cuda.act (sumCuda true true) twoIds)
        ((sumCuda true true).newDevice (Fin 2)) (Cuda.issued twoRequests)
        (fun c => c.result.tokens) [1, 1, 1, 1, 1, 1, 1, 1, 1, 0, 0, 0, 0, 0, 0] =
          some ([10, 30], [10, 20]) := by
      decide +kernel
    exact fun h => not_asAlone hview (by decide) h.1

end TruellmEngine
