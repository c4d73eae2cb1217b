/-
  The three decode loops: the scheduler's sampling step repeated for one slot,
  `GgmlEngine::generate` and `CudaEngine::generate`, on the same stream of sampled tokens
  (`stream k` is the `k`-th token the sampler draws). No forward pass fails, and the
  request carries no grammar.

  Each loop counts up the generated tokens, so each is an instance of `untilStop`:

  * the scheduler ends on EOG before a token, on a config stop string, a stop token id or
    the limit after it;
  * the ggml loop ends on EOG or the limit before a token, on a stop token id, a config or
    a request stop string after it;
  * the CUDA loop ends on EOS, a stop token id or `max_tokens` before a token.

  `decode_loops_agree_iff` is the exact condition on a request and a stream under which
  the three return the same tokens, text and finish reason, as documented. They do not on
  a request with a stop string of its own (`request_stop_ignored`).
-/
import TruellmEngine.Scheduler.Steps
import TruellmEngine.Lib.UntilStop

namespace TruellmEngine

open Lib Scheduler

/-! ## The loops -/

/-- The token limit: `(req.max_tokens > 0) ? req.max_tokens : smp_cfg_.max_tokens`. -/
def tokenLimit (smp : SamplingConfig) (req : GenerateRequest) : Int :=
  if 0 < req.maxTokens then req.maxTokens else smp.maxTokens

/-- A token and its text join the ggml result: `accumulated` and `result.tokens`, whose length
    is `n_generated`. -/
def ggmlPush (r : GenerateResult) (tok : Token) (piece : Bytes) : GenerateResult :=
  { r with text := r.text ++ piece, tokens := r.tokens ++ [tok] }

/-- `while (n_generated < max_new)` of `GgmlEngine::generate`. -/
def ggmlLoop (vocab : LlamaVocab) (smp : SamplingConfig) (req : GenerateRequest)
    (stream : Nat → Token) (maxNew : Int) : Nat → GenerateResult → GenerateResult
  | 0, r => r
  | fuel + 1, r =>
    if maxNew ≤ r.tokens.length then r
    else
      let id := stream r.tokens.length
      if vocab.isEog id then r
      else
        let r := ggmlPush r id (pieceText vocab id false)
        if req.stopTokens.any (· == id) then r
        else if smp.stop.any (endsWithStop r.text) then r
        else if req.stop.any (endsWithStop r.text) then r
        else ggmlLoop vocab smp req stream maxNew fuel r

/-- `GgmlEngine::generate` after the prefill. -/
def ggmlGenerate (vocab : LlamaVocab) (smp : SamplingConfig) (req : GenerateRequest)
    (stream : Nat → Token) : GenerateResult :=
  let maxNew := tokenLimit smp req
  let r := ggmlLoop vocab smp req stream maxNew maxNew.toNat
    { GenerateResult.zero with promptTokens := req.tokens.length }
  { r with
    generatedTokens := r.tokens.length
    finishReason := if maxNew ≤ r.tokens.length then "length" else "stop" }

/-- A token and its text join the CUDA result, which counts its tokens at the end. -/
def cudaPush (r : GenerateResult) (tok : Token) (piece : Bytes) : GenerateResult :=
  { r with tokens := r.tokens ++ [tok], text := r.text ++ piece }

/-- `for (int step = 0; step < request.max_tokens; ++step)` of `CudaEngine::generate`, with
    the number of iterations left. `detokenize` keeps the text of special tokens. -/
def cudaLoop (vocab : LlamaVocab) (req : GenerateRequest) (stream : Nat → Token) :
    (left step : Nat) → GenerateResult → GenerateResult
  | 0, _, r => r
  | left + 1, step, r =>
    let nextToken := stream step
    let isEos := vocab.typed && nextToken == vocab.eos
    let inStop := req.stopTokens.any (nextToken == ·)
    if isEos || inStop then r
    else
      cudaLoop vocab req stream left (step + 1)
        (cudaPush r nextToken (pieceText vocab nextToken true))

/-- `CudaEngine::generate` after the prefill of `numPrompt` tokens. The finish reason is the
    default of the record. -/
def cudaGenerate (vocab : LlamaVocab) (req : GenerateRequest) (numPrompt : Nat)
    (stream : Nat → Token) : GenerateResult :=
  let r := cudaLoop vocab req stream req.maxTokens.toNat 0
    { GenerateResult.zero with promptTokens := numPrompt }
  { r with generatedTokens := r.tokens.length, error := .ok }

/-- The sampling steps of the scheduler for one busy slot, until its promise is set. What
    the scheduler does to the slot between two samples (`n_past`, `i_batch`) is not read
    by them. -/
def slotLoop (cfg : Config) (stream : Nat → Token) :
    (fuel k : Nat) → World → Slot → Option GenerateResult
  | 0, _, _, _ => none
  | fuel + 1, k, w, slot =>
    let r := sampleSlot cfg w slot (stream k) 0
    if r.2.isBusy then slotLoop cfg stream fuel (k + 1) r.1 r.2
    else r.1.answers.getLast?.map Prod.snd

/-- The scheduler's answer to a request admitted into a free slot. -/
def schedulerGenerate (cfg : Config) (req : GenerateRequest) (stream : Nat → Token) :
    Option GenerateResult :=
  slotLoop cfg stream (max 1 (tokenLimit cfg.defaultSmp req).toNat) 0
    ⟨KvCache.empty, [], []⟩ (startRequest cfg { id := 0, seqId := 0 } ⟨req, 0⟩)

/-! ## The tokens and the text after `n` tokens -/

def tokensOf (stream : Nat → Token) (n : Nat) : List Token := (List.range n).map stream

def textOf (vocab : LlamaVocab) (special : Bool) (stream : Nat → Token) (n : Nat) : Bytes :=
  (List.range n).flatMap fun k => pieceText vocab (stream k) special

theorem tokensOf_succ (stream : Nat → Token) (n : Nat) :
    tokensOf stream (n + 1) = tokensOf stream n ++ [stream n] := by
  simp [tokensOf, List.range_succ]

theorem textOf_succ (vocab : LlamaVocab) (special : Bool) (stream : Nat → Token) (n : Nat) :
    textOf vocab special stream (n + 1) =
      textOf vocab special stream n ++ pieceText vocab (stream n) special := by
  simp [textOf, List.range_succ]

@[simp] theorem tokensOf_length (stream : Nat → Token) (n : Nat) :
    (tokensOf stream n).length = n := by
  simp [tokensOf]

section

variable (cfg : Config) (req : GenerateRequest) (stream : Nat → Token)

/-! ## Where each loop ends -/

/-- A config stop string ends the text of the first `n` tokens. -/
def configStop (n : Nat) : Bool :=
  cfg.defaultSmp.stop.any (endsWithStop (textOf cfg.vocab false stream n))

/-- A stop string of the request ends the text of the first `n` tokens. -/
def requestStop (n : Nat) : Bool :=
  req.stop.any (endsWithStop (textOf cfg.vocab false stream n))

/-- The last of the first `n` tokens is a stop token id. -/
def stopIdLast (n : Nat) : Bool := req.stopTokens.any (· == stream (n - 1))

def eogNext (n : Nat) : Bool := cfg.vocab.isEog (stream n)

/-- The next token is one the CUDA loop ends on. -/
def cudaStopNext (n : Nat) : Bool :=
  (cfg.vocab.typed && stream n == cfg.vocab.eos) || req.stopTokens.any (stream n == ·)

def limitReached (n : Nat) : Bool := decide (tokenLimit cfg.defaultSmp req ≤ n)

def schedulerAfter (n : Nat) : Bool :=
  configStop cfg stream n || limitReached cfg req n || stopIdLast req stream n

def ggmlBefore (n : Nat) : Bool := limitReached cfg req n || eogNext cfg stream n

def ggmlAfter (n : Nat) : Bool :=
  stopIdLast req stream n || configStop cfg stream n || requestStop cfg req stream n

def cudaBefore (n : Nat) : Bool := decide (req.maxTokens ≤ n) || cudaStopNext cfg req stream n

end

/-! ## What each loop returns -/

variable {cfg : Config} {req : GenerateRequest} {stream : Nat → Token}

/-- The ggml result record after `n` tokens. -/
def ggmlState (cfg : Config) (stream : Nat → Token) (numPrompt n : Nat) : GenerateResult where
  tokens := tokensOf stream n
  text := textOf cfg.vocab false stream n
  promptTokens := numPrompt
  generatedTokens := some 0

theorem ggmlState_length (numPrompt n : Nat) :
    (ggmlState cfg stream numPrompt n).tokens.length = n := tokensOf_length stream n

theorem ggmlPush_state (numPrompt n : Nat) :
    ggmlPush (ggmlState cfg stream numPrompt n) (stream n) (pieceText cfg.vocab (stream n) false)
      = ggmlState cfg stream numPrompt (n + 1) := by
  simp [ggmlPush, ggmlState, tokensOf_succ, textOf_succ]

theorem ggmlLoop_eq (numPrompt fuel n : Nat) :
    ggmlLoop cfg.vocab cfg.defaultSmp req stream (tokenLimit cfg.defaultSmp req) fuel
        (ggmlState cfg stream numPrompt n) =
      ggmlState cfg stream numPrompt
        (untilStop (ggmlBefore cfg req stream) (ggmlAfter cfg req stream) fuel n) := by
  induction fuel generalizing n with
  | zero => rfl
  | succ fuel ih =>
    have htext : (ggmlState cfg stream numPrompt (n + 1)).text =
        textOf cfg.vocab false stream (n + 1) := rfl
    unfold ggmlLoop untilStop
    simp only [ggmlState_length, ggmlPush_state, htext]
    by_cases hlimit : tokenLimit cfg.defaultSmp req ≤ n
    · have hb : ggmlBefore cfg req stream n = true := by
        simp [ggmlBefore, limitReached, hlimit]
      rw [if_pos hlimit, if_pos hb]
    · rw [if_neg hlimit]
      by_cases heog : cfg.vocab.isEog (stream n) = true
      · have hb : ggmlBefore cfg req stream n = true := by
          simp [ggmlBefore, eogNext, heog]
        rw [if_pos heog, if_pos hb]
      · have hb : ¬ ggmlBefore cfg req stream n = true := by
          simp [ggmlBefore, limitReached, eogNext, hlimit, heog]
        have hstop : ggmlAfter cfg req stream (n + 1) =
            (req.stopTokens.any (· == stream n) ||
              cfg.defaultSmp.stop.any (endsWithStop (textOf cfg.vocab false stream (n + 1))) ||
              req.stop.any (endsWithStop (textOf cfg.vocab false stream (n + 1)))) := rfl
        rw [if_neg heog, if_neg hb, hstop, ih]
        cases req.stopTokens.any (· == stream n) with
        | true => rfl
        | false =>
          cases cfg.defaultSmp.stop.any (endsWithStop (textOf cfg.vocab false stream (n + 1))) with
          | true => rfl
          | false =>
            cases req.stop.any (endsWithStop (textOf cfg.vocab false stream (n + 1))) with
            | true => rfl
            | false => rfl

/-- The CUDA result record after `n` tokens, inside the loop. -/
def cudaState (cfg : Config) (stream : Nat → Token) (numPrompt n : Nat) : GenerateResult where
  tokens := tokensOf stream n
  text := textOf cfg.vocab true stream n
  promptTokens := numPrompt
  generatedTokens := some 0

theorem cudaLoop_eq (numPrompt left n : Nat) (hleft : n + left = req.maxTokens.toNat) :
    cudaLoop cfg.vocab req stream left n (cudaState cfg stream numPrompt n) =
      cudaState cfg stream numPrompt
        (untilStop (cudaBefore cfg req stream) (fun _ => false) left n) := by
  induction left generalizing n with
  | zero => rfl
  | succ left ih =>
    have hpush : cudaPush (cudaState cfg stream numPrompt n) (stream n)
        (pieceText cfg.vocab (stream n) true) = cudaState cfg stream numPrompt (n + 1) := by
      simp [cudaPush, cudaState, tokensOf_succ, textOf_succ]
    have hmax : ¬ req.maxTokens ≤ n := by omega
    have hnext : cudaBefore cfg req stream n = cudaStopNext cfg req stream n := by
      simp [cudaBefore, hmax]
    unfold cudaLoop untilStop
    simp only [hpush, hnext, ih (n + 1) (by omega)]
    unfold cudaStopNext
    split
    · rfl
    · rfl

/-- A slot after `n` tokens of the stream. -/
structure StreamedSlot (cfg : Config) (req : GenerateRequest) (stream : Nat → Token) (n : Nat)
    (slot : Slot) : Prop where
  busy : slot.isBusy = true
  decoded : slot.nDecoded = n
  text : slot.accumulated = textOf cfg.vocab false stream n
  tokens : slot.genTokenIds = tokensOf stream n
  limit : slot.maxNew = tokenLimit cfg.defaultSmp req
  ids : slot.stopTokenIds = req.stopTokens
  strings : slot.stopStrings = cfg.defaultSmp.stop

theorem StreamedSlot.endsRequest_iff {n : Nat} {slot : Slot}
    (h : StreamedSlot cfg req stream n slot) :
    EndsRequest cfg slot (stream n) ↔ schedulerAfter cfg req stream (n + 1) = true := by
  unfold EndsRequest schedulerAfter
  rw [h.text, h.strings, h.limit, h.ids, h.decoded, ← textOf_succ, Bool.or_eq_true,
    Bool.or_eq_true, or_assoc]
  refine or_congr Iff.rfl (or_congr ?_ ?_)
  · simp [limitReached]
  · simp [stopIdLast]

theorem StreamedSlot.emitted {n : Nat} {slot : Slot}
    (h : StreamedSlot cfg req stream n slot) :
    StreamedSlot cfg req stream (n + 1) (emitted cfg slot (stream n)) where
  busy := h.busy
  decoded := congrArg (· + 1) h.decoded
  text := by
    rw [textOf_succ, ← h.text]
    rfl
  tokens := by
    rw [tokensOf_succ, ← h.tokens]
    rfl
  limit := h.limit
  ids := h.ids
  strings := h.strings

/-- The answer to a request that ends after `n` tokens. -/
theorem StreamedSlot.result {n : Nat} {slot : Slot} (h : StreamedSlot cfg req stream n slot)
    (fr : String) :
    (slotResult slot .ok "" fr).tokens = tokensOf stream n ∧
      (slotResult slot .ok "" fr).text = textOf cfg.vocab false stream n ∧
      (slotResult slot .ok "" fr).finishReason = fr :=
  ⟨h.tokens, h.text, by simp [slotResult]⟩

/-- The scheduler answers, after the tokens up to the first stop. -/
theorem slotLoop_eq {fuel n : Nat} {w : World} {slot : Slot}
    (h : StreamedSlot cfg req stream n slot)
    (hlimit : n = 0 ∨ schedulerAfter cfg req stream n = false)
    (hfuel : 0 < fuel ∧ schedulerAfter cfg req stream (n + fuel) = true) :
    ∃ r N, slotLoop cfg stream fuel n w slot = some r ∧
      N = untilStop (eogNext cfg stream) (schedulerAfter cfg req stream) fuel n ∧
      r.tokens = tokensOf stream N ∧ r.text = textOf cfg.vocab false stream N ∧
      r.finishReason = if 0 < N ∧ tokenLimit cfg.defaultSmp req ≤ N then "length"
        else "stop" := by
  induction fuel generalizing n w slot with
  | zero => omega
  | succ fuel ih =>
    unfold slotLoop untilStop
    dsimp only
    by_cases heog : cfg.vocab.isEog (stream n) = true
    · -- the token is not emitted, and the limit was not reached after the one before
      rw [sampleSlot_eog heog, completeSlot_not_busy, if_neg (by simp),
        if_pos (by simpa [eogNext] using heog)]
      obtain ⟨htok, htext, hfr⟩ := h.result "stop"
      refine ⟨slotResult (takeSample slot (stream n)) .ok "" "stop", n, by simp, rfl, htok,
        htext, hfr.trans ?_⟩
      rw [if_neg]
      rintro ⟨hpos, hle⟩
      rcases hlimit with h0 | hf
      · omega
      · simp [schedulerAfter, limitReached, hle] at hf
    · have heog' : cfg.vocab.isEog (stream n) = false := by simpa using heog
      have hcont : ¬ eogNext cfg stream n = true := heog
      rw [if_neg hcont]
      have hnext := h.emitted
      by_cases hends : EndsRequest cfg slot (stream n)
      · rw [sampleSlot_ends heog' hends, completeSlot_not_busy, if_neg (by simp),
          if_pos (h.endsRequest_iff.mp hends)]
        obtain ⟨htok, htext, hfr⟩ := hnext.result
          (if maxHit (Scheduler.emitted cfg slot (stream n)) then "length" else "stop")
        refine ⟨_, n + 1, by simp, rfl, htok, htext, hfr.trans ?_⟩
        have hmax : maxHit (Scheduler.emitted cfg slot (stream n)) = true ↔
            0 < n + 1 ∧ tokenLimit cfg.defaultSmp req ≤ ((n + 1 : Nat) : Int) := by
          unfold maxHit
          rw [hnext.limit, hnext.decoded]
          simp
        simp only [hmax]
      · rw [sampleSlot_continues heog' hends, if_pos hnext.busy,
          if_neg (mt h.endsRequest_iff.mpr hends)]
        have hafter : schedulerAfter cfg req stream (n + 1) = false := by
          simpa using mt h.endsRequest_iff.mpr hends
        have hsum : n + 1 + fuel = n + (fuel + 1) := by omega
        refine ih hnext (Or.inr hafter) ⟨?_, ?_⟩
        · rcases Nat.eq_zero_or_pos fuel with h0 | hpos
          · subst h0
            rw [hfuel.2] at hafter
            cases hafter
          · exact hpos
        · rw [hsum]
          exact hfuel.2

/-- The scheduler's answer, by the index at which its loop ends. -/
theorem schedulerGenerate_eq (cfg : Config) (req : GenerateRequest) (stream : Nat → Token) :
    ∃ r n, schedulerGenerate cfg req stream = some r ∧
      StopsAt (eogNext cfg stream) (schedulerAfter cfg req stream) 0 n ∧
      r.tokens = tokensOf stream n ∧ r.text = textOf cfg.vocab false stream n ∧
      r.finishReason = if 0 < n ∧ tokenLimit cfg.defaultSmp req ≤ n then "length"
        else "stop" := by
  have hstart : StreamedSlot cfg req stream 0
      (startRequest cfg { id := 0, seqId := 0 } ⟨req, 0⟩) :=
    ⟨rfl, rfl, rfl, rfl, rfl, rfl, rfl⟩
  have hfuel : schedulerAfter cfg req stream
      (0 + max 1 (tokenLimit cfg.defaultSmp req).toNat) = true := by
    have hle : tokenLimit cfg.defaultSmp req ≤
        ((0 + max 1 (tokenLimit cfg.defaultSmp req).toNat : Nat) : Int) := by omega
    simp only [schedulerAfter, limitReached, hle, decide_true, Bool.or_true, Bool.true_or]
  have hpos : 0 < max 1 (tokenLimit cfg.defaultSmp req).toNat := by omega
  obtain ⟨r, n, hr, hn, htok, htext, hfr⟩ := slotLoop_eq (w := ⟨KvCache.empty, [], []⟩) hstart
    (Or.inl rfl) ⟨hpos, hfuel⟩
  exact ⟨r, n, hr, (untilStop_eq_iff (Or.inr ⟨hpos, hfuel⟩)).mp hn.symm, htok, htext, hfr⟩

theorem ggmlGenerate_eq (cfg : Config) (req : GenerateRequest) (stream : Nat → Token) :
    ∃ n, StopsAt (ggmlBefore cfg req stream) (ggmlAfter cfg req stream) 0 n ∧
      (ggmlGenerate cfg.vocab cfg.defaultSmp req stream).tokens = tokensOf stream n ∧
      (ggmlGenerate cfg.vocab cfg.defaultSmp req stream).text =
        textOf cfg.vocab false stream n ∧
      (ggmlGenerate cfg.vocab cfg.defaultSmp req stream).finishReason =
        if tokenLimit cfg.defaultSmp req ≤ n then "length" else "stop" := by
  have hfuel : ggmlBefore cfg req stream (0 + (tokenLimit cfg.defaultSmp req).toNat) = true := by
    have hle : tokenLimit cfg.defaultSmp req ≤
        ((0 + (tokenLimit cfg.defaultSmp req).toNat : Nat) : Int) := by omega
    simp only [ggmlBefore, limitReached, hle, decide_true, Bool.true_or]
  have hloop := @ggmlLoop_eq cfg req stream req.tokens.length
    (tokenLimit cfg.defaultSmp req).toNat 0
  refine ⟨_, untilStop_stopsAt (Or.inl hfuel), ?_⟩
  unfold ggmlGenerate
  dsimp only
  have h0 : { GenerateResult.zero with promptTokens := some req.tokens.length } =
      ggmlState cfg stream req.tokens.length 0 := rfl
  rw [h0, hloop, ggmlState_length]
  exact ⟨rfl, rfl, rfl⟩

theorem cudaGenerate_eq (cfg : Config) (req : GenerateRequest) (numPrompt : Nat)
    (stream : Nat → Token) :
    ∃ n, StopsAt (cudaBefore cfg req stream) (fun _ => false) 0 n ∧
      (cudaGenerate cfg.vocab req numPrompt stream).tokens = tokensOf stream n ∧
      (cudaGenerate cfg.vocab req numPrompt stream).text = textOf cfg.vocab true stream n ∧
      (cudaGenerate cfg.vocab req numPrompt stream).finishReason = "stop" := by
  have hfuel : cudaBefore cfg req stream (0 + req.maxTokens.toNat) = true := by
    have hle : req.maxTokens ≤ ((0 + req.maxTokens.toNat : Nat) : Int) := by omega
    simp only [cudaBefore, hle, decide_true, Bool.true_or]
  have hloop := @cudaLoop_eq cfg req stream numPrompt req.maxTokens.toNat 0 (by omega)
  refine ⟨_, untilStop_stopsAt (Or.inl hfuel), ?_⟩
  unfold cudaGenerate
  dsimp only
  have h0 : { GenerateResult.zero with promptTokens := some numPrompt } =
      cudaState cfg stream numPrompt 0 := rfl
  rw [h0, hloop]
  exact ⟨rfl, rfl, rfl⟩

/-! ## Agreement -/

/-- The three fields the loops should agree on. -/
def SameOutput (r r' : GenerateResult) : Prop :=
  r.tokens = r'.tokens ∧ r.text = r'.text ∧ r.finishReason = r'.finishReason

/-- One of the documented stops holds after `n` tokens: a stop token id, or a stop string
    of the config or of the request. -/
def StopRequested (cfg : Config) (req : GenerateRequest) (stream : Nat → Token) (n : Nat) :
    Prop :=
  0 < n ∧ (stopIdLast req stream n = true ∨ configStop cfg stream n = true ∨
    requestStop cfg req stream n = true)

/-- The output ends at the first EOG token, documented stop or limit, and the finish reason
    is `length` when the limit ended it. -/
def EndsAsDocumented (cfg : Config) (req : GenerateRequest) (stream : Nat → Token)
    (r : GenerateResult) : Prop :=
  ∃ n : Nat, r.tokens = tokensOf stream n ∧
    (∀ m : Nat, m < n → eogNext cfg stream m = false ∧ ¬ StopRequested cfg req stream m ∧
      (m : Int) < tokenLimit cfg.defaultSmp req) ∧
    (eogNext cfg stream n = true ∨ StopRequested cfg req stream n ∨
      tokenLimit cfg.defaultSmp req ≤ n) ∧
    (r.finishReason = "length" ↔
      tokenLimit cfg.defaultSmp req ≤ n ∧ ¬ StopRequested cfg req stream n)

/-- The three loops return the same output, the documented one. -/
def LoopsAgree (cfg : Config) (req : GenerateRequest) (numPrompt : Nat)
    (stream : Nat → Token) : Prop :=
  ∃ r, schedulerGenerate cfg req stream = some r ∧
    SameOutput r (ggmlGenerate cfg.vocab cfg.defaultSmp req stream) ∧
    SameOutput r (cudaGenerate cfg.vocab req numPrompt stream) ∧
    EndsAsDocumented cfg req stream r

/-- The stream ends below the limit, at an index where every loop ends: an EOG token is
    next or a config stop string was completed, no loop has a reason to end before, the
    CUDA loop has one too, and special tokens have no text. -/
def EndsAlike (cfg : Config) (req : GenerateRequest) (stream : Nat → Token) : Prop :=
  ∃ n : Nat, (n : Int) < tokenLimit cfg.defaultSmp req ∧
    (∀ m, m < n → eogNext cfg stream m = false ∧ cudaStopNext cfg req stream m = false) ∧
    (∀ m, 0 < m → m < n → configStop cfg stream m = false ∧
      requestStop cfg req stream m = false) ∧
    (eogNext cfg stream n = true ∨ (0 < n ∧ configStop cfg stream n = true)) ∧
    (if 0 < req.maxTokens then cudaStopNext cfg req stream n = true else n = 0) ∧
    textOf cfg.vocab false stream n = textOf cfg.vocab true stream n

/-- A stop token id among the tokens would have ended the CUDA loop before it. -/
theorem stopIdLast_false {m : Nat}
    (h : cudaStopNext cfg req stream (m - 1) = false) : stopIdLast req stream m = false := by
  simp only [cudaStopNext, Bool.or_eq_false_iff] at h
  have hids := h.2
  simp only [stopIdLast, List.any_eq_false, beq_iff_eq] at hids ⊢
  exact fun t ht he => hids t ht he.symm

theorem endsAlike_of_agree {numPrompt : Nat} (h : LoopsAgree cfg req numPrompt stream) :
    EndsAlike cfg req stream := by
  obtain ⟨r, hr, hsg, hsc, -⟩ := h
  obtain ⟨r', n, hr', hs, htok, htext, -⟩ := schedulerGenerate_eq cfg req stream
  obtain ⟨n', hg, htok', -, hfr'⟩ := ggmlGenerate_eq cfg req stream
  obtain ⟨n'', hc, htok'', htext'', hfr''⟩ := cudaGenerate_eq cfg req numPrompt stream
  have hrr : r' = r := Option.some.inj (hr'.symm.trans hr)
  subst hrr
  -- the same tokens: the same length
  have hn' : n' = n := by
    have ht := congrArg List.length (htok.symm.trans (hsg.1.trans htok'))
    simpa using ht.symm
  have hn'' : n'' = n := by
    have ht := congrArg List.length (htok.symm.trans (hsc.1.trans htok''))
    simpa using ht.symm
  subst hn' hn''
  have hlt : (n'' : Int) < tokenLimit cfg.defaultSmp req := by
    by_contra hge
    have hfr := hsg.2.2.symm.trans (hsc.2.2.trans hfr'')
    rw [hfr', if_pos (by omega)] at hfr
    exact absurd hfr (by decide)
  have hcuda : ∀ m, m < n'' → ¬ req.maxTokens ≤ m ∧ cudaStopNext cfg req stream m = false := by
    intro m hm
    have hf := hc.head m (Nat.zero_le m) hm
    simpa [cudaBefore] using hf
  have hafter : ∀ m, 0 < m → m ≤ n'' → stopIdLast req stream m = false :=
    fun m h0 hm => stopIdLast_false (hcuda (m - 1) (by omega)).2
  refine ⟨n'', hlt, fun m hm => ⟨hs.head m (Nat.zero_le m) hm, (hcuda m hm).2⟩, ?_, ?_, ?_, ?_⟩
  · intro m h0 hm
    have hf := hg.tail m h0 hm
    simp only [ggmlAfter, Bool.or_eq_false_iff] at hf
    exact ⟨hf.1.2, hf.2⟩
  · rcases hs.stop with he | ⟨h0, he⟩
    · exact Or.inl he
    · have hno : ¬ tokenLimit cfg.defaultSmp req ≤ n'' := by omega
      rw [schedulerAfter, hafter n'' h0 (Nat.le_refl _)] at he
      simp only [limitReached, hno, decide_false, Bool.or_false] at he
      exact Or.inr ⟨h0, he⟩
  · by_cases hmax : 0 < req.maxTokens
    · rw [if_pos hmax]
      rcases hc.stop with he | ⟨-, he⟩
      · have hlim : tokenLimit cfg.defaultSmp req = req.maxTokens := if_pos hmax
        have hno : ¬ req.maxTokens ≤ n'' := by omega
        simpa [cudaBefore, hno] using he
      · cases he
    · rw [if_neg hmax]
      by_contra hpos
      exact (hcuda 0 (by omega)).1 (by omega)
  · exact htext.symm.trans (hsc.2.1.trans htext'')

theorem limitReached_false {m n : Nat} (hlt : (n : Int) < tokenLimit cfg.defaultSmp req)
    (hm : m ≤ n) : limitReached cfg req m = false := by
  have hno : ¬ tokenLimit cfg.defaultSmp req ≤ m := by omega
  simp [limitReached, hno]

section EndsAlike

variable {n : Nat} (hlt : (n : Int) < tokenLimit cfg.defaultSmp req)
  (hquiet : ∀ m, m < n → eogNext cfg stream m = false ∧ cudaStopNext cfg req stream m = false)
  (hstrings : ∀ m, 0 < m → m < n → configStop cfg stream m = false ∧
    requestStop cfg req stream m = false)
  (hstop : eogNext cfg stream n = true ∨ (0 < n ∧ configStop cfg stream n = true))

include hquiet

theorem stopIdLast_quiet {m : Nat} (h0 : 0 < m) (hm : m ≤ n) : stopIdLast req stream m = false :=
  stopIdLast_false (hquiet (m - 1) (by omega)).2

include hlt hstrings hstop

theorem scheduler_stopsAt : StopsAt (eogNext cfg stream) (schedulerAfter cfg req stream) 0 n := by
  refine ⟨Nat.zero_le n, fun m _ hm => (hquiet m hm).1, ?_, ?_⟩
  · intro m h0 hm
    rw [schedulerAfter, (hstrings m h0 hm).1, limitReached_false hlt (Nat.le_of_lt hm),
      stopIdLast_quiet hquiet h0 (Nat.le_of_lt hm)]
    rfl
  · rcases hstop with he | ⟨h0, he⟩
    · exact Or.inl he
    · exact Or.inr ⟨h0, by simp [schedulerAfter, he]⟩

theorem ggml_stopsAt : StopsAt (ggmlBefore cfg req stream) (ggmlAfter cfg req stream) 0 n := by
  refine ⟨Nat.zero_le n, ?_, ?_, ?_⟩
  · intro m _ hm
    rw [ggmlBefore, limitReached_false hlt (Nat.le_of_lt hm), (hquiet m hm).1]
    rfl
  · intro m h0 hm
    rw [ggmlAfter, stopIdLast_quiet hquiet h0 (Nat.le_of_lt hm), (hstrings m h0 hm).1,
      (hstrings m h0 hm).2]
    rfl
  · rcases hstop with he | ⟨h0, he⟩
    · exact Or.inl (by simp [ggmlBefore, he])
    · exact Or.inr ⟨h0, by simp [ggmlAfter, he]⟩

omit hstrings hstop

theorem cuda_stopsAt
    (hcuda : if 0 < req.maxTokens then cudaStopNext cfg req stream n = true else n = 0) :
    StopsAt (cudaBefore cfg req stream) (fun _ => false) 0 n := by
  by_cases hmax : 0 < req.maxTokens
  · rw [if_pos hmax] at hcuda
    have hlim : tokenLimit cfg.defaultSmp req = req.maxTokens := if_pos hmax
    refine ⟨Nat.zero_le n, ?_, fun _ _ _ => rfl, Or.inl (by simp [cudaBefore, hcuda])⟩
    intro m _ hm
    have hno : ¬ req.maxTokens ≤ m := by omega
    simp [cudaBefore, hno, (hquiet m hm).2]
  · rw [if_neg hmax] at hcuda
    have hle : req.maxTokens ≤ n := by omega
    exact ⟨Nat.zero_le n, by omega, by omega,
      Or.inl (by simp only [cudaBefore, hle, decide_true, Bool.true_or])⟩

end EndsAlike

theorem agree_of_endsAlike (numPrompt : Nat) (h : EndsAlike cfg req stream) :
    LoopsAgree cfg req numPrompt stream := by
  obtain ⟨n, hlt, hquiet, hstrings, hstop, hcuda, htexts⟩ := h
  have hs := scheduler_stopsAt hlt hquiet hstrings hstop
  have hg := ggml_stopsAt hlt hquiet hstrings hstop
  have hc := cuda_stopsAt hlt hquiet hcuda
  obtain ⟨r, ns, hr, hs', htok, htext, hfr⟩ := schedulerGenerate_eq cfg req stream
  obtain ⟨ng, hg', htok', htext', hfr'⟩ := ggmlGenerate_eq cfg req stream
  obtain ⟨nc, hc', htok'', htext'', hfr''⟩ := cudaGenerate_eq cfg req numPrompt stream
  have hns := hs'.unique hs
  have hng := hg'.unique hg
  have hnc := hc'.unique hc
  subst hns
  subst hng
  subst hnc
  have hno : ¬ tokenLimit cfg.defaultSmp req ≤ nc := by omega
  rw [if_neg fun hx => hno hx.2] at hfr
  rw [if_neg hno] at hfr'
  refine ⟨r, hr, ⟨htok.trans htok'.symm, htext.trans htext'.symm, hfr.trans hfr'.symm⟩,
    ⟨htok.trans htok''.symm, (htext.trans htexts).trans htext''.symm, hfr.trans hfr''.symm⟩,
    nc, htok, ?_, ?_, ?_⟩
  · intro m hm
    refine ⟨(hquiet m hm).1, ?_, by omega⟩
    rintro ⟨h0, hid | hcs | hrs⟩
    · rw [stopIdLast_quiet hquiet h0 (Nat.le_of_lt hm)] at hid
      cases hid
    · rw [(hstrings m h0 hm).1] at hcs
      cases hcs
    · rw [(hstrings m h0 hm).2] at hrs
      cases hrs
  · rcases hstop with he | ⟨h0, he⟩
    · exact Or.inl he
    · exact Or.inr (Or.inl ⟨h0, Or.inr (Or.inl he)⟩)
  · rw [hfr]
    exact ⟨fun hx => absurd hx (by decide), fun hx => absurd hx.1 hno⟩

/-- For every request and every stream of sampled tokens, the three loops agree exactly
    when the stream ends alike for all of them. -/
theorem decode_loops_agree_iff (cfg : Config) (req : GenerateRequest) (numPrompt : Nat)
    (stream : Nat → Token) :
    LoopsAgree cfg req numPrompt stream ↔ EndsAlike cfg req stream :=
  ⟨endsAlike_of_agree, agree_of_endsAlike numPrompt⟩

/-- A request with the stop string `A`, which the first token's text completes. -/
def requestWithStop : GenerateRequest := { tokens := [1], maxTokens := 4, stop := [[65]] }

/-- The ggml loop ends on it, the scheduler goes on to the EOS token. -/
theorem request_stop_ignored :
    ¬ LoopsAgree (tinyConfig 8 1) requestWithStop 1 (fun k => if k < 2 then 3 else 2) := by
  have hs : (schedulerGenerate (tinyConfig 8 1) requestWithStop
      (fun k => if k < 2 then 3 else 2)).map (·.tokens) = some [3, 3] := by decide +kernel
  have hg : (ggmlGenerate tinyVocab {} requestWithStop
      (fun k => if k < 2 then 3 else 2)).tokens = [3] := by decide +kernel
  rintro ⟨r, hr, hsame, -⟩
  rw [hr] at hs
  have htok : r.tokens = [3, 3] := Option.some.inj hs
  have hother : r.tokens = [3] := hsame.1.trans hg
  rw [htok] at hother
  exact absurd hother (by decide)

end TruellmEngine
