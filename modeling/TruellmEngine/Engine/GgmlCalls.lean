/-
  Concurrent calls of `GgmlEngine::generate` without the batch scheduler.

  All calls use one `llama_context`. A call is a machine whose atomic steps are the reset of
  the KV cache, one `llama_decode`, and one sampling with the checks that follow it. The
  forward pass is any function of the cells of sequence 0 and the new tokens, the sampler
  any function of the logits. As a ghost, cells and logits carry the call and the forward
  pass that wrote them.

  Nothing locks the engine. `callsSeparate`: no call notices the others on a run in which no
  call resets the cache while another one is running.
-/
import TruellmEngine.Engine.DecodeLoops
import TruellmEngine.Lib.Interleave
import Mathlib.Data.Fintype.Defs

namespace TruellmEngine

open Lib

/-- A value, and the call and forward pass that wrote it, if any. -/
structure Written (ι α : Type*) where
  value : α
  writer : Option (ι × Nat)
  deriving DecidableEq

namespace Ggml

variable {ι Cell Logits : Type*}

/-- The engine: its model and configuration. -/
structure Engine (Cell Logits : Type*) where
  vocab : LlamaVocab
  smp : SamplingConfig
  nBatch : Nat
  /-- `llama_decode`: the cells of the new tokens and the last logits. -/
  forward : List Cell → List Token → Option ((Nat → Cell) × Logits)
  /-- What the logits buffer of a new context holds. -/
  noLogits : Logits

/-- The context: the cells of sequence 0 by position, and the logits of the last decode. -/
structure Context (ι Cell Logits : Type*) where
  cells : List (Written ι Cell)
  logits : Written ι Logits

inductive Phase where
  | reset
  | prefill (off : Nat)
  | sample
  | decode (id : Token)
  | returned
  deriving DecidableEq

/-- A call: the request, with its grammar sampler or else the shared one. -/
structure Call (Logits : Type*) where
  req : GenerateRequest
  sampler : Logits → Token
  phase : Phase := .reset
  passes : Nat := 0
  result : GenerateResult := .zero

variable (e : Engine Cell Logits)

def Engine.newContext (ι : Type*) : Context ι Cell Logits := ⟨[], ⟨e.noLogits, none⟩⟩

/-- `llama_decode` of a `llama_batch_get_one` batch, which goes behind the cells of
    sequence 0. -/
def llamaDecodeOne (i : ι) (pass : Nat) (ctx : Context ι Cell Logits) (tokens : List Token) :
    Option (Context ι Cell Logits) :=
  (e.forward (ctx.cells.map Written.value) tokens).map fun r =>
    { cells := ctx.cells ++ (List.range tokens.length).map fun k => ⟨r.1 k, some (i, pass)⟩
      logits := ⟨r.2, some (i, pass)⟩ }

/-- The return at the end of `generate`. -/
def Call.finish (c : Call Logits) : Call Logits :=
  { c with
    phase := .returned
    result := { c.result with
      generatedTokens := c.result.tokens.length
      finishReason := if tokenLimit e.smp c.req ≤ c.result.tokens.length then "length"
        else "stop" } }

/-- `while (n_generated < max_new)`. -/
def Call.loopHead (c : Call Logits) : Call Logits :=
  if (c.result.tokens.length : Int) < tokenLimit e.smp c.req then { c with phase := .sample }
  else c.finish e

/-- The checks on the sampled token `id`, up to the next decode. -/
def Call.afterSample (c : Call Logits) (id : Token) : Call Logits :=
  if e.vocab.isEog id then c.finish e
  else
    let c := { c with result := ggmlPush c.result id (pieceText e.vocab id false) }
    if c.req.stopTokens.any (· == id) then c.finish e
    else if e.smp.stop.any (endsWithStop c.result.text) then c.finish e
    else if c.req.stop.any (endsWithStop c.result.text) then c.finish e
    else { c with phase := .decode id }

/-- One atomic step of `generate` for call `i`. -/
def act (i : ι) (ctx : Context ι Cell Logits) (c : Call Logits) :
    Context ι Cell Logits × Call Logits :=
  match c.phase with
  | .reset =>
    if c.req.tokens = [] then
      (ctx, { c with
        phase := .returned
        result := { c.result with
          error := .invalidArgument, errorMessage := "Empty token list" } })
    else ({ ctx with cells := [] }, { c with phase := .prefill 0 })
  | .prefill off =>
    match llamaDecodeOne e i (c.passes + 1) ctx ((c.req.tokens.drop off).take e.nBatch) with
    | none =>
      (ctx, { c with
        phase := .returned
        result := { c.result with
          error := .internalError, errorMessage := "llama_decode (prefill) failed" } })
    | some ctx' =>
      let c := { c with passes := c.passes + 1 }
      if off + e.nBatch < c.req.tokens.length then
        (ctx', { c with phase := .prefill (off + e.nBatch) })
      else
        (ctx', { c with
          result := { c.result with promptTokens := c.req.tokens.length } }.loopHead e)
  | .sample => (ctx, c.afterSample e (c.sampler ctx.logits.value))
  | .decode id =>
    match llamaDecodeOne e i (c.passes + 1) ctx [id] with
    | none =>
      (ctx, { c with
        phase := .returned
        result := { c.result with
          error := .internalError, errorMessage := "llama_decode (decode step) failed"
          generatedTokens := c.result.tokens.length
          finishReason := "error" } })
    | some ctx' => (ctx', { c with passes := c.passes + 1 }.loopHead e)
  | .returned => (ctx, c)

/-! ## Isolation -/

/-- A call between its reset and its return. -/
def Call.Running (c : Call Logits) : Prop := c.phase ≠ .reset ∧ c.phase ≠ .returned

/-- The calls at a moment: the context, and the calls that are issued on it. -/
abbrev Calls (ι Cell Logits : Type*) := Threads ι (Context ι Cell Logits) (Call Logits)

/-- A call that resets the cache is the only one running. -/
def Undisturbed (w : Calls ι Cell Logits) (i : ι) : Prop :=
  (w.locals i).phase = .reset → (w.locals i).req.tokens ≠ [] →
    ∀ j, j ≠ i → ¬ (w.locals j).Running

instance (c : Call Logits) : Decidable c.Running := inferInstanceAs (Decidable (_ ∧ _))

instance [Fintype ι] [DecidableEq ι] (w : Calls ι Cell Logits) (i : ι) :
    Decidable (Undisturbed w i) :=
  inferInstanceAs (Decidable (_ → _ → ∀ _, _ → ¬ _))

/-- A forward pass finds only cells of its own call in the sequence it reads and appends to,
    and a sampling finds the logits of the call's last forward pass. -/
def Isolated (w : Calls ι Cell Logits) (i : ι) : Prop :=
  match (w.locals i).phase with
  | .prefill _ => ∀ x ∈ w.shared.cells, ∃ n, x.writer = some (i, n)
  | .decode _ => ∀ x ∈ w.shared.cells, ∃ n, x.writer = some (i, n)
  | .sample => w.shared.logits.writer = some (i, (w.locals i).passes)
  | _ => True

/-- A running call and the same call alone see the same cells, all its own, and the same
    logits when it is about to sample. -/
structure Agree (i : ι) (s t : Context ι Cell Logits) (c : Call Logits) : Prop where
  cells : c.Running → s.cells = t.cells
  own : c.Running → ∀ x ∈ s.cells, ∃ n, x.writer = some (i, n)
  logits : c.phase = .sample → s.logits = t.logits
  latest : c.phase = .sample → s.logits.writer = some (i, c.passes)

def OneRunning (w : Calls ι Cell Logits) : Prop :=
  ∀ i j, (w.locals i).Running → (w.locals j).Running → i = j

/-! ## Steps -/

variable {e : Engine Cell Logits} {i : ι} {s t ctx : Context ι Cell Logits} {c : Call Logits}

theorem llamaDecodeOne_congr (h : s.cells = t.cells) (pass : Nat) (tokens : List Token) :
    llamaDecodeOne e i pass s tokens = llamaDecodeOne e i pass t tokens := by
  unfold llamaDecodeOne
  rw [h]

/-- The cells and the logits of a forward pass belong to its call. -/
theorem llamaDecodeOne_own {pass : Nat} {tokens : List Token}
    (hown : ∀ x ∈ s.cells, ∃ n, x.writer = some (i, n))
    (h : llamaDecodeOne e i pass s tokens = some ctx) :
    (∀ x ∈ ctx.cells, ∃ n, x.writer = some (i, n)) ∧ ctx.logits.writer = some (i, pass) := by
  obtain ⟨r, -, rfl⟩ := Option.map_eq_some_iff.mp h
  refine ⟨?_, rfl⟩
  intro x hx
  rcases List.mem_append.mp hx with hold | hnew
  · exact hown x hold
  · obtain ⟨k, -, rfl⟩ := List.mem_map.mp hnew
    exact ⟨pass, rfl⟩

/-- After a decode a call samples or returns. -/
theorem loopHead_cases (c : Call Logits) :
    ((c.loopHead e).phase = .sample ∧ (c.loopHead e).passes = c.passes) ∨
      (c.loopHead e).phase = .returned := by
  unfold Call.loopHead
  split
  · exact Or.inl ⟨rfl, rfl⟩
  · exact Or.inr rfl

/-- After a sampling a call decodes or returns. -/
theorem afterSample_phase (c : Call Logits) (id : Token) :
    (c.afterSample e id).phase = .decode id ∨ (c.afterSample e id).phase = .returned := by
  unfold Call.afterSample
  split
  · exact Or.inr rfl
  · dsimp only
    split
    · exact Or.inr rfl
    · split
      · exact Or.inr rfl
      · split
        · exact Or.inr rfl
        · exact Or.inl rfl

/-- A call starts to run with the reset of a non-empty request only. -/
theorem running_of_act (h : (act e i s c).2.Running) :
    c.Running ∨ (c.phase = .reset ∧ c.req.tokens ≠ []) := by
  by_cases hr : c.phase = .reset
  · right
    refine ⟨hr, ?_⟩
    intro hempty
    simp [act, hr, hempty, Call.Running] at h
  · left
    refine ⟨hr, ?_⟩
    intro hret
    simp [act, hret, Call.Running] at h

/-- A call that has returned notices nothing. -/
theorem agree_of_returned (h : c.phase = .returned) : Agree i s t c := by
  refine ⟨?_, ?_, ?_, ?_⟩
  · exact fun hr => absurd h hr.2
  · exact fun hr => absurd h hr.2
  · exact fun hs => by simp [h] at hs
  · exact fun hs => by simp [h] at hs

/-- After a forward pass both contexts are the same. -/
theorem agree_of_same (hown : ∀ x ∈ ctx.cells, ∃ n, x.writer = some (i, n))
    (hlatest : c.phase = .sample → ctx.logits.writer = some (i, c.passes)) :
    Agree i ctx ctx c :=
  ⟨fun _ => rfl, fun _ => hown, fun _ => rfl, hlatest⟩

theorem agree_of_loopHead (hown : ∀ x ∈ ctx.cells, ∃ n, x.writer = some (i, n))
    (hlatest : ctx.logits.writer = some (i, c.passes)) : Agree i ctx ctx (c.loopHead e) := by
  rcases loopHead_cases (e := e) c with ⟨-, hpasses⟩ | hret
  · exact agree_of_same hown fun _ => by rw [hpasses, hlatest]
  · exact agree_of_returned hret

/-- A step does the same in two contexts that agree. -/
theorem act_agree (h : Agree i s t c) :
    (act e i t c).2 = (act e i s c).2 ∧
      Agree i (act e i s c).1 (act e i t c).1 (act e i s c).2 := by
  unfold act
  cases hphase : c.phase with
  | reset =>
    dsimp only
    split
    · exact ⟨rfl, agree_of_returned rfl⟩
    · refine ⟨rfl, fun _ => rfl, ?_, ?_, ?_⟩
      · intro _ x hx
        cases hx
      · intro hs
        cases hs
      · intro hs
        cases hs
  | prefill off =>
    have hrun : c.Running := by simp [Call.Running, hphase]
    dsimp only
    rw [llamaDecodeOne_congr (h.cells hrun)]
    cases hdec : llamaDecodeOne e i (c.passes + 1) t ((c.req.tokens.drop off).take e.nBatch) with
    | none => exact ⟨rfl, agree_of_returned rfl⟩
    | some ctx =>
      rw [← llamaDecodeOne_congr (h.cells hrun)] at hdec
      obtain ⟨hown, hlatest⟩ := llamaDecodeOne_own (h.own hrun) hdec
      dsimp only
      split
      · exact ⟨rfl, agree_of_same hown fun hs => by cases hs⟩
      · exact ⟨rfl, agree_of_loopHead hown hlatest⟩
  | sample =>
    have hrun : c.Running := by simp [Call.Running, hphase]
    dsimp only
    rw [h.logits hphase]
    refine ⟨rfl, fun _ => h.cells hrun, fun _ => h.own hrun, ?_, ?_⟩
    · intro hs
      rcases afterSample_phase (e := e) c (c.sampler t.logits.value) with hp | hp
      · simp [hp] at hs
      · simp [hp] at hs
    · intro hs
      rcases afterSample_phase (e := e) c (c.sampler t.logits.value) with hp | hp
      · simp [hp] at hs
      · simp [hp] at hs
  | decode id =>
    have hrun : c.Running := by simp [Call.Running, hphase]
    dsimp only
    rw [llamaDecodeOne_congr (h.cells hrun)]
    cases hdec : llamaDecodeOne e i (c.passes + 1) t [id] with
    | none => exact ⟨rfl, agree_of_returned rfl⟩
    | some ctx =>
      rw [← llamaDecodeOne_congr (h.cells hrun)] at hdec
      obtain ⟨hown, hlatest⟩ := llamaDecodeOne_own (h.own hrun) hdec
      exact ⟨rfl, agree_of_loopHead hown hlatest⟩
  | returned => exact ⟨rfl, agree_of_returned hphase⟩

variable {w : Calls ι Cell Logits}

/-- While one call runs, no step of another touches the context. -/
theorem act_shared_of_other (hone : OneRunning w) (hok : Undisturbed w i) {j : ι} (hj : j ≠ i)
    (hrun : (w.locals j).Running) : (act e i w.shared (w.locals i)).1 = w.shared := by
  have hnot : ¬ (w.locals i).Running := fun hi => hj (hone j i hrun hi)
  unfold act
  cases hphase : (w.locals i).phase with
  | reset =>
    dsimp only
    by_cases hempty : (w.locals i).req.tokens = []
    · rw [if_pos hempty]
    · exact absurd hrun (hok hphase hempty j hj)
  | prefill off => exact absurd (by simp [Call.Running, hphase]) hnot
  | sample => exact absurd (by simp [Call.Running, hphase]) hnot
  | decode id => exact absurd (by simp [Call.Running, hphase]) hnot
  | returned => rfl

theorem isolated_of_agree (hall : ∀ j, ∃ t, Agree j w.shared t (w.locals j)) (i : ι) :
    Isolated w i := by
  obtain ⟨t, hagree⟩ := hall i
  unfold Isolated
  cases hphase : (w.locals i).phase with
  | reset => trivial
  | prefill off => exact hagree.own (by simp [Call.Running, hphase])
  | sample => exact hagree.latest hphase
  | decode id => exact hagree.own (by simp [Call.Running, hphase])
  | returned => trivial

variable [DecidableEq ι]

theorem oneRunning_next (hone : OneRunning w) (hok : Undisturbed w i) :
    OneRunning (w.next (act e) i) := by
  -- a call that runs next to call `i` after its step ran before it
  have hother : ∀ j, j ≠ i → ((w.next (act e) i).locals j).Running →
      ((w.next (act e) i).locals i).Running → False := by
    intro j hj hrunj hruni
    have hbefore : (w.next (act e) i).locals j = w.locals j := by simp [Threads.next, hj]
    have hnow : (w.next (act e) i).locals i = (act e i w.shared (w.locals i)).2 := by
      simp [Threads.next]
    rw [hbefore] at hrunj
    rw [hnow] at hruni
    rcases running_of_act hruni with hran | ⟨hphase, hne⟩
    · exact hj (hone j i hrunj hran)
    · exact hok hphase hne j hj hrunj
  intro j k hj hk
  by_cases hji : j = i
  · by_cases hki : k = i
    · exact hji.trans hki.symm
    · exact absurd (hji ▸ hj) (fun hi => hother k hki hk hi)
  · by_cases hki : k = i
    · exact absurd (hki ▸ hk) (fun hi => hother j hji hj hi)
    · simp only [Threads.next, Function.update_of_ne hji, Function.update_of_ne hki] at hj hk
      exact hone j k hj hk

theorem unwinding (e : Engine Cell Logits) :
    Threads.Unwinding (act e) (OneRunning : Calls ι Cell Logits → Prop) Undisturbed Agree := by
  refine ⟨?_, ?_, ?_⟩
  · exact fun w i hone _ hok => oneRunning_next hone hok
  · exact fun w i t _ _ hagree => act_agree hagree
  · intro w i j t hone hok hj _ u hagree
    by_cases hrun : (w.locals j).Running
    · rw [act_shared_of_other hone hok hj hrun]
      exact hagree
    · have hsample : (w.locals j).phase ≠ .sample := fun hs => hrun (by simp [Call.Running, hs])
      exact ⟨fun h => absurd h hrun, fun h => absurd h hrun, fun h => absurd h hsample,
        fun h => absurd h hsample⟩

/-- The calls for a family of requests, none of them begun. -/
def issued (reqs : ι → GenerateRequest) (samplers : ι → Logits → Token) (i : ι) : Call Logits where
  req := reqs i
  sampler := samplers i

/-- No call of the run notices the others: each is always where it would be alone, and every
    forward pass and sampling is isolated. -/
def CallsSeparate (e : Engine Cell Logits) (reqs : ι → GenerateRequest)
    (samplers : ι → Logits → Token) (is : List ι) : Prop :=
  AllStates (Threads.step (act e))
      (Threads.AsAlone (act e) (e.newContext ι) (issued reqs samplers))
      (Threads.start (e.newContext ι) (issued reqs samplers)) is ∧
    AllSteps (Threads.step (act e)) Isolated
      (Threads.start (e.newContext ι) (issued reqs samplers)) is

theorem callsSeparate (e : Engine Cell Logits) (reqs : ι → GenerateRequest)
    (samplers : ι → Logits → Token) {is : List ι}
    (hok : AllSteps (Threads.step (act e)) Undisturbed
      (Threads.start (e.newContext ι) (issued reqs samplers)) is) :
    CallsSeparate e reqs samplers is := by
  have hstart : Threads.Follows (act e) OneRunning Agree (e.newContext ι) (issued reqs samplers)
      (Threads.start (e.newContext ι) (issued reqs samplers)) := by
    have hidle : ∀ j, ¬ (issued reqs samplers j).Running := fun j h => h.1 rfl
    refine ⟨fun j k hj _ => absurd hj (hidle j), ?_⟩
    intro j
    refine ⟨rfl, fun h => absurd h (hidle j), fun h => absurd h (hidle j), ?_, ?_⟩
    · intro h
      cases h
    · intro h
      cases h
  refine ⟨(unwinding e).asAlone hstart hok, ?_⟩
  exact (unwinding e).allSteps hstart hok fun w i _ hall _ => isolated_of_agree hall i

end Ggml

end TruellmEngine
