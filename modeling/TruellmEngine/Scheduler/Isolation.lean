/-
  Runs without sessions.

  When no submitted request carries a session id, no slot is ever kept warm, so no request
  can end in the way that breaks the coherence of `KvCoherence`. `sessionless_isolation`
  is the result: in every such run, whatever `llama_decode` returns and whatever is
  sampled, each busy slot's sequence holds its own request's tokens and nothing else, and
  every token is decoded right behind them.
-/
import TruellmEngine.Scheduler.KvCoherence
import TruellmEngine.Scheduler.Sessions

namespace TruellmEngine.Scheduler

open Lib

variable {cfg : Config} {s t : State}

/-! ## No session ids -/

/-- No slot and no queued request has a session id. -/
structure Sessionless (s : State) : Prop where
  slots : ∀ slot ∈ s.slots, slot.cachedSessionId = []
  queue : ∀ entry ∈ s.queue, entry.req.sessionId = []

def SubmitsSessionless : Label → Prop
  | .submit req => req.sessionId = []
  | _ => True

theorem sessionless_init : Sessionless (init cfg) := by
  refine ⟨?_, by simp [init]⟩
  intro slot hs
  obtain ⟨i, -, rfl⟩ := List.mem_map.mp hs
  rfl

/-- The queue after a step holds queued requests of before and the one just submitted. -/
theorem step_queue {l : Label} (h : step cfg s l = some t) :
    ∀ entry ∈ t.queue, entry ∈ s.queue ∨ l = .submit entry.req := by
  cases step_cases h with
  | submit req hp =>
    unfold submit
    dsimp only
    split
    · exact fun entry he => Or.inl he
    · intro entry he
      rcases List.mem_append.mp he with he | he
      · exact Or.inl he
      · rw [List.mem_singleton.mp he]
        exact Or.inr rfl
  | reject o hp entry rest hq res hres =>
    exact fun e he => Or.inl (hq ▸ List.mem_cons_of_mem entry he)
  | accept o hp entry rest hq hne hlen sel hsel =>
    exact fun e he => Or.inl (hq ▸ List.mem_cons_of_mem entry he)
  | drainQueue o hp => exact fun e he => absurd he (by simp [drainQueue])
  | stop => exact fun e he => Or.inl he
  | enter o hp hr => exact fun e he => Or.inl he
  | leave o hp hr => exact fun e he => Or.inl he
  | admitDone o hp => exact fun e he => Or.inl he
  | idle o hp hb => exact fun e he => Or.inl he
  | build o hp hb => exact fun e he => Or.inl he
  | decodeDone o cs nb hp hcs => exact fun e he => Or.inl he
  | decodeFail o cs nb hp hcs hret hfail => exact fun e he => Or.inl he
  | decodeRetry o cs nb hp hcs hret hnb => exact fun e he => Or.inl he
  | decodeOk o cs nb hp hcs hret => exact fun e he => Or.inl he
  | drainSlots o hp => exact fun e he => Or.inl he

theorem sessionless_step {l : Label} (h : Sessionless s) (hl : SubmitsSessionless l)
    (hst : step cfg s l = some t) : Sessionless t := by
  refine ⟨?_, ?_⟩
  · intro slot hs
    rcases step_slots hst with hk | ⟨-, -, entry, rest, sel, hq, -, -, -, ht⟩
    · obtain ⟨old, hold, hkept⟩ := forall₂_mem_right hk hs
      rcases hkept.session with ⟨he, -⟩ | he
      · exact he.trans (h.slots old hold)
      · exact he
    · rw [ht] at hs
      rcases mem_updateSlot hs with rfl | ⟨hold, -⟩
      · rw [admitInto_sessionId]
        exact h.queue entry (hq ▸ List.mem_cons_self)
      · exact h.slots slot hold
  · intro entry he
    rcases step_queue hst entry he with hq | rfl
    · exact h.queue entry hq
    · exact hl

theorem Sessionless.endsByEog (h : Sessionless s) (l : Label) : SessionsEndByEog cfg s l := by
  cases l with
  | submit req => trivial
  | stop => trivial
  | work o => exact fun cs nb _ _ _ slot hs hover => hover.2.2.2.1 (h.slots slot hs)

/-! ## Isolation -/

/-- The worker is between two batches: at the loop head, in the admission loop, or about
    to build the next batch. -/
def State.betweenBatches (s : State) : Prop :=
  s.phase = .loopHead ∨ s.phase = .admission ∨ s.phase = .build

/-- The tokens a busy slot has in the KV cache between two batches: nothing when it was
    just admitted, later everything but the last sampled token. -/
def tokensDecoded (slot : Slot) (req : GenerateRequest) : List Token :=
  if slot.prefilled then req.tokens ++ slot.genTokenIds.dropLast else []

/-- The sequences of the slots, between two batches. -/
structure SlotsIsolated (s : State) : Prop where
  ids : (s.slots.map Slot.id).Nodup
  freeOrBusy : ∀ slot ∈ s.slots, slot.isFree = true ∨ slot.isBusy = true
  free : ∀ slot ∈ s.slots, slot.isFree = true → ∀ p, s.world.kv slot.id p = none
  busy : ∀ slot ∈ s.slots, slot.isBusy = true → slot.seqId = slot.id ∧
    ∃ req, s.submitted[slot.promise]? = some req ∧
      slot.nPast = (tokensDecoded slot req).length ∧
      Holds (s.world.kv slot.id) (tokensDecoded slot req)

theorem KvInv.waiting_of_between (h : KvInv s) (hp : s.betweenBatches) :
    ∀ slot ∈ s.slots, Waiting s.submitted s.world.kv slot := by
  rcases hp with hp | hp | hp
  · exact fun slot hs => .settled (h.settled hp slot hs)
  · exact h.waiting (Or.inl hp)
  · exact h.waiting (Or.inr (Or.inl hp))

/-- A busy slot without a session, between two batches. -/
theorem Waiting.busy_cells {sub : List GenerateRequest} {kv : KvCache} {slot : Slot}
    (h : Waiting sub kv slot) (hb : slot.isBusy = true) (hsid : slot.cachedSessionId = []) :
    slot.seqId = slot.id ∧ ∃ req, sub[slot.promise]? = some req ∧
      slot.nPast = (tokensDecoded slot req).length ∧
      Holds (kv slot.id) (tokensDecoded slot req) := by
  cases h with
  | settled h =>
    cases h with
    | free h => simp [h.not_busy] at hb
    | warm h => exact absurd hsid h.session
    | decoding h =>
      obtain ⟨req, hreq, hct⟩ := h.own
      have hlen := congrArg List.length h.past
      rw [List.length_append, List.length_take, List.length_singleton] at hlen
      have hlast : req.tokens ++ slot.genTokenIds.dropLast =
          slot.cachedTokens.take slot.nPast := by
        rw [← List.dropLast_append_of_ne_nil h.emitted, ← hct]
        conv_lhs => rw [h.past]
        rw [List.dropLast_concat]
      refine ⟨h.seq, req, hreq, ?_⟩
      unfold tokensDecoded
      rw [if_pos h.prefilled, hlast]
      refine ⟨?_, h.cells⟩
      rw [List.length_take]
      omega
  | admitted h =>
    obtain ⟨req, hreq, -⟩ := h.own
    have hzero := h.fresh hsid
    have hcells := h.cells
    rw [hzero, List.take_zero] at hcells
    refine ⟨h.seq, req, hreq, ?_⟩
    unfold tokensDecoded
    rw [h.prefilled]
    exact ⟨hzero, hcells⟩

theorem KvInv.slotsIsolated (h : KvInv s) (hs : Sessionless s) (hp : s.betweenBatches) :
    SlotsIsolated s := by
  have hw := h.waiting_of_between hp
  refine ⟨h.ids, ?_, ?_, ?_⟩
  · intro slot hm
    by_cases hfree : slot.seqId = -1
    · exact Or.inl (Slot.isFree_iff.mpr hfree)
    · by_cases hwarm : slot.warm = true
      · have hww := (hw slot hm).warm_of_isWarm (Slot.isWarm_iff.mpr ⟨hfree, hwarm⟩)
        exact absurd (hs.slots slot hm) hww.session
      · exact Or.inr (Slot.isBusy_iff.mpr ⟨hfree, by simpa using hwarm⟩)
  · intro slot hm hf
    exact holds_nil_iff.mp ((hw slot hm).free_of_isFree hf).cells
  · exact fun slot hm hb => (hw slot hm).busy_cells hb (hs.slots slot hm)

/-- In a run whose requests carry no session id, the slots are isolated between any two
    batches, and every token is decoded right behind its own request's tokens. -/
theorem sessionless_isolation (cfg : Config) (ls : List Label)
    (hls : ∀ l ∈ ls, SubmitsSessionless l) :
    AllStates (step cfg)
      (fun s => (s.betweenBatches → SlotsIsolated s) ∧ DecodesOwnPrefix s) (init cfg) ls := by
  have hok : AllSteps (step cfg) (fun _ l => SubmitsSessionless l) (init cfg) ls :=
    allSteps_of_labels hls
  have hinv : AllStates (step cfg) (fun s => KvInv s ∧ Sessionless s) (init cfg) ls :=
    allStates_of_invariant
      (fun s l t h hl hst =>
        ⟨kvInv_step h.1 (h.2.endsByEog l) hst, sessionless_step h.2 hl hst⟩)
      ⟨kvInv_init, sessionless_init⟩ hok
  exact hinv.mono fun s h =>
    ⟨fun hp => h.1.slotsIsolated h.2 hp, h.1.decodesOwnPrefix⟩

/-- Two requests share a batch; its first decode is retried at half the batch size. -/
def twoRequestsRun : List Label :=
  [.submit { tokens := [1, 4] }, .submit { tokens := [3] }] ++ works 5 7 ++
    [.work { ret := 1 }] ++ works 4 7

theorem two_requests_isolated :
    (run (step (tinyConfig 8 2)) (init (tinyConfig 8 2)) twoRequestsRun).isSome = true ∧
      AllStates (step (tinyConfig 8 2))
        (fun s => (s.betweenBatches → SlotsIsolated s) ∧ DecodesOwnPrefix s)
        (init (tinyConfig 8 2)) twoRequestsRun := by
  refine ⟨by decide +kernel, ?_⟩
  refine sessionless_isolation (tinyConfig 8 2) twoRequestsRun ?_
  intro l hl
  simp only [twoRequestsRun, works, List.replicate, List.cons_append, List.nil_append,
    List.mem_cons, List.not_mem_nil, or_false] at hl
  rcases hl with rfl | rfl | rfl | rfl | rfl | rfl | rfl | rfl | rfl | rfl | rfl | rfl <;>
    trivial

end TruellmEngine.Scheduler
