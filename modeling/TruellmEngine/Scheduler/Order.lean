/-
  The order in which the scheduler serves its queue.

  `queue_` is a deque: `submit` appends, the admission loop takes the front. The promise of
  a request is its index among the submitted ones, so first come first served is a fact
  about promises: the queue is sorted, every busy slot holds an older promise than the
  queue, and the only requests behind a queued one that have an answer are those `submit`
  turned away (`Ordered`). Every step keeps this.

  * `SlotStep`: what a step does to a slot it admits no request into. `step_slotSteps`
    derives it once for all steps; the invariants here and in `Progress` use it.
  * `no_overtaking`: in every reachable state a request behind a queued one is in the
    queue behind it, or was turned away with a full queue.
-/
import TruellmEngine.Scheduler.LogitIndex
import Mathlib.Algebra.Order.BigOperators.Group.List
import Mathlib.Algebra.Order.Ring.Nat

namespace TruellmEngine.Scheduler

open Lib

variable {cfg : Config} {s t : State} {l : Label}

/-! ## What a step does to a slot -/

/-- What a step does to a slot it admits no request into. The clock is read only when the
    slot becomes warm. -/
structure SlotStep (l : Label) (slot slot' : Slot) : Prop where
  promise : slot'.promise = slot.promise
  busy : slot'.isBusy = true → slot.isBusy = true
  prompt : slot'.pendingPrompt = slot.pendingPrompt ∨ slot'.pendingPrompt = []
  warm : slot'.isWarm = true → (slot.isWarm = true ∧ slot'.cachedAtUs = slot.cachedAtUs) ∨
    ∃ o i, l = .work o ∧ slot'.cachedAtUs = o.now i

theorem SlotStep.refl (l : Label) (slot : Slot) : SlotStep l slot slot :=
  ⟨rfl, fun h => h, Or.inl rfl, fun h => Or.inl ⟨h, rfl⟩⟩

/-- A slot whose request ends, whatever was changed in it before. -/
theorem SlotStep.complete (slot₀ slot : Slot) (hp : slot.promise = slot₀.promise) (w : World)
    (o : Oracle) (i : Nat) (ec : ErrorCode) (msg fr : String) :
    SlotStep (.work o) slot₀ (completeSlot w slot (o.now i) ec msg fr).2 := by
  have hidle := completeSlot_not_busy w slot (o.now i) ec msg fr
  refine ⟨?_, fun hb => ?_, Or.inr ?_, fun hw => Or.inr ⟨o, i, rfl, ?_⟩⟩
  · unfold completeSlot
    dsimp only
    split
    · exact hp
    · exact hp
  · rw [hidle] at hb
    cases hb
  · unfold completeSlot
    dsimp only
    split
    · rfl
    · rfl
  · by_cases hkeep : ec = .ok ∧ slot.cachedSessionId ≠ []
    · rw [hkeep.1, completeSlot_keep _ _ _ _ _ hkeep.2]
      rfl
    · rw [completeSlot_free _ _ _ _ _ _ hkeep] at hw
      cases (Slot.isWarm_iff.mp hw).2

/-- A slot that keeps its sequence, its warmth and its promise. -/
theorem SlotStep.of_same {slot slot' : Slot} (hseq : slot'.seqId = slot.seqId)
    (hwarm : slot'.warm = slot.warm) (hat : slot'.cachedAtUs = slot.cachedAtUs)
    (hp : slot'.promise = slot.promise)
    (hprompt : slot'.pendingPrompt = slot.pendingPrompt ∨ slot'.pendingPrompt = []) :
    SlotStep l slot slot' := by
  refine ⟨hp, ?_, hprompt, ?_⟩
  · intro h
    rw [Slot.isBusy_iff] at h ⊢
    rwa [hseq, hwarm] at h
  · intro h
    rw [Slot.isWarm_iff] at h ⊢
    rw [hseq, hwarm] at h
    exact Or.inl ⟨h, hat⟩

theorem buildSlot_slotStep (st : World × List BatchEntry) (slot : Slot) :
    SlotStep l slot (buildSlot st slot).2 := by
  unfold buildSlot
  split
  · exact .refl l slot
  · split
    · split
      · split
        · exact .of_same rfl rfl rfl rfl (Or.inl rfl)
        · exact .refl l slot
      · exact .of_same rfl rfl rfl rfl (Or.inl rfl)
    · exact .of_same rfl rfl rfl rfl (Or.inl rfl)

theorem takeSample_prompt (slot : Slot) (tok : Token) :
    (takeSample slot tok).pendingPrompt = slot.pendingPrompt ∨
      (takeSample slot tok).pendingPrompt = [] := by
  unfold takeSample
  dsimp only
  split
  · exact Or.inl rfl
  · exact Or.inr rfl

theorem sampleInChunk_slotStep (o : Oracle) (cs n : Nat) (w : World) (slot : Slot) :
    SlotStep (.work o) slot (sampleInChunk cfg o cs n w slot).2 := by
  by_cases hin : InChunk cs n slot
  · rw [sampleInChunk_samples o w hin]
    by_cases heog : cfg.vocab.isEog (o.sample slot.id) = true
    · rw [sampleSlot_eog heog]
      exact .complete slot (takeSample slot _) rfl _ _ _ _ _ _
    · have heog : cfg.vocab.isEog (o.sample slot.id) = false := by simpa using heog
      by_cases hend : EndsRequest cfg slot (o.sample slot.id)
      · rw [sampleSlot_ends heog hend]
        exact .complete slot (emitted cfg slot _) rfl _ _ _ _ _ _
      · rw [sampleSlot_continues heog hend]
        exact .of_same rfl rfl rfl rfl (takeSample_prompt slot (o.sample slot.id))
  · rw [sampleInChunk_skips o w hin]
    exact .refl _ slot

theorem failSlot_slotStep (cs : Nat) (o : Oracle) (w : World) (slot : Slot) :
    SlotStep (.work o) slot (failSlot cs o w slot).2 := by
  unfold failSlot
  split
  · exact .complete slot slot rfl _ _ _ _ _ _
  · exact .refl _ slot

theorem drainSlot_slotStep (o : Oracle) (w : World) (slot : Slot) :
    SlotStep (.work o) slot (drainSlot o w slot).2 := by
  unfold drainSlot
  split
  · exact .complete slot { slot with cachedSessionId := [] } rfl _ _ _ _ _ _
  · split
    · exact ⟨rfl, fun h => by simp [Slot.isBusy] at h, Or.inl rfl,
        fun h => by simp [Slot.isWarm] at h⟩
    · exact .refl _ slot

/-- The slots after a step: an admission into the selected slot, or a `SlotStep` of each. -/
theorem step_slotSteps (h : step cfg s l = some t) :
    List.Forall₂ (SlotStep l) s.slots t.slots ∨
      ∃ entry rest sel, s.queue = entry :: rest ∧ t.queue = rest ∧
        entry.req.tokens.length < cfg.nCtx ∧ sel.Sound s.slots entry.req ∧
        t.slots = updateSlot s.slots (admitInto cfg s.world entry sel).2 := by
  have same : List.Forall₂ (SlotStep l) s.slots s.slots :=
    List.forall₂_same.mpr fun slot _ => .refl l slot
  cases step_cases h with
  | accept o hp entry rest hq hne hlen sel hsel =>
    exact Or.inr ⟨entry, rest, sel, hq, rfl, hlen, selectSlot_sound hsel, rfl⟩
  | submit req hp =>
    left
    unfold submit
    dsimp only
    split
    · exact same
    · exact same
  | build o hp hb => exact Or.inl (forEach_forall₂ buildSlot_slotStep _ _)
  | decodeFail o cs nb hp hcs hret hfail =>
    exact Or.inl (forEach_forall₂ (failSlot_slotStep cs o) _ _)
  | decodeOk o cs nb hp hcs hret =>
    exact Or.inl (forEach_forall₂ (sampleInChunk_slotStep o cs _) _ _)
  | drainSlots o hp => exact Or.inl (forEach_forall₂ (drainSlot_slotStep o) _ _)
  | stop => exact Or.inl same
  | enter o hp hr => exact Or.inl same
  | leave o hp hr => exact Or.inl same
  | admitDone o hp => exact Or.inl same
  | reject o hp entry rest hq res hres => exact Or.inl same
  | idle o hp hb => exact Or.inl same
  | decodeDone o cs nb hp hcs => exact Or.inl same
  | decodeRetry o cs nb hp hcs hret hnb => exact Or.inl same
  | drainQueue o hp => exact Or.inl same

/-! ## What a step answers -/

/-- Only requests before `e` are answered by `w`, or they were turned away. -/
def AnswersBefore (w : World) (e : Nat) : Prop :=
  ∀ a ∈ w.answers, e < a.1 → a.2 = queueFull

theorem AnswersBefore.setValue {w : World} {e q : Nat} {res : GenerateResult}
    (h : AnswersBefore w e) (hq : e < q → res = queueFull) :
    AnswersBefore (w.setValue q res) e := by
  intro a ha hlt
  rcases List.mem_append.mp ha with ha | ha
  · exact h a ha hlt
  · rw [List.mem_singleton] at ha
    subst ha
    exact hq hlt

/-- The end of a request that is older than `e`. -/
theorem AnswersBefore.complete {w : World} {e : Nat} (h : AnswersBefore w e) (slot : Slot)
    (hlt : slot.promise < e) (now : Int) (ec : ErrorCode) (msg fr : String) :
    AnswersBefore (completeSlot w slot now ec msg fr).1 e := by
  have hset : AnswersBefore (w.setValue slot.promise (slotResult slot ec msg fr)) e :=
    h.setValue fun he => absurd he (Nat.lt_asymm hlt)
  unfold AnswersBefore
  rw [completeSlot_answers]
  exact hset

theorem sampleInChunk_before (o : Oracle) (cs n : Nat) {w : World} {e : Nat}
    (h : AnswersBefore w e) {slot : Slot} (hlt : slot.isBusy = true → slot.promise < e) :
    AnswersBefore (sampleInChunk cfg o cs n w slot).1 e := by
  by_cases hin : InChunk cs n slot
  · have hlt := hlt hin.1
    have hcall : ∀ (slot' : Slot) (tok : Token) (piece : Bytes),
        AnswersBefore (callOnToken w slot' tok piece) e := by
      intro slot' tok piece
      unfold callOnToken
      split
      · exact h
      · exact h
    rw [sampleInChunk_samples o w hin]
    by_cases heog : cfg.vocab.isEog (o.sample slot.id) = true
    · rw [sampleSlot_eog heog]
      exact h.complete (takeSample slot _) hlt _ _ _ _
    · have heog : cfg.vocab.isEog (o.sample slot.id) = false := by simpa using heog
      by_cases hend : EndsRequest cfg slot (o.sample slot.id)
      · rw [sampleSlot_ends heog hend]
        exact (hcall _ _ _).complete (emitted cfg slot _) hlt _ _ _ _
      · rw [sampleSlot_continues heog hend]
        exact hcall _ _ _
  · rw [sampleInChunk_skips o w hin]
    exact h

theorem failSlot_before (cs : Nat) (o : Oracle) {w : World} {e : Nat}
    (h : AnswersBefore w e) {slot : Slot} (hlt : slot.isBusy = true → slot.promise < e) :
    AnswersBefore (failSlot cs o w slot).1 e := by
  unfold failSlot
  split
  · rename_i hb
    exact h.complete slot (hlt hb.1) _ _ _ _
  · exact h

theorem drainSlot_before (o : Oracle) {w : World} {e : Nat} (h : AnswersBefore w e)
    {slot : Slot} (hlt : slot.isBusy = true → slot.promise < e) :
    AnswersBefore (drainSlot o w slot).1 e := by
  unfold drainSlot
  split
  · rename_i hb
    exact h.complete { slot with cachedSessionId := [] } (hlt hb) _ _ _ _
  · split
    · exact h
    · exact h

theorem buildSlot_before {st : World × List BatchEntry} {e : Nat}
    (h : AnswersBefore st.1 e) (slot : Slot) : AnswersBefore (buildSlot st slot).1.1 e := by
  unfold buildSlot
  split
  · exact h
  · split
    · split
      · split
        · exact h
        · exact h
      · exact h
    · exact h

/-! ## The order -/

/-- First come first served, by promise. -/
structure Ordered (s : State) : Prop where
  queue : s.queue.Pairwise fun a b => a.promise < b.promise
  busy : ∀ slot ∈ s.slots, slot.isBusy = true → ∀ e ∈ s.queue, slot.promise < e.promise
  answers : ∀ e ∈ s.queue, AnswersBefore s.world e.promise

theorem ordered_init : Ordered (init cfg) := by
  refine ⟨List.Pairwise.nil, ?_, ?_⟩
  · intro slot _ _ e he
    cases he
  · intro e he
    cases he

/-- Whatever is in the queue or in a slot was submitted. -/
theorem LoopInv.queued_lt (h : LoopInv cfg s) {e : PendingRequest} (he : e ∈ s.queue) :
    e.promise < s.submitted.length := by
  have hacc := h.accounted e.promise
  have hpos : 0 < s.queued e.promise :=
    List.countP_pos_iff.mpr ⟨e, he, by simp⟩
  by_contra hlt
  rw [if_neg hlt] at hacc
  omega

theorem LoopInv.busy_lt (h : LoopInv cfg s) {slot : Slot} (hs : slot ∈ s.slots)
    (hb : slot.isBusy = true) : slot.promise < s.submitted.length := by
  have hacc := h.accounted slot.promise
  have hle : slot.owes slot.promise ≤ s.owed slot.promise :=
    List.le_sum_of_mem (List.mem_map_of_mem hs)
  rw [owes_of_busy hb, if_pos rfl] at hle
  by_contra hlt
  rw [if_neg hlt] at hacc
  omega

/-- A submitted request goes to the end of the queue, or is turned away. -/
theorem ordered_submit (hl : LoopInv cfg s) (h : Ordered s) (req : GenerateRequest) :
    Ordered (submit cfg s req) := by
  unfold submit
  dsimp only
  split
  · exact ⟨h.queue, h.busy, fun e he => (h.answers e he).setValue fun _ => rfl⟩
  · refine ⟨?_, ?_, ?_⟩
    · rw [List.pairwise_append]
      refine ⟨h.queue, List.pairwise_singleton _ _, ?_⟩
      intro a ha b hb
      rw [List.mem_singleton] at hb
      subst hb
      exact hl.queued_lt ha
    · intro slot hs hb e he
      rcases List.mem_append.mp he with he | he
      · exact h.busy slot hs hb e he
      · rw [List.mem_singleton] at he
        subst he
        exact hl.busy_lt hs hb
    · intro e he
      rcases List.mem_append.mp he with he | he
      · exact h.answers e he
      · -- nothing after the last submitted request is answered
        rw [List.mem_singleton] at he
        subst he
        intro a ha hlt
        have hacc := hl.accounted a.1
        have hpos : 0 < s.world.answered a.1 :=
          List.countP_pos_iff.mpr ⟨a, ha, by simp⟩
        rw [if_neg (by dsimp only at hlt; omega)] at hacc
        omega

/-- The answers after a step other than `submit`: of requests before the queue. -/
theorem answers_step (hl : LoopInv cfg s) (h : Ordered s) (hst : step cfg s l = some t) :
    ∀ e ∈ t.queue, AnswersBefore t.world e.promise := by
  cases step_cases hst with
  | submit req hp => exact (ordered_submit hl h req).answers
  | reject o hp entry rest hq res hres =>
    intro e he
    have hsorted := h.queue
    rw [hq, List.pairwise_cons] at hsorted
    have hlt := hsorted.1 e he
    refine (h.answers e (hq ▸ List.mem_cons_of_mem _ he)).setValue ?_
    intro hgt
    omega
  | accept o hp entry rest hq hne hlen sel hsel =>
    intro e he
    unfold AnswersBefore
    rw [admitInto_answers]
    exact h.answers e (hq ▸ List.mem_cons_of_mem _ he)
  | build o hp hb =>
    intro e he
    exact forEach_keeps (P := fun st : World × List BatchEntry => AnswersBefore st.1 e.promise)
      (fun st slot _ hst => buildSlot_before hst slot) (h.answers e he)
  | decodeFail o cs nb hp hcs hret hfail =>
    intro e he
    exact forEach_keeps (P := fun w => AnswersBefore w e.promise)
      (fun w slot hs hw => failSlot_before cs o hw fun hb => h.busy slot hs hb e he)
      (h.answers e he)
  | decodeOk o cs nb hp hcs hret =>
    intro e he
    exact forEach_keeps (P := fun w => AnswersBefore w e.promise)
      (fun w slot hs hw => sampleInChunk_before o cs _ hw fun hb => h.busy slot hs hb e he)
      (s := s.decoded cs (s.chunkTokens cs nb)) (h.answers e he)
  | drainSlots o hp =>
    intro e he
    exact forEach_keeps (P := fun w => AnswersBefore w e.promise)
      (fun w slot hs hw => drainSlot_before o hw fun hb => h.busy slot hs hb e he)
      (h.answers e he)
  | drainQueue o hp =>
    intro e he
    cases he
  | stop => exact h.answers
  | enter o hp hr => exact h.answers
  | leave o hp hr => exact h.answers
  | admitDone o hp => exact h.answers
  | idle o hp hb => exact h.answers
  | decodeDone o cs nb hp hcs => exact h.answers
  | decodeRetry o cs nb hp hcs hret hnb => exact h.answers

/-- A step other than `submit` takes entries off the front of the queue only. -/
theorem queue_step (hst : step cfg s l = some t) :
    (∃ req, l = .submit req) ∨ t.queue <:+ s.queue := by
  cases step_cases hst with
  | submit req hp => exact Or.inl ⟨req, rfl⟩
  | reject o hp entry rest hq res hres => exact Or.inr (hq ▸ List.suffix_cons entry rest)
  | accept o hp entry rest hq hne hlen sel hsel => exact Or.inr (hq ▸ List.suffix_cons entry rest)
  | drainQueue o hp => exact Or.inr (List.nil_suffix)
  | stop => exact Or.inr (List.suffix_refl _)
  | enter o hp hr => exact Or.inr (List.suffix_refl _)
  | leave o hp hr => exact Or.inr (List.suffix_refl _)
  | admitDone o hp => exact Or.inr (List.suffix_refl _)
  | idle o hp hb => exact Or.inr (List.suffix_refl _)
  | build o hp hb => exact Or.inr (List.suffix_refl _)
  | decodeDone o cs nb hp hcs => exact Or.inr (List.suffix_refl _)
  | decodeFail o cs nb hp hcs hret hfail => exact Or.inr (List.suffix_refl _)
  | decodeRetry o cs nb hp hcs hret hnb => exact Or.inr (List.suffix_refl _)
  | decodeOk o cs nb hp hcs hret => exact Or.inr (List.suffix_refl _)
  | drainSlots o hp => exact Or.inr (List.suffix_refl _)

theorem ordered_step (hl : LoopInv cfg s) (h : Ordered s) (hst : step cfg s l = some t) :
    Ordered t := by
  rcases queue_step hst with ⟨req, rfl⟩ | hsuff
  · cases step_cases hst with
    | submit req hp => exact ordered_submit hl h req
  · refine ⟨h.queue.sublist hsuff.sublist, ?_, answers_step hl h hst⟩
    intro slot' hs hb e he
    rcases step_slotSteps hst with hk | ⟨entry, rest, sel, hq, htq, -, hsound, ht⟩
    · obtain ⟨slot, hm, hrel⟩ := forall₂_mem_right hk hs
      rw [hrel.promise]
      exact h.busy slot hm (hrel.busy hb) e (hsuff.mem he)
    · rw [ht] at hs
      rw [htq] at he
      rcases mem_updateSlot hs with rfl | ⟨hm, -⟩
      · -- the admitted request was the front of the queue
        have hsorted := h.queue
        rw [hq, List.pairwise_cons] at hsorted
        have hprom : (admitInto cfg s.world entry sel).2.promise = entry.promise := by
          cases sel <;> rfl
        rw [hprom]
        exact hsorted.1 e he
      · exact h.busy slot' hm hb e (hq ▸ List.mem_cons_of_mem _ he)

theorem ordered_run {ls : List Label} (hr : run (step cfg) (init cfg) ls = some s) :
    Ordered s :=
  ((allStates_of_kept (I := fun s => LoopInv cfg s ∧ Ordered s)
    (fun _ _ _ h hst => ⟨loopInv_step h.1 hst, ordered_step h.1 h.2 hst⟩)
    ⟨loopInv_init, ordered_init⟩ ls).last hr).2

/-- First come first served: in every reachable state the queue is in the order of
    submission, and each request submitted after a queued one is itself in the queue, or
    was turned away because the queue was full. None of them is in a slot or served. -/
theorem no_overtaking (cfg : Config) {ls : List Label}
    (hr : run (step cfg) (init cfg) ls = some s) :
    (s.queue.Pairwise fun a b => a.promise < b.promise) ∧
      ∀ e ∈ s.queue, ∀ q, e.promise < q → q < s.submitted.length →
        s.owed q = 0 ∧
          ((∃ e' ∈ s.queue, e'.promise = q) ∨ (q, queueFull) ∈ s.world.answers) := by
  have h := ordered_run hr
  refine ⟨h.queue, ?_⟩
  intro e he q hlt hsub
  have howed : s.owed q = 0 := by
    refine List.sum_eq_zero ?_
    intro n hn
    obtain ⟨slot, hs, rfl⟩ := List.mem_map.mp hn
    refine if_neg ?_
    rintro ⟨hb, rfl⟩
    have := h.busy slot hs hb e he
    omega
  refine ⟨howed, ?_⟩
  by_cases hq : 0 < s.queued q
  · obtain ⟨e', he', hp⟩ := List.countP_pos_iff.mp hq
    exact Or.inl ⟨e', he', by simpa using hp⟩
  · have hacc := (loopInv_run hr).accounted q
    rw [if_pos hsub] at hacc
    have hanswered : 0 < s.world.answered q := by omega
    obtain ⟨⟨q', res⟩, ha, hqa⟩ := List.countP_pos_iff.mp hanswered
    have hqa : q' = q := by simpa using hqa
    subst hqa
    have hfull : res = queueFull := h.answers e he (q', res) ha hlt
    exact Or.inr (hfull ▸ ha)

/-- One request is in the slot, two wait, the fourth is turned away. -/
def fourRequestsRun : List Label :=
  .submit { tokens := [1] } :: works 3 7 ++
    [.submit { tokens := [3] }, .submit { tokens := [4] }, .submit { tokens := [5] }]

theorem no_overtaking_four : ∃ s, run (step (tinyConfig 8 1)) (init (tinyConfig 8 1))
      fourRequestsRun = some s ∧ s.queue.map PendingRequest.promise = [1, 2] ∧
    (s.queue.Pairwise fun a b => a.promise < b.promise) ∧
      ∀ e ∈ s.queue, ∀ q, e.promise < q → q < s.submitted.length →
        s.owed q = 0 ∧
          ((∃ e' ∈ s.queue, e'.promise = q) ∨ (q, queueFull) ∈ s.world.answers) := by
  have hrun : (run (step (tinyConfig 8 1)) (init (tinyConfig 8 1)) fourRequestsRun).map
      (fun s => s.queue.map PendingRequest.promise) = some [1, 2] := by decide +kernel
  obtain ⟨s, hs, hq⟩ := Option.map_eq_some_iff.mp hrun
  exact ⟨s, hs, hq, no_overtaking (tinyConfig 8 1) hs⟩

end TruellmEngine.Scheduler
