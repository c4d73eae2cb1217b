/-
  The size of one batch.

  `llama_batch_init` allocates `n_ctx` entries, and the admission loop accepts a prompt
  when it alone is shorter than that. One step, though, writes the pending prompts of all
  busy slots one behind the other. The batch of the model is a list without a bound, so
  that its length can be compared with the allocation: a batch longer than `n_ctx` is a
  write past the end.

  `in_bounds_iff`: along a run all writes and all chunk views stay inside the allocation
  exactly when every batch built asks for at most `n_ctx` tokens (`slotDemand`), a
  condition on the slots before the batch is built. Two prompts that fit one by one break
  it (`two_prompts_overflow`).
-/
import TruellmEngine.Scheduler.KvSlots

namespace TruellmEngine.Scheduler

open Lib

/-- The tokens a slot asks for in one batch: its pending prompt, or one token. -/
def slotDemand (slot : Slot) : Nat :=
  if slot.isBusy = false then 0
  else if slot.prefilled then 1
  else if slot.pendingPrompt = [] then (if 0 < slot.nPast then 1 else 0)
  else slot.pendingPrompt.length

/-- The entries of the batch arrays that are written and read are allocated. -/
structure InBounds (cfg : Config) (s : State) : Prop where
  writes : s.batch.length ≤ cfg.nCtx
  chunks : ∀ cs nb, s.phase = .decode cs nb → cs < s.batch.length →
    (chunkView s.batch cs (s.chunkTokens cs nb)).length = s.chunkTokens cs nb ∧
      cs + s.chunkTokens cs nb ≤ s.batch.length

/-- The batch about to be built fits the allocation. -/
def DemandFits (cfg : Config) (s : State) : Label → Prop
  | .work _ => s.phase = .build → (s.slots.map slotDemand).sum ≤ cfg.nCtx
  | _ => True

variable {cfg : Config} {s t : State}

theorem buildSlot_length (st : World × List BatchEntry) (slot : Slot) :
    (buildSlot st slot).1.2.length = st.2.length + slotDemand slot := by
  unfold buildSlot slotDemand
  by_cases hb : slot.isBusy = true
  · have hb' : ¬ slot.isBusy = false := by simp [hb]
    rw [if_neg (by simp [hb]), if_neg hb']
    by_cases hpre : slot.prefilled = true
    · rw [if_neg (by simp [hpre]), if_pos hpre]
      simp [batchAdd]
    · rw [if_pos (by simpa using hpre), if_neg hpre]
      by_cases hp : slot.pendingPrompt = []
      · rw [if_pos hp, if_pos hp]
        split
        · simp [batchAdd]
        · rfl
      · rw [if_neg hp, if_neg hp]
        obtain ⟨es, he, hlen, -⟩ := addPrompt_eq st.2 slot.seqId slot.pendingPrompt.length
          slot.pendingPrompt slot.nPast 0
        dsimp only
        rw [he, List.length_append, hlen]
  · have hb' : slot.isBusy = false := by simpa using hb
    rw [if_pos (by simp [hb']), if_pos hb']
    rfl

/-- The batch builder writes exactly what the slots ask for. -/
theorem build_length (w : World) (slots : List Slot) :
    (forEach buildSlot (w, []) slots).1.2.length = (slots.map slotDemand).sum := by
  have h := forEach_adds (fun st : World × List BatchEntry => st.2.length) slotDemand
    buildSlot_length (w, []) slots
  simpa using h

theorem inBounds_of_writes (h : s.batch.length ≤ cfg.nCtx) : InBounds cfg s := by
  refine ⟨h, ?_⟩
  intro cs nb _ hcs
  have hle : s.chunkTokens cs nb ≤ s.batch.length - cs := Nat.min_le_right _ _
  refine ⟨?_, by omega⟩
  unfold chunkView
  rw [List.length_take, List.length_drop]
  omega

/-- Only the batch builder writes the batch. -/
theorem step_batch {l : Label} (h : step cfg s l = some t) :
    t.batch = s.batch ∨ ((∃ o, l = .work o) ∧ s.phase = .build ∧
      t.batch.length = (s.slots.map slotDemand).sum) := by
  cases step_cases h with
  | build o hp hb => exact Or.inr ⟨⟨o, rfl⟩, hp, build_length s.world s.slots⟩
  | submit req hp =>
    left
    unfold submit
    dsimp only
    split
    · rfl
    · rfl
  | stop => exact Or.inl rfl
  | enter o hp hr => exact Or.inl rfl
  | leave o hp hr => exact Or.inl rfl
  | admitDone o hp => exact Or.inl rfl
  | reject o hp entry rest hq res hres => exact Or.inl rfl
  | accept o hp entry rest hq hne hlen sel hsel => exact Or.inl rfl
  | idle o hp hb => exact Or.inl rfl
  | decodeDone o cs nb hp hcs => exact Or.inl rfl
  | decodeFail o cs nb hp hcs hret hfail => exact Or.inl rfl
  | decodeRetry o cs nb hp hcs hret hnb => exact Or.inl rfl
  | decodeOk o cs nb hp hcs hret => exact Or.inl rfl
  | drainSlots o hp => exact Or.inl rfl
  | drainQueue o hp => exact Or.inl rfl

/-- Slots that ask for more than nothing are busy, so their batch is built. -/
theorem build_of_demand {o : Oracle} (hp : s.phase = .build)
    (hpos : 0 < (s.slots.map slotDemand).sum) (h : step cfg s (.work o) = some t) :
    t.batch.length = (s.slots.map slotDemand).sum := by
  have hbusy : ¬ s.slots.all (fun slot => !slot.isBusy) = true := by
    intro hall
    have hzero : (s.slots.map slotDemand).sum = 0 := by
      refine List.sum_eq_zero ?_
      intro n hn
      obtain ⟨slot, hs, rfl⟩ := List.mem_map.mp hn
      have hb := List.all_eq_true.mp hall slot hs
      unfold slotDemand
      rw [if_pos (by simpa using hb)]
    omega
  simp only [step, workerStep, hp, buildBatch, hbusy, Option.some.injEq] at h
  rw [← h]
  exact build_length s.world s.slots

/-- All accesses to the batch arrays are in range in every state of a run exactly when
    every batch the run builds asks for at most `n_ctx` tokens. -/
theorem in_bounds_iff (cfg : Config) (ls : List Label) :
    AllStates (step cfg) (InBounds cfg) (init cfg) ls ↔
      AllSteps (step cfg) (DemandFits cfg) (init cfg) ls := by
  refine allStates_iff_allSteps (I := fun s => s.batch.length ≤ cfg.nCtx) ?_ ?_ ?_
    (Nat.zero_le _) ls
  · exact fun s h => inBounds_of_writes h
  · intro s l t h hok hst
    rcases step_batch hst with hb | ⟨⟨o, rfl⟩, hp, hlen⟩
    · rw [hb]
      exact h
    · rw [hlen]
      exact hok hp
  · intro s l t h hbad hst hP
    cases l with
    | submit req => exact hbad trivial
    | stop => exact hbad trivial
    | work o =>
      simp only [DemandFits, not_forall] at hbad
      obtain ⟨hp, hsum⟩ := hbad
      have hlen := build_of_demand hp (by omega) hst
      have hle := hP.writes
      omega

/-- Two prompts of three tokens in a context of four, admitted in one admission loop. -/
def twoPromptsRun : List Label :=
  [.submit { tokens := [1, 3, 4] }, .submit { tokens := [5, 6, 7] }] ++ works 5 7

/-- The batch holds six tokens, two behind the end of the allocation. -/
theorem two_prompts_overflow :
    ¬ AllStates (step (tinyConfig 4 2)) (InBounds (tinyConfig 4 2)) (init (tinyConfig 4 2))
      twoPromptsRun := by
  have hrun : (run (step (tinyConfig 4 2)) (init (tinyConfig 4 2)) twoPromptsRun).map
      (fun t => t.batch.length) = some 6 := by decide +kernel
  obtain ⟨t, ht, hlen⟩ := Option.map_eq_some_iff.mp hrun
  intro h
  have hle : t.batch.length ≤ 4 := (h.last ht).writes
  omega

end TruellmEngine.Scheduler
