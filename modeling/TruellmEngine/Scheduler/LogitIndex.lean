/-
  The logit index of a slot (`i_batch`).

  The batch builder writes the entries of every busy slot and leaves in `i_batch` the index
  of the one that asks for logits (`HasLogit`). `LoopInv` holds in every reachable state:
  a busy slot has something to decode when the batch is built, and inside the chunk loop
  its logit entry lies in the part that is not decoded yet, or the slot took its token and
  `i_batch` is -1.
-/
import TruellmEngine.Scheduler.Delivery
import TruellmEngine.Scheduler.KvCoherence

namespace TruellmEngine.Scheduler

open Lib

/-! ## The logit of a slot -/

/-- The batch builder finds something to decode for the slot. -/
def Slot.Ready (slot : Slot) : Prop :=
  slot.prefilled = true ∨ slot.pendingPrompt ≠ [] ∨ 0 < slot.nPast

/-- `i_batch` is the index of an entry of the slot's own sequence that asks for logits. -/
def HasLogit (batch : List BatchEntry) (slot : Slot) : Prop :=
  ∃ i : Nat, slot.iBatch = i ∧
    ∃ e, batch[i]? = some e ∧ e.seqId = slot.seqId ∧ e.logits = true

/-- The slot took its token in this step. -/
def Slot.Taken (slot : Slot) : Prop := slot.prefilled = true ∧ slot.iBatch = -1

theorem HasLogit.append {batch : List BatchEntry} {slot : Slot} (h : HasLogit batch slot)
    (es : List BatchEntry) : HasLogit (batch ++ es) slot := by
  obtain ⟨i, hi, e, he, hseq⟩ := h
  refine ⟨i, hi, e, ?_, hseq⟩
  rw [List.getElem?_append_left (List.getElem?_eq_some_iff.mp he).1]
  exact he

/-- Of the entries of a prompt the last asks for logits. -/
theorem addPrompt_last (seqId : Int) (np : Nat) {toks : List Token} (hne : toks ≠ [])
    (b : List BatchEntry) (pos i : Nat) (hnp : i + toks.length = np) :
    ∃ es e, addPrompt b seqId np toks pos i = b ++ es ++ [e] ∧ e.seqId = seqId ∧
      e.logits = true := by
  induction toks generalizing b pos i with
  | nil => exact absurd rfl hne
  | cons tok toks ih =>
    rw [List.length_cons] at hnp
    by_cases hlast : toks = []
    · subst hlast
      have hi : i + 1 = np := by simpa using hnp
      exact ⟨[], ⟨tok, pos, seqId, true⟩, by simp [addPrompt, batchAdd, hi], rfl, rfl⟩
    · obtain ⟨es, e, he, hseq, hlog⟩ :=
        ih hlast (batchAdd b tok pos seqId (i + 1 == np)) (pos + 1) (i + 1) (by omega)
      refine ⟨⟨tok, pos, seqId, i + 1 == np⟩ :: es, e, ?_, hseq, hlog⟩
      rw [addPrompt, he]
      simp [batchAdd]

/-- `i_batch` names the entry just appended. -/
theorem hasLogit_last {b : List BatchEntry} {e : BatchEntry} {slot : Slot}
    (hi : slot.iBatch = b.length) (hseq : e.seqId = slot.seqId) (hlog : e.logits = true) :
    HasLogit (b ++ [e]) slot := by
  refine ⟨b.length, hi, e, ?_, hseq, hlog⟩
  rw [List.getElem?_append_right (Nat.le_refl _), Nat.sub_self]
  rfl

/-- The batch only grows. -/
theorem buildSlot_grows (st : World × List BatchEntry) (slot : Slot) :
    ∃ es, (buildSlot st slot).1.2 = st.2 ++ es := by
  unfold buildSlot
  split
  · exact ⟨[], by simp⟩
  · split
    · split
      · split
        · exact ⟨_, rfl⟩
        · exact ⟨[], by simp⟩
      · obtain ⟨es, he, -⟩ := addPrompt_eq st.2 slot.seqId slot.pendingPrompt.length
          slot.pendingPrompt slot.nPast 0
        exact ⟨es, he⟩
    · exact ⟨_, rfl⟩

theorem buildSlot_isBusy (st : World × List BatchEntry) (slot : Slot) :
    (buildSlot st slot).2.isBusy = slot.isBusy := by
  unfold buildSlot
  split
  · rfl
  · split
    · split
      · split <;> rfl
      · rfl
    · rfl

/-- A busy slot that is ready gets a logit entry. -/
theorem buildSlot_hasLogit (st : World × List BatchEntry) {slot : Slot}
    (hb : slot.isBusy = true) (hr : slot.Ready) :
    HasLogit (buildSlot st slot).1.2 (buildSlot st slot).2 := by
  unfold buildSlot
  rw [if_neg (by simp [hb])]
  by_cases hpre : slot.prefilled = true
  · rw [if_neg (by simp [hpre])]
    exact hasLogit_last rfl rfl rfl
  · rw [if_pos (by simpa using hpre)]
    by_cases hp : slot.pendingPrompt = []
    · have hpos : 0 < slot.nPast := by
        rcases hr with hr | hr | hr
        · exact absurd hr hpre
        · exact absurd hp hr
        · exact hr
      rw [if_pos hp, if_pos hpos]
      refine hasLogit_last ?_ rfl rfl
      show ((batchAdd st.2 _ _ _ true).length : Int) - 1 = st.2.length
      rw [batchAdd, List.length_append, List.length_singleton]
      omega
    · rw [if_neg hp]
      obtain ⟨es, e, he, hseq, hlog⟩ := addPrompt_last slot.seqId slot.pendingPrompt.length
        hp st.2 slot.nPast 0 (Nat.zero_add _)
      dsimp only
      rw [he]
      refine hasLogit_last ?_ hseq hlog
      show ((st.2 ++ es ++ [e]).length : Int) - 1 = (st.2 ++ es).length
      rw [List.length_append, List.length_singleton]
      omega

/-- The batch builder gives every busy slot a logit entry. -/
theorem build_hasLogit {w : World} {slots : List Slot} (hids : (slots.map Slot.id).Nodup)
    (hready : ∀ slot ∈ slots, slot.isBusy = true → slot.Ready) :
    ∀ slot ∈ (forEach buildSlot (w, []) slots).2, slot.isBusy = true →
      HasLogit (forEach buildSlot (w, []) slots).1.2 slot := by
  have key := (forEach_owned (f := buildSlot) Slot.id (J := fun _ => True)
    (P := fun _ slot => slot.isBusy = true → slot.Ready)
    (Q := fun st _ slot => slot.isBusy = true → HasLogit st.2 slot)
    buildSlot_id (fun _ _ _ _ => trivial) ?_ (fun _ _ _ _ _ h => h) ?_
    (s := (w, [])) trivial hids hready).2
  · intro slot hs
    obtain ⟨-, -, hQ⟩ := forall₂_mem_right key hs
    exact hQ
  · intro st slot _ hr hb
    rw [buildSlot_isBusy] at hb
    exact buildSlot_hasLogit st hb (hr hb)
  · intro st slot old other _ _ hQ hb
    obtain ⟨es, he⟩ := buildSlot_grows st slot
    rw [he]
    exact (hQ hb).append es

/-! ## The invariant -/

/-- What holds of a busy slot, by the worker's phase. -/
def BusyOk (s : State) (slot : Slot) : Prop :=
  match s.phase with
  | .loopHead | .admission | .build => slot.Ready
  | .decode cs _ =>
    (HasLogit s.batch slot ∧ (cs : Int) ≤ slot.iBatch) ∨ (0 < cs ∧ slot.Taken)
  | .drainSlots | .drainQueue | .exited => True

structure LoopInv (cfg : Config) (s : State) : Prop where
  ids : (s.slots.map Slot.id).Nodup
  accounted : Accounted s
  busy : ∀ slot ∈ s.slots, slot.isBusy = true → BusyOk s slot
  chunk : ∀ cs nb, s.phase = .decode cs nb → cs ≤ s.batch.length ∧ 0 < nb ∧ nb ≤ cfg.nBatch

variable {cfg : Config} {s t : State}

/-- Of a request at most one slot is busy. -/
theorem LoopInv.owed_le (h : LoopInv cfg s) (p : Nat) :
    (s.slots.map (Slot.owes p)).sum ≤ 1 := by
  have hacc := h.accounted p
  unfold State.owed at hacc
  split_ifs at hacc <;> omega

theorem HasLogit.lt {batch : List BatchEntry} {slot : Slot} (h : HasLogit batch slot) :
    slot.iBatch < batch.length := by
  obtain ⟨i, hi, e, he, -⟩ := h
  have := (List.getElem?_eq_some_iff.mp he).1
  omega

theorem BusyOk.ready {slot : Slot} (h : BusyOk s slot)
    (hp : s.phase = .loopHead ∨ s.phase = .admission ∨ s.phase = .build) : slot.Ready := by
  unfold BusyOk at h
  rcases hp with hp | hp | hp <;> rw [hp] at h <;> exact h

theorem BusyOk.decode {slot : Slot} (h : BusyOk s slot) {cs nb : Nat}
    (hp : s.phase = .decode cs nb) :
    (HasLogit s.batch slot ∧ (cs : Int) ≤ slot.iBatch) ∨ (0 < cs ∧ slot.Taken) := by
  unfold BusyOk at h
  rw [hp] at h
  exact h

theorem Slot.Taken.ready {slot : Slot} (h : slot.Taken) : slot.Ready := Or.inl h.1

/-- The slot's logit is in the chunk: its success samples the slot. -/
def InChunk (cs n : Nat) (slot : Slot) : Prop :=
  slot.isBusy = true ∧ (cs : Int) ≤ slot.iBatch ∧ slot.iBatch < (cs : Int) + n

instance (cs n : Nat) (slot : Slot) : Decidable (InChunk cs n slot) :=
  inferInstanceAs (Decidable (_ ∧ _ ∧ _))

theorem sampleInChunk_samples (o : Oracle) (w : World) {cs n : Nat} {slot : Slot}
    (h : InChunk cs n slot) :
    sampleInChunk cfg o cs n w slot =
      sampleSlot cfg w slot (o.sample slot.id) (o.now slot.id) := if_pos h

theorem sampleInChunk_skips (o : Oracle) (w : World) {cs n : Nat} {slot : Slot}
    (h : ¬ InChunk cs n slot) : sampleInChunk cfg o cs n w slot = (w, slot) := if_neg h

/-- A sampled slot that is still busy took its token. -/
theorem sampleInChunk_taken (o : Oracle) (w : World) {cs n : Nat} {slot : Slot}
    (h : InChunk cs n slot) (hb : (sampleInChunk cfg o cs n w slot).2.isBusy = true) :
    (sampleInChunk cfg o cs n w slot).2.Taken := by
  rw [sampleInChunk_samples o w h] at hb ⊢
  by_cases heog : cfg.vocab.isEog (o.sample slot.id) = true
  · rw [sampleSlot_eog heog, completeSlot_not_busy] at hb
    cases hb
  · have heog : cfg.vocab.isEog (o.sample slot.id) = false := by simpa using heog
    by_cases hend : EndsRequest cfg slot (o.sample slot.id)
    · rw [sampleSlot_ends heog hend, completeSlot_not_busy] at hb
      cases hb
    · rw [sampleSlot_continues heog hend]
      exact ⟨rfl, rfl⟩

theorem failSlot_fails (o : Oracle) (w : World) {cs : Nat} {slot : Slot}
    (hb : slot.isBusy = true) (hcs : (cs : Int) ≤ slot.iBatch) :
    (failSlot cs o w slot).2.isBusy = false := by
  unfold failSlot
  rw [if_pos ⟨hb, hcs⟩]
  exact completeSlot_not_busy _ _ _ _ _ _

theorem failSlot_skips (o : Oracle) (w : World) {cs : Nat} {slot : Slot}
    (h : ¬ (slot.isBusy = true ∧ (cs : Int) ≤ slot.iBatch)) :
    failSlot cs o w slot = (w, slot) := by
  unfold failSlot
  rw [if_neg h]

/-- A request is admitted with a prompt to prefill or with a cached prefix. -/
theorem admitInto_ready (cfg : Config) (w : World) {entry : PendingRequest}
    {slots : List Slot} {sel : Selection} (h : sel.Sound slots entry.req)
    (hne : entry.req.tokens ≠ []) : (admitInto cfg w entry sel).2.Ready := by
  cases sel with
  | reuse slot n =>
    obtain ⟨-, -, -, -, -, hmin⟩ := h
    have hpos : 0 < n := Nat.lt_of_lt_of_le (by decide) hmin
    refine Or.inr (Or.inr ?_)
    simp only [admitInto, placePrompt, if_pos hpos, startRequest]
    exact hpos
  | free slot => exact Or.inr (Or.inl hne)
  | evict slot => exact Or.inr (Or.inl hne)

/-- A decoded chunk is not empty and ends inside the batch. -/
theorem chunkTokens_bounds {cs nb : Nat} (hcs : cs < s.batch.length) (hnb : 0 < nb) :
    0 < s.chunkTokens cs nb ∧ cs + s.chunkTokens cs nb ≤ s.batch.length := by
  unfold State.chunkTokens
  omega

theorem loopInv_init : LoopInv cfg (init cfg) := by
  have h : DeliveryInv (init cfg) := deliveryInv_init
  refine ⟨h.ids, h.accounted, ?_, by simp [init]⟩
  intro slot hs hb
  obtain ⟨i, -, rfl⟩ := List.mem_map.mp hs
  cases hb

/-- The busy slots after a step. -/
theorem busyOk_step {l : Label} (h : LoopInv cfg s) (hst : step cfg s l = some t) :
    ∀ slot ∈ t.slots, slot.isBusy = true → BusyOk t slot := by
  cases step_cases hst with
  | submit req hp =>
    unfold submit
    dsimp only
    split
    · exact h.busy
    · exact h.busy
  | stop => exact h.busy
  | enter o hp hr => exact fun slot hs hb => (h.busy slot hs hb).ready (Or.inl hp)
  | leave o hp hr => exact fun _ _ _ => trivial
  | admitDone o hp =>
    exact fun slot hs hb => (h.busy slot hs hb).ready (Or.inr (Or.inl hp))
  | reject o hp entry rest hq res hres =>
    intro slot hs hb
    have hr := (h.busy slot hs hb).ready (Or.inr (Or.inl hp))
    unfold BusyOk
    simp only [hp]
    exact hr
  | accept o hp entry rest hq hne hlen sel hsel =>
    intro slot hs hb
    unfold BusyOk
    simp only [hp]
    rcases mem_updateSlot hs with rfl | ⟨hm, -⟩
    · exact admitInto_ready cfg s.world (selectSlot_sound hsel) hne
    · exact (h.busy slot hm hb).ready (Or.inr (Or.inl hp))
  | idle o hp hb =>
    exact fun slot hs hb => (h.busy slot hs hb).ready (Or.inr (Or.inr hp))
  | build o hp hb =>
    intro slot hs hb
    have hready : ∀ slot ∈ s.slots, slot.isBusy = true → slot.Ready := fun slot hs hb =>
      (h.busy slot hs hb).ready (Or.inr (Or.inr hp))
    have hlog := build_hasLogit (w := s.world) h.ids hready slot hs hb
    unfold BusyOk
    by_cases hnil : (forEach buildSlot (s.world, []) s.slots).1.2 = []
    · -- an empty batch has no entry for the slot
      have hlt := hlog.lt
      obtain ⟨i, hi, -⟩ := hlog
      rw [hnil, hi] at hlt
      exact absurd hlt (by simp)
    · simp only [hnil, if_false]
      obtain ⟨i, hi, hrest⟩ := hlog
      exact Or.inl ⟨⟨i, hi, hrest⟩, by omega⟩
  | decodeDone o cs nb hp hcs =>
    intro slot hs hb
    rcases (h.busy slot hs hb).decode hp with ⟨hlog, hle⟩ | ⟨-, htaken⟩
    · have := hlog.lt
      omega
    · exact htaken.ready
  | decodeFail o cs nb hp hcs hret hfail =>
    intro slot' hs hb
    obtain ⟨slot, hm, w, rfl⟩ := forall₂_mem_right
      (forEach_forall₂ (R := fun slot slot' => ∃ w, slot' = (failSlot cs o w slot).2)
        (fun w slot => ⟨w, rfl⟩) s.world s.slots) hs
    by_cases hf : slot.isBusy = true ∧ (cs : Int) ≤ slot.iBatch
    · rw [failSlot_fails o w hf.1 hf.2] at hb
      cases hb
    · rw [failSlot_skips o w hf] at hb ⊢
      rcases (h.busy slot hm hb).decode hp with ⟨-, hle⟩ | ⟨-, htaken⟩
      · exact absurd ⟨hb, hle⟩ hf
      · exact htaken.ready
  | decodeRetry o cs nb hp hcs hret hnb =>
    exact fun slot hs hb => (h.busy slot hs hb).decode hp
  | decodeOk o cs nb hp hcs hret =>
    intro slot' hs hb
    obtain ⟨hpos, hend⟩ := chunkTokens_bounds hcs (h.chunk cs nb hp).2.1
    obtain ⟨slot, hm, w, rfl⟩ := forall₂_mem_right
      (forEach_forall₂
        (R := fun slot slot' =>
          ∃ w, slot' = (sampleInChunk cfg o cs (s.chunkTokens cs nb) w slot).2)
        (fun w slot => ⟨w, rfl⟩) (s.decoded cs (s.chunkTokens cs nb)) s.slots) hs
    by_cases hin : InChunk cs (s.chunkTokens cs nb) slot
    · exact Or.inr ⟨by omega, sampleInChunk_taken o w hin hb⟩
    · rw [sampleInChunk_skips o w hin] at hb ⊢
      rcases (h.busy slot hm hb).decode hp with ⟨hlog, hle⟩ | ⟨-, htaken⟩
      · refine Or.inl ⟨hlog, ?_⟩
        by_contra hlt
        exact hin ⟨hb, hle, by push_cast at hlt; omega⟩
      · exact Or.inr ⟨by omega, htaken⟩
  | drainSlots o hp => exact fun _ _ _ => trivial
  | drainQueue o hp => exact fun _ _ _ => trivial

/-- The place in the batch and the chunk size after a step. -/
theorem chunk_step {l : Label} (h : LoopInv cfg s) (hst : step cfg s l = some t) :
    ∀ cs nb, t.phase = .decode cs nb →
      cs ≤ t.batch.length ∧ 0 < nb ∧ nb ≤ cfg.nBatch := by
  cases step_cases hst with
  | submit req hp =>
    unfold submit
    dsimp only
    split
    · exact h.chunk
    · exact h.chunk
  | stop => exact h.chunk
  | enter o hp hr => simp
  | leave o hp hr => simp
  | admitDone o hp => simp
  | reject o hp entry rest hq res hres => simp [hp]
  | accept o hp entry rest hq hne hlen sel hsel => simp [hp]
  | idle o hp hb => simp
  | build o hp hb =>
    intro cs nb ht
    dsimp only at ht
    split at ht
    · cases ht
    · cases ht
      exact ⟨Nat.zero_le _, cfg.nBatch_pos, Nat.le_refl _⟩
  | decodeDone o cs nb hp hcs => simp
  | decodeFail o cs nb hp hcs hret hfail => simp
  | decodeRetry o cs nb hp hcs hret hnb =>
    intro cs' nb' ht
    cases ht
    have hc := h.chunk cs nb hp
    exact ⟨hc.1, by omega, by omega⟩
  | decodeOk o cs nb hp hcs hret =>
    intro cs' nb' ht
    cases ht
    exact ⟨(chunkTokens_bounds hcs (h.chunk cs nb hp).2.1).2, cfg.nBatch_pos, Nat.le_refl _⟩
  | drainSlots o hp => simp
  | drainQueue o hp => simp [Scheduler.drainQueue]

theorem loopInv_step {l : Label} (h : LoopInv cfg s) (hst : step cfg s l = some t) :
    LoopInv cfg t := by
  refine ⟨?_, accounted_step h.ids h.accounted hst, busyOk_step h hst, chunk_step h hst⟩
  rw [step_ids hst]
  exact h.ids

/-- Every reachable state has the invariant. -/
theorem loopInv_run {ls : List Label} (hr : run (step cfg) (init cfg) ls = some s) :
    LoopInv cfg s :=
  (allStates_of_kept (fun _ _ _ h hst => loopInv_step h hst) loopInv_init ls).last hr

end TruellmEngine.Scheduler
