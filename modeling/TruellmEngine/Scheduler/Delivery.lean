/-
  Delivery of the results.

  A submitted request is in exactly one place: answered, in the queue, or in a busy slot
  (`Accounted`). Every step keeps this, so in every run no promise is set twice and none
  is lost while the worker runs.

  `delivered_once_iff` is about the end of the run. The worker's last act is to drain the
  queue, but `submit` does not look at `running_`: a request queued after the drain stays
  there (`submit_after_drain`). Every promise is set exactly once by the exit of the
  worker, along a run, exactly when no step of the run queues a request after the drain.
-/
import TruellmEngine.Scheduler.Sessions
import Mathlib.Algebra.Order.BigOperators.Group.List
import Mathlib.Algebra.Order.Ring.Nat

namespace TruellmEngine.Scheduler

open Lib

/-! ## Where a promise is -/

/-- How often the promise was set. -/
def World.answered (w : World) (p : Nat) : Nat := w.answers.countP fun a => a.1 == p

/-- Whether a slot will set the promise. -/
def Slot.owes (p : Nat) (slot : Slot) : Nat :=
  if slot.isBusy = true ∧ slot.promise = p then 1 else 0

def State.queued (s : State) (p : Nat) : Nat := s.queue.countP fun e => e.promise == p

def State.owed (s : State) (p : Nat) : Nat := (s.slots.map (Slot.owes p)).sum

/-- Each submitted request's promise is set, in the queue or in a slot: once, in one place. -/
def Accounted (s : State) : Prop :=
  ∀ p, s.world.answered p + s.queued p + s.owed p = if p < s.submitted.length then 1 else 0

@[simp] theorem answered_setValue (w : World) (q : Nat) (res : GenerateResult) (p : Nat) :
    (w.setValue q res).answered p = w.answered p + if q = p then 1 else 0 := by
  simp [World.answered, World.setValue, List.countP_append, List.countP_cons]

@[simp] theorem answered_seqRm (w : World) (seqId p0 : Int) (p : Nat) :
    (w.seqRm seqId p0).answered p = w.answered p := rfl

theorem answered_callOnToken (w : World) (slot : Slot) (tok : Token) (piece : Bytes)
    (p : Nat) : (callOnToken w slot tok piece).answered p = w.answered p := by
  unfold callOnToken
  split <;> rfl

theorem owes_of_not_busy {slot : Slot} (h : slot.isBusy = false) (p : Nat) :
    slot.owes p = 0 := by
  simp [Slot.owes, h]

theorem owes_of_busy {slot : Slot} (h : slot.isBusy = true) (p : Nat) :
    slot.owes p = if slot.promise = p then 1 else 0 := by
  simp [Slot.owes, h]

/-- A slot that keeps its sequence, warmth and promise owes what it owed. -/
theorem owes_congr {slot slot' : Slot} (h1 : slot'.seqId = slot.seqId)
    (h2 : slot'.warm = slot.warm) (h3 : slot'.promise = slot.promise) (p : Nat) :
    slot'.owes p = slot.owes p := by
  simp [Slot.owes, Slot.isBusy, h1, h2, h3]

/-! ## Logs by promise -/

/-- The entries of a log that are of the promise, in order. -/
def entriesOf {β : Type} (p : Nat) (log : List (Nat × β)) : List β :=
  (log.filter fun e => e.1 == p).map Prod.snd

section

variable {β : Type} (p : Nat)

@[simp] theorem entriesOf_nil : entriesOf p ([] : List (Nat × β)) = [] := rfl

@[simp] theorem entriesOf_append (log log' : List (Nat × β)) :
    entriesOf p (log ++ log') = entriesOf p log ++ entriesOf p log' := by
  simp [entriesOf]

@[simp] theorem entriesOf_self (b : β) : entriesOf p [(p, b)] = [b] := by
  simp [entriesOf]

theorem entriesOf_other {p q : Nat} (h : q ≠ p) (b : β) : entriesOf p [(q, b)] = [] := by
  simp [entriesOf, h]

theorem entriesOf_flatMap {α : Type} (g : α → List (Nat × β)) (as : List α) :
    entriesOf p (as.flatMap g) = as.flatMap fun a => entriesOf p (g a) := by
  induction as with
  | nil => rfl
  | cons a as ih => rw [List.flatMap_cons, List.flatMap_cons, entriesOf_append, ih]

/-- What only the owner of a promise contributes, where no slot owns it. -/
theorem flatMap_unowned {g : Slot → List β} (hg : ∀ slot, slot.owes p = 0 → g slot = [])
    {slots : List Slot} (hsum : (slots.map (Slot.owes p)).sum = 0) : slots.flatMap g = [] := by
  rw [List.flatMap_eq_nil_iff]
  intro slot hs
  have hle : slot.owes p ≤ (slots.map (Slot.owes p)).sum :=
    List.le_sum_of_mem (List.mem_map_of_mem hs)
  exact hg slot (by omega)

/-- What only the owner of a promise contributes, where one slot owns it. -/
theorem flatMap_owner {g : Slot → List β} (hg : ∀ slot, slot.owes p = 0 → g slot = [])
    {slots : List Slot} (hsum : (slots.map (Slot.owes p)).sum ≤ 1) {slot : Slot}
    (hs : slot ∈ slots) (ho : slot.owes p = 1) : slots.flatMap g = g slot := by
  induction slots with
  | nil => cases hs
  | cons head rest ih =>
    rw [List.map_cons, List.sum_cons] at hsum
    rw [List.flatMap_cons]
    rcases List.mem_cons.mp hs with rfl | hs
    · rw [flatMap_unowned p hg (by omega), List.append_nil]
    · have hle : slot.owes p ≤ (rest.map (Slot.owes p)).sum :=
        List.le_sum_of_mem (List.mem_map_of_mem hs)
      rw [hg head (by omega), ih (by omega) hs, List.nil_append]

variable {g : Slot → List (Nat × β)}

theorem entries_unowned (hg : ∀ slot, slot.owes p = 0 → entriesOf p (g slot) = [])
    {slots : List Slot} (hsum : (slots.map (Slot.owes p)).sum = 0) (log : List (Nat × β)) :
    entriesOf p (log ++ slots.flatMap g) = entriesOf p log := by
  rw [entriesOf_append, entriesOf_flatMap, flatMap_unowned p hg hsum, List.append_nil]

theorem entries_owner (hg : ∀ slot, slot.owes p = 0 → entriesOf p (g slot) = [])
    {slots : List Slot} (hsum : (slots.map (Slot.owes p)).sum ≤ 1) {slot : Slot}
    (hs : slot ∈ slots) (ho : slot.owes p = 1) (log : List (Nat × β)) :
    entriesOf p (log ++ slots.flatMap g) = entriesOf p log ++ entriesOf p (g slot) := by
  rw [entriesOf_append, entriesOf_flatMap, flatMap_owner p hg hsum hs ho]

end

theorem exists_owner {slots : List Slot} {p : Nat} (h : (slots.map (Slot.owes p)).sum ≠ 0) :
    ∃ slot ∈ slots, slot.isBusy = true ∧ slot.promise = p := by
  obtain ⟨k, hk, hne⟩ : ∃ k ∈ slots.map (Slot.owes p), k ≠ 0 := by
    by_contra hall
    push Not at hall
    exact h (List.sum_eq_zero hall)
  obtain ⟨slot, hs, rfl⟩ := List.mem_map.mp hk
  refine ⟨slot, hs, ?_⟩
  by_contra hb
  exact hne (if_neg hb)

/-! ## The functions of a step -/

/-- A completion of a busy slot sets its promise and nothing else. -/
theorem completeSlot_answered (w : World) {slot : Slot} (h : slot.isBusy = true) (now : Int)
    (ec : ErrorCode) (msg fr : String) (p : Nat) :
    (completeSlot w slot now ec msg fr).1.answered p +
        (completeSlot w slot now ec msg fr).2.owes p = w.answered p + slot.owes p := by
  rw [owes_of_not_busy (completeSlot_not_busy w slot now ec msg fr), owes_of_busy h]
  unfold completeSlot
  dsimp only
  split
  · simp
  · simp

theorem buildSlot_answered (st : World × List BatchEntry) (slot : Slot) (p : Nat) :
    (buildSlot st slot).1.1.answered p + (buildSlot st slot).2.owes p =
      st.1.answered p + slot.owes p := by
  unfold buildSlot
  split
  · rfl
  · split
    · split
      · split
        · exact congrArg _ (owes_congr rfl rfl rfl p)
        · rfl
      · exact congrArg _ (owes_congr rfl rfl rfl p)
    · exact congrArg _ (owes_congr rfl rfl rfl p)

theorem sampleSlot_answered (cfg : Config) (w : World) {slot : Slot}
    (h : slot.isBusy = true) (tok : Token) (now : Int) (p : Nat) :
    (sampleSlot cfg w slot tok now).1.answered p + (sampleSlot cfg w slot tok now).2.owes p =
      w.answered p + slot.owes p := by
  have hsame : ∀ slot' : Slot, slot'.seqId = slot.seqId → slot'.warm = slot.warm →
      slot'.isBusy = true := by
    intro slot' h1 h2
    rw [Slot.isBusy_iff, h1, h2]
    exact Slot.isBusy_iff.mp h
  unfold sampleSlot
  dsimp only
  split
  · rw [completeSlot_answered w (hsame (takeSample slot tok) rfl rfl)]
    exact congrArg _ (owes_congr rfl rfl rfl p)
  · split
    · rw [completeSlot_answered _ (hsame (emitToken (takeSample slot tok) tok _) rfl rfl),
        answered_callOnToken]
      exact congrArg _ (owes_congr rfl rfl rfl p)
    · rw [answered_callOnToken]
      exact congrArg _ (owes_congr rfl rfl rfl p)

theorem sampleInChunk_answered (cfg : Config) (o : Oracle) (cs n : Nat) (w : World)
    (slot : Slot) (p : Nat) :
    (sampleInChunk cfg o cs n w slot).1.answered p +
        (sampleInChunk cfg o cs n w slot).2.owes p = w.answered p + slot.owes p := by
  unfold sampleInChunk
  split
  · rename_i h
    exact sampleSlot_answered cfg w h.1 _ _ p
  · rfl

theorem failSlot_answered (cs : Nat) (o : Oracle) (w : World) (slot : Slot) (p : Nat) :
    (failSlot cs o w slot).1.answered p + (failSlot cs o w slot).2.owes p =
      w.answered p + slot.owes p := by
  unfold failSlot
  split
  · rename_i h
    exact completeSlot_answered w h.1 _ _ _ _ p
  · rfl

theorem drainSlot_not_busy (o : Oracle) (w : World) (slot : Slot) :
    (drainSlot o w slot).2.isBusy = false := by
  unfold drainSlot
  split
  · exact completeSlot_not_busy _ _ _ _ _ _
  · rename_i hb
    split
    · simp [Slot.isBusy]
    · simpa using hb

theorem drainSlot_answered (o : Oracle) (w : World) (slot : Slot) (p : Nat) :
    (drainSlot o w slot).1.answered p + (drainSlot o w slot).2.owes p =
      w.answered p + slot.owes p := by
  unfold drainSlot
  split
  · rename_i h
    have hb : ({ slot with cachedSessionId := [] } : Slot).isBusy = true := h
    exact completeSlot_answered w hb _ _ _ _ p
  · rename_i hb
    split
    · rw [owes_of_not_busy (by simp [Slot.isBusy]), owes_of_not_busy (by simpa using hb)]
      rfl
    · rfl

theorem answered_drain (queue : List PendingRequest) (w : World) (p : Nat) :
    (queue.foldl (fun w entry => w.setValue entry.promise shuttingDown) w).answered p =
      w.answered p + queue.countP fun e => e.promise == p := by
  induction queue generalizing w with
  | nil => rfl
  | cons entry queue ih =>
    rw [List.foldl_cons, ih, answered_setValue, List.countP_cons]
    simp only [beq_iff_eq]
    omega

/-! ## One step -/

theorem step_ids {cfg : Config} {s t : State} {l : Label} (h : step cfg s l = some t) :
    t.slots.map Slot.id = s.slots.map Slot.id := by
  rcases step_slots h with hk | ⟨-, -, entry, rest, sel, -, -, -, -, ht⟩
  · exact forall₂_map_eq Slot.id (fun _ _ hab => hab.id) hk
  · rw [ht, updateSlot_ids]

/-- Writing a slot back changes a sum over the slots by that slot only. -/
theorem sum_updateSlot {slots : List Slot} (hnd : (slots.map Slot.id).Nodup)
    {old slot : Slot} (hm : old ∈ slots) (hid : slot.id = old.id) (ν : Slot → Nat) :
    ((updateSlot slots slot).map ν).sum + ν old = (slots.map ν).sum + ν slot := by
  induction slots with
  | nil => cases hm
  | cons s rest ih =>
    rw [List.map_cons, List.nodup_cons] at hnd
    have hcons : updateSlot (s :: rest) slot =
        (if s.id = slot.id then slot else s) :: updateSlot rest slot := rfl
    rw [hcons]
    simp only [List.map_cons, List.sum_cons]
    rcases List.mem_cons.mp hm with rfl | hm
    · -- no later slot has this id
      have hrest : updateSlot rest slot = rest := by
        refine (List.map_congr_left ?_).trans (List.map_id rest)
        intro u hu
        have hne : u.id ≠ slot.id := by
          intro he
          exact hnd.1 (List.mem_map.mpr ⟨u, hu, he.trans hid⟩)
        rw [if_neg hne]
        rfl
      rw [if_pos hid.symm, hrest]
      omega
    · have hne : s.id ≠ slot.id := by
        intro he
        exact hnd.1 (List.mem_map.mpr ⟨old, hm, (he.trans hid).symm⟩)
      rw [if_neg hne]
      have := ih hnd.2 hm
      omega

/-- Writing a slot back changes what is owed by that slot only. -/
theorem owed_updateSlot {slots : List Slot} (hnd : (slots.map Slot.id).Nodup)
    {old slot : Slot} (hm : old ∈ slots) (hid : slot.id = old.id) (p : Nat) :
    ((updateSlot slots slot).map (Slot.owes p)).sum + old.owes p =
      (slots.map (Slot.owes p)).sum + slot.owes p :=
  sum_updateSlot hnd hm hid (Slot.owes p)

theorem Selection.Sound.not_busy {slots : List Slot} {req : GenerateRequest}
    {sel : Selection} (h : sel.Sound slots req) : sel.slot.isBusy = false := by
  cases sel with
  | reuse slot n =>
    have hw := (Slot.isWarm_iff.mp h.2.1).2
    simp [Selection.slot, Slot.isBusy, hw]
  | free slot =>
    have hf := Slot.isFree_iff.mp h.2
    simp [Selection.slot, Slot.isBusy, hf]
  | evict slot =>
    have hw := (Slot.isWarm_iff.mp h.2.1).2
    simp [Selection.slot, Slot.isBusy, hw]

/-- The slot a request is admitted into owes its promise. -/
theorem admitInto_owes {cfg : Config} {w : World} {entry : PendingRequest}
    {slots : List Slot} {sel : Selection} (h : sel.Sound slots entry.req) (p : Nat) :
    (admitInto cfg w entry sel).2.owes p = if entry.promise = p then 1 else 0 := by
  have hwarm : (admitInto cfg w entry sel).2.warm = false := by cases sel <;> rfl
  have hprom : (admitInto cfg w entry sel).2.promise = entry.promise := by cases sel <;> rfl
  rw [owes_of_busy (Slot.isBusy_iff.mpr ⟨admitInto_seqId h, hwarm⟩), hprom]

theorem submit_accounted {cfg : Config} {s : State} (h : Accounted s)
    (req : GenerateRequest) : Accounted (submit cfg s req) := by
  intro p
  have hp := h p
  unfold submit
  dsimp only
  split
  · show (s.world.setValue s.submitted.length queueFull).answered p + s.queued p + s.owed p =
      if p < (s.submitted ++ [req]).length then 1 else 0
    rw [answered_setValue, List.length_append, List.length_singleton]
    split_ifs at hp ⊢ <;> omega
  · have hq : State.queued { s with
        submitted := s.submitted ++ [req]
        queue := s.queue ++ [⟨req, s.submitted.length⟩] } p =
        s.queued p + if s.submitted.length = p then 1 else 0 := by
      simp [State.queued, List.countP_append, List.countP_cons]
    show s.world.answered p + _ + s.owed p =
      if p < (s.submitted ++ [req]).length then 1 else 0
    rw [hq, List.length_append, List.length_singleton]
    split_ifs at hp ⊢ <;> omega

/-- A step that only moves promises between the slots and their answers keeps the account. -/
theorem Accounted.of_conserved {s t : State} (h : Accounted s) (hq : t.queue = s.queue)
    (hsub : t.submitted = s.submitted)
    (hmove : ∀ p, t.world.answered p + t.owed p = s.world.answered p + s.owed p) :
    Accounted t := by
  intro p
  have hqueued : t.queued p = s.queued p := by
    unfold State.queued
    rw [hq]
  have hp := h p
  have hm := hmove p
  rw [hqueued, hsub]
  omega

/-- Every step keeps each promise in exactly one place. -/
theorem accounted_step {cfg : Config} {s t : State} {l : Label}
    (hnd : (s.slots.map Slot.id).Nodup) (h : Accounted s) (hst : step cfg s l = some t) :
    Accounted t := by
  cases step_cases hst with
  | submit req hp => exact submit_accounted h req
  | reject o hp entry rest hq res hres =>
    intro p
    have hp := h p
    simp only [State.queued, hq, List.countP_cons, beq_iff_eq] at hp
    show (s.world.setValue entry.promise res).answered p +
      (rest.countP fun e => e.promise == p) + s.owed p = _
    rw [answered_setValue, ← hp]
    omega
  | accept o hp entry rest hq hne hlen sel hsel =>
    intro p
    have hsound := selectSlot_sound hsel
    have hp := h p
    simp only [State.queued, hq, List.countP_cons, beq_iff_eq] at hp
    have hslots := owed_updateSlot hnd hsound.mem (admitInto_id cfg s.world entry sel) p
    rw [owes_of_not_busy hsound.not_busy, admitInto_owes hsound] at hslots
    have hanswers : (admitInto cfg s.world entry sel).1.answered p = s.world.answered p := by
      simp only [World.answered, admitInto_answers]
    show (admitInto cfg s.world entry sel).1.answered p +
      (rest.countP fun e => e.promise == p) + _ = _
    rw [hanswers, ← hp]
    unfold State.owed
    dsimp only
    omega
  | build o hp hb =>
    refine h.of_conserved rfl rfl ?_
    intro p
    exact forEach_conserved (fun st : World × List BatchEntry => st.1.answered p)
      (Slot.owes p) (fun st slot (_ : slot ∈ s.slots) => buildSlot_answered st slot p)
      (s.world, [])
  | decodeFail o cs nb hp hcs hret hfail =>
    refine h.of_conserved rfl rfl ?_
    intro p
    exact forEach_conserved (fun w : World => w.answered p) (Slot.owes p)
      (fun w slot (_ : slot ∈ s.slots) => failSlot_answered cs o w slot p) s.world
  | decodeOk o cs nb hp hcs hret =>
    refine h.of_conserved rfl rfl ?_
    intro p
    -- a decode writes cells only, so the answers so far are those of `s`
    exact forEach_conserved (fun w : World => w.answered p) (Slot.owes p)
      (fun w slot (_ : slot ∈ s.slots) =>
        sampleInChunk_answered cfg o cs (s.chunkTokens cs nb) w slot p)
      (s.decoded cs (s.chunkTokens cs nb))
  | drainSlots o hp =>
    refine h.of_conserved rfl rfl ?_
    intro p
    exact forEach_conserved (fun w : World => w.answered p) (Slot.owes p)
      (fun w slot (_ : slot ∈ s.slots) => drainSlot_answered o w slot p) s.world
  | drainQueue o hp =>
    intro p
    have hp := h p
    show (s.queue.foldl (fun w entry => w.setValue entry.promise shuttingDown)
      s.world).answered p + 0 + s.owed p = _
    rw [answered_drain]
    exact hp
  | stop => exact h
  | enter o hp hr => exact h
  | leave o hp hr => exact h
  | admitDone o hp => exact h
  | idle o hp hb => exact h
  | decodeDone o cs nb hp hcs => exact h
  | decodeRetry o cs nb hp hcs hret hnb => exact h

/-! ## Runs -/

/-- No promise is set twice, none that is not set yet is lost, and all of them are set when
    the worker has exited. -/
structure DeliveredOnce (s : State) : Prop where
  once : ∀ p, s.world.answered p ≤ 1
  pending : ∀ p, p < s.submitted.length → s.world.answered p = 0 →
    s.queued p + s.owed p = 1
  exited : s.phase = .exited → ∀ p, p < s.submitted.length → s.world.answered p = 1

/-- No request is queued after the final drain. -/
def NoLateSubmit (cfg : Config) (s : State) : Label → Prop
  | .submit _ => s.phase = .exited → cfg.maxQueue ≤ s.queue.length
  | _ => True

structure DeliveryInv (s : State) : Prop where
  ids : (s.slots.map Slot.id).Nodup
  accounted : Accounted s
  slotsDrained : s.phase = .drainQueue ∨ s.phase = .exited →
    ∀ slot ∈ s.slots, slot.isBusy = false
  queueDrained : s.phase = .exited → s.queue = []

variable {cfg : Config} {s t : State}

theorem owed_of_idle (h : ∀ slot ∈ s.slots, slot.isBusy = false) (p : Nat) :
    s.owed p = 0 := by
  unfold State.owed
  refine List.sum_eq_zero ?_
  intro n hn
  obtain ⟨slot, hs, rfl⟩ := List.mem_map.mp hn
  exact owes_of_not_busy (h slot hs) p

theorem deliveryInv_init : DeliveryInv (init cfg) := by
  have hidle : ∀ slot ∈ (init cfg).slots, slot.isBusy = false := by
    intro slot hs
    obtain ⟨i, -, rfl⟩ := List.mem_map.mp hs
    rfl
  refine ⟨sessionInv_init.ids, ?_, fun _ => hidle, fun _ => rfl⟩
  intro p
  rw [owed_of_idle hidle]
  rfl

theorem DeliveryInv.deliveredOnce (h : DeliveryInv s) : DeliveredOnce s := by
  refine ⟨?_, ?_, ?_⟩
  · intro p
    have hp := h.accounted p
    split_ifs at hp <;> omega
  · intro p hlt hzero
    have hp := h.accounted p
    rw [if_pos hlt] at hp
    omega
  · intro hexit p hlt
    have hp := h.accounted p
    have howed := owed_of_idle (h.slotsDrained (Or.inr hexit)) p
    have hqueued : s.queued p = 0 := by
      unfold State.queued
      rw [h.queueDrained hexit]
      rfl
    rw [if_pos hlt] at hp
    omega

/-- The slots are drained before the queue, and both before the worker exits. -/
theorem drained_step {l : Label} (h : DeliveryInv s) (hok : NoLateSubmit cfg s l)
    (hst : step cfg s l = some t) :
    (t.phase = .drainQueue ∨ t.phase = .exited → ∀ slot ∈ t.slots, slot.isBusy = false) ∧
      (t.phase = .exited → t.queue = []) := by
  cases step_cases hst with
  | submit req hp =>
    unfold submit
    dsimp only
    split
    · exact ⟨h.slotsDrained, h.queueDrained⟩
    · rename_i hfull
      refine ⟨h.slotsDrained, ?_⟩
      intro hexit
      exact absurd (hok hexit) hfull
  | stop => exact ⟨h.slotsDrained, h.queueDrained⟩
  | drainSlots o hp =>
    refine ⟨?_, by simp⟩
    intro _ slot hs
    obtain ⟨old, -, hrel⟩ := forall₂_mem_right
      (forEach_forall₂ (R := fun _ slot' => slot'.isBusy = false)
        (fun w slot => drainSlot_not_busy o w slot) s.world s.slots) hs
    exact hrel
  | drainQueue o hp => exact ⟨fun _ => h.slotsDrained (Or.inl hp), fun _ => rfl⟩
  | enter o hp hr => exact ⟨by simp, by simp⟩
  | leave o hp hr => exact ⟨by simp, by simp⟩
  | admitDone o hp => exact ⟨by simp, by simp⟩
  | reject o hp entry rest hq res hres => exact ⟨by simp [hp], by simp [hp]⟩
  | accept o hp entry rest hq hne hlen sel hsel => exact ⟨by simp [hp], by simp [hp]⟩
  | idle o hp hb => exact ⟨by simp, by simp⟩
  | build o hp hb =>
    dsimp only
    split
    · exact ⟨by simp, by simp⟩
    · exact ⟨by simp, by simp⟩
  | decodeDone o cs nb hp hcs => exact ⟨by simp, by simp⟩
  | decodeFail o cs nb hp hcs hret hfail => exact ⟨by simp, by simp⟩
  | decodeRetry o cs nb hp hcs hret hnb => exact ⟨by simp, by simp⟩
  | decodeOk o cs nb hp hcs hret => exact ⟨by simp, by simp⟩

theorem deliveryInv_step {l : Label} (h : DeliveryInv s) (hok : NoLateSubmit cfg s l)
    (hst : step cfg s l = some t) : DeliveryInv t := by
  obtain ⟨hslots, hqueue⟩ := drained_step h hok hst
  refine ⟨?_, accounted_step h.ids h.accounted hst, hslots, hqueue⟩
  rw [step_ids hst]
  exact h.ids

/-- A request queued after the drain is not answered, and the worker has exited. -/
theorem not_delivered_of_late {l : Label} (h : DeliveryInv s) (hbad : ¬ NoLateSubmit cfg s l)
    (hst : step cfg s l = some t) : ¬ DeliveredOnce t := by
  cases l with
  | stop => exact absurd trivial hbad
  | work o => exact absurd trivial hbad
  | submit req =>
    simp only [NoLateSubmit, not_forall] at hbad
    obtain ⟨hexit, hroom⟩ := hbad
    have ht : t = { s with
        submitted := s.submitted ++ [req]
        queue := s.queue ++ [⟨req, s.submitted.length⟩] } := by
      simp only [step, State.queueLocked, hexit, submit, hroom, if_false,
        beq_eq_false_iff_ne.mpr (by simp : Phase.exited ≠ Phase.admission),
        Bool.false_eq_true, Option.some.injEq] at hst
      rw [hexit]
      exact hst.symm
    have hp := h.accounted s.submitted.length
    rw [if_neg (Nat.lt_irrefl _)] at hp
    intro hd
    have hone := hd.exited (by rw [ht]; exact hexit) s.submitted.length (by rw [ht]; simp)
    rw [ht] at hone
    dsimp only at hone
    omega

/-- Every promise is set exactly once, and all of them by the exit of the worker, in every
    state of a run exactly when the run queues no request after the final drain. -/
theorem delivered_once_iff (cfg : Config) (ls : List Label) :
    AllStates (step cfg) DeliveredOnce (init cfg) ls ↔
      AllSteps (step cfg) (NoLateSubmit cfg) (init cfg) ls := by
  refine allStates_iff_allSteps ?_ ?_ ?_ deliveryInv_init ls
  · exact fun s h => h.deliveredOnce
  · exact fun s l t h hok hst => deliveryInv_step h hok hst
  · exact fun s l t h hbad hst => not_delivered_of_late h hbad hst

/-- The destructor stops the worker, the worker drains and exits, a client submits. -/
def lateSubmitRun : List Label := .stop :: works 3 0 ++ [.submit { tokens := [1] }]

theorem submit_after_drain :
    ¬ AllStates (step (tinyConfig 8 1)) DeliveredOnce (init (tinyConfig 8 1))
      lateSubmitRun := by
  have hrun : (run (step (tinyConfig 8 1)) (init (tinyConfig 8 1)) lateSubmitRun).map
      (fun t => (t.phase, t.submitted.length, t.world.answered 0)) =
      some (.exited, 1, 0) := by decide +kernel
  obtain ⟨t, ht, hview⟩ := Option.map_eq_some_iff.mp hrun
  simp only [Prod.mk.injEq] at hview
  obtain ⟨hexit, hlen, hzero⟩ := hview
  intro h
  have hone := (h.last ht).exited hexit 0 (by omega)
  omega

end TruellmEngine.Scheduler
