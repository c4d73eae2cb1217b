/-
  The KV cells of every slot along a run.

  * `KvInv` is the invariant: each slot is in the state its phase allows, the promises in
    the queue belong to the queued requests, and every batch entry belongs to a slot.
  * `warm_coherent_iff`: the warm slots stay coherent along a run exactly when no request
    with a session ends on a token that is never decoded (a stop string, a stop token id
    or the limit instead of an end-of-generation token). Along such a run every token of
    every batch is decoded right behind its own request's earlier tokens, whether the
    slot was admitted by prefix reuse or cold.

  Nothing is assumed about the results of `llama_decode`: failures and retries at half
  the batch size are steps like any other.
-/
import TruellmEngine.Scheduler.KvMoves

namespace TruellmEngine.Scheduler

open Lib

/-! ## The invariant -/

/-- The states a slot can be in, by the worker's phase. -/
def SlotOk (s : State) (slot : Slot) : Prop :=
  match s.phase with
  | .loopHead => Settled s.submitted s.world.kv slot
  | .admission | .build | .drainSlots => Waiting s.submitted s.world.kv slot
  | .decode cs _ => InFlight s.submitted s.world.kv s.batch cs slot
  | .drainQueue | .exited => FreeSlot s.world.kv slot

structure KvInv (s : State) : Prop where
  ids : (s.slots.map Slot.id).Nodup
  slots : ∀ slot ∈ s.slots, SlotOk s slot
  queue : ∀ entry ∈ s.queue, s.submitted[entry.promise]? = some entry.req
  batch : ∀ e ∈ s.batch, ∃ i ∈ s.slots.map Slot.id, e.seqId = (i : Int)

variable {cfg : Config} {s t : State}

theorem KvInv.settled (h : KvInv s) (hp : s.phase = .loopHead) :
    ∀ slot ∈ s.slots, Settled s.submitted s.world.kv slot := by
  intro slot hs
  have hok := h.slots slot hs
  unfold SlotOk at hok
  rw [hp] at hok
  exact hok

theorem KvInv.waiting (h : KvInv s)
    (hp : s.phase = .admission ∨ s.phase = .build ∨ s.phase = .drainSlots) :
    ∀ slot ∈ s.slots, Waiting s.submitted s.world.kv slot := by
  intro slot hs
  have hok := h.slots slot hs
  unfold SlotOk at hok
  rcases hp with hp | hp | hp <;> rw [hp] at hok <;> exact hok

theorem KvInv.inFlight (h : KvInv s) {cs nb : Nat} (hp : s.phase = .decode cs nb) :
    ∀ slot ∈ s.slots, InFlight s.submitted s.world.kv s.batch cs slot := by
  intro slot hs
  have hok := h.slots slot hs
  unfold SlotOk at hok
  rw [hp] at hok
  exact hok

theorem SlotOk.grow {slot : Slot} (h : SlotOk s slot) (req : GenerateRequest) {w : World}
    (hw : w.kv = s.world.kv) (q : List PendingRequest) :
    SlotOk { s with submitted := s.submitted ++ [req], world := w, queue := q } slot := by
  unfold SlotOk at h ⊢
  simp only [hw]
  split at h
  · exact h.grow req
  · exact h.grow req
  · exact h.grow req
  · exact h.grow req
  · exact h.grow req
  · exact h
  · exact h

theorem kvInv_init : KvInv (init cfg) := by
  have hids : (init cfg).slots.map Slot.id = List.range cfg.maxSeqs := by
    simp [init, Function.comp_def]
  refine ⟨?_, ?_, by simp [init], by simp [init]⟩
  · rw [hids]
    exact List.nodup_range
  · intro slot hs
    obtain ⟨i, -, rfl⟩ := List.mem_map.mp hs
    exact Settled.free ⟨rfl, rfl, rfl, holds_nil_iff.mpr fun _ => rfl⟩

/-! ## The loops over the slots -/

theorem buildSlot_id (st : World × List BatchEntry) (slot : Slot) :
    (buildSlot st slot).2.id = slot.id := by
  unfold buildSlot
  split
  · rfl
  · split
    · split
      · split <;> rfl
      · rfl
    · rfl

theorem foldl_setValue_kv (queue : List PendingRequest) (w : World) :
    (queue.foldl (fun w entry => w.setValue entry.promise shuttingDown) w).kv = w.kv := by
  induction queue generalizing w with
  | nil => rfl
  | cons entry queue ih => rw [List.foldl_cons, ih]; rfl

/-- The batch builder puts every busy slot into the batch. -/
theorem build_slots (h : KvInv s) (hp : s.phase = .build) :
    (∀ e ∈ (forEach buildSlot (s.world, []) s.slots).1.2,
        ∃ i ∈ s.slots.map Slot.id, e.seqId = (i : Int)) ∧
      ∀ slot ∈ (forEach buildSlot (s.world, []) s.slots).2,
        InFlight s.submitted (forEach buildSlot (s.world, []) s.slots).1.1.kv
          (forEach buildSlot (s.world, []) s.slots).1.2 0 slot := by
  have key := forEach_owned (f := buildSlot) Slot.id
    (J := fun st => ∀ e ∈ st.2, ∃ i ∈ s.slots.map Slot.id, e.seqId = (i : Int))
    (P := fun st slot => Waiting s.submitted st.1.kv slot ∧ restOf st.2 0 slot.id = [] ∧
      slot.id ∈ s.slots.map Slot.id)
    (Q := fun st _ slot => InFlight s.submitted st.1.kv st.2 0 slot)
    buildSlot_id ?_ ?_ ?_ ?_ (s := (s.world, [])) (by simp) h.ids ?_
  · refine ⟨key.1, ?_⟩
    intro slot hs
    obtain ⟨-, -, hQ⟩ := forall₂_mem_right key.2 hs
    exact hQ
  · rintro ⟨w, b⟩ slot hJ ⟨hw, hfresh, hmem⟩ e he
    obtain ⟨-, ⟨es, hes, hown, -⟩, -⟩ := buildSlot_spec w b hw hfresh
    rw [hes] at he
    rcases List.mem_append.mp he with he | he
    · exact hJ e he
    · exact ⟨slot.id, hmem, hown e he⟩
  · rintro ⟨w, b⟩ slot - ⟨hw, hfresh, -⟩
    exact (buildSlot_spec w b hw hfresh).1
  · rintro ⟨w, b⟩ slot other hne ⟨hw, hfresh, -⟩ ⟨hw', hfresh', hmem⟩
    obtain ⟨-, ⟨es, hes, hown, -⟩, hkv⟩ := buildSlot_spec w b hw hfresh
    refine ⟨hw'.frame (hkv other.id hne), ?_, hmem⟩
    rw [hes, restOf_append, hfresh', restOf_other, List.append_nil]
    intro e he
    rw [hown e he]
    exact_mod_cast hne.symm
  · rintro ⟨w, b⟩ slot old other hne ⟨hw, hfresh, -⟩ hQ
    obtain ⟨-, ⟨es, hes, hown, -⟩, hkv⟩ := buildSlot_spec w b hw hfresh
    have hother : ∀ e ∈ es, e.seqId ≠ other.id := by
      intro e he
      rw [hown e he]
      exact_mod_cast hne.symm
    have hQ' := hQ.frame (hkv other.id hne)
    show InFlight s.submitted _ (buildSlot (w, b) slot).1.2 0 other
    rw [hes]
    exact hQ'.append hother
  · intro slot hs
    exact ⟨h.waiting (Or.inr (Or.inl hp)) slot hs, rfl, List.mem_map_of_mem hs⟩

/-- A successful chunk leaves every slot in flight, except those that overrun. -/
theorem decode_slots (cfg : Config) (h : KvInv s) {cs nb : Nat} (hp : s.phase = .decode cs nb)
    (o : Oracle) (n : Nat) :
    List.Forall₂ (fun slot slot' =>
        (SlotOverruns cfg o cs n slot →
          OverrunSlot (forEach (sampleInChunk cfg o cs n) (s.decoded cs n) s.slots).1.kv
            slot') ∧
        (¬ SlotOverruns cfg o cs n slot →
          InFlight s.submitted
            (forEach (sampleInChunk cfg o cs n) (s.decoded cs n) s.slots).1.kv s.batch
            (cs + n) slot'))
      s.slots (forEach (sampleInChunk cfg o cs n) (s.decoded cs n) s.slots).2 := by
  refine (forEach_owned (f := sampleInChunk cfg o cs n) Slot.id (J := fun _ => True)
    (P := fun w slot => Landing s.submitted w.kv s.batch cs (cs + n) slot)
    (Q := fun w slot slot' =>
      (SlotOverruns cfg o cs n slot → OverrunSlot w.kv slot') ∧
      (¬ SlotOverruns cfg o cs n slot →
        InFlight s.submitted w.kv s.batch (cs + n) slot'))
    (fun w slot => sampleInChunk_id o n w slot) (fun _ _ _ _ => trivial) ?_ ?_ ?_
    trivial h.ids ?_).2
  · exact fun w slot _ hl => sampleInChunk_spec o n w hl
  · exact fun w slot other hne hl hl' => hl'.frame (sampleInChunk_other cfg o n w hl hne)
  · intro w slot old other hne hl hQ
    have hkv := sampleInChunk_other cfg o n w hl hne
    exact ⟨fun ho => (hQ.1 ho).frame hkv, fun ho => (hQ.2 ho).frame hkv⟩
  · exact fun slot hs => (h.inFlight hp slot hs).decode n

theorem fail_slots (h : KvInv s) {cs nb : Nat} (hp : s.phase = .decode cs nb) (o : Oracle) :
    ∀ slot ∈ (forEach (failSlot cs o) s.world s.slots).2,
      Settled s.submitted (forEach (failSlot cs o) s.world s.slots).1.kv slot := by
  have key := (forEach_owned (f := failSlot cs o) Slot.id (J := fun _ => True)
    (P := fun w slot => InFlight s.submitted w.kv s.batch cs slot)
    (Q := fun w _ slot => Settled s.submitted w.kv slot)
    (fun w slot => failSlot_id o w slot) (fun _ _ _ _ => trivial)
    (fun w slot _ hf => (failSlot_spec o w hf).1)
    (fun w slot other hne hf hf' => hf'.frame ((failSlot_spec o w hf).2 other.id hne))
    (fun w slot _ other hne hf hQ => hQ.frame ((failSlot_spec o w hf).2 other.id hne))
    trivial h.ids (h.inFlight hp)).2
  intro slot hs
  obtain ⟨-, -, hQ⟩ := forall₂_mem_right key hs
  exact hQ

theorem drain_slots (h : KvInv s) (hp : s.phase = .drainSlots) (o : Oracle) :
    ∀ slot ∈ (forEach (drainSlot o) s.world s.slots).2,
      FreeSlot (forEach (drainSlot o) s.world s.slots).1.kv slot := by
  have key := (forEach_owned (f := drainSlot o) Slot.id (J := fun _ => True)
    (P := fun w slot => Waiting s.submitted w.kv slot)
    (Q := fun w _ slot => FreeSlot w.kv slot)
    (fun w slot => drainSlot_id o w slot) (fun _ _ _ _ => trivial)
    (fun w slot _ hw => (drainSlot_spec o w hw).1)
    (fun w slot other hne hw hw' => hw'.frame ((drainSlot_spec o w hw).2 other.id hne))
    (fun w slot _ other hne hw hQ => hQ.frame ((drainSlot_spec o w hw).2 other.id hne))
    trivial h.ids (h.waiting (Or.inr (Or.inr hp)))).2
  intro slot hs
  obtain ⟨-, -, hQ⟩ := forall₂_mem_right key hs
  exact hQ

/-! ## One step -/

/-- No slot with a session ends its request on a token that is never decoded. -/
def SessionsEndByEog (cfg : Config) (s : State) : Label → Prop
  | .work o => ∀ cs nb, s.phase = .decode cs nb → cs < s.batch.length → o.ret = 0 →
      ∀ slot ∈ s.slots, ¬ SlotOverruns cfg o cs (s.chunkTokens cs nb) slot
  | _ => True

/-- A batch that is used up holds no entry of a queued slot. -/
theorem InFlight.settled_of_length {sub : List GenerateRequest} {kv : KvCache}
    {batch : List BatchEntry} {cs : Nat} {slot : Slot} (h : InFlight sub kv batch cs slot)
    (hlen : batch.length ≤ cs) : Settled sub kv slot := by
  cases h with
  | settled h _ => exact h
  | queued h =>
    obtain ⟨i, -, hcs, ⟨e, he, -⟩, -⟩ := h.index
    have := (List.getElem?_eq_some_iff.mp he).1
    omega

theorem kvInv_submit (h : KvInv s) (req : GenerateRequest) : KvInv (submit cfg s req) := by
  have hnew : (s.submitted ++ [req])[s.submitted.length]? = some req := by simp
  have hold : ∀ entry ∈ s.queue,
      (s.submitted ++ [req])[entry.promise]? = some entry.req := by
    intro entry he
    have hq := h.queue entry he
    rw [List.getElem?_append_left (List.getElem?_eq_some_iff.mp hq).1]
    exact hq
  unfold submit
  dsimp only
  split
  · exact ⟨h.ids, fun slot hs => (h.slots slot hs).grow req rfl s.queue, hold, h.batch⟩
  · refine ⟨h.ids, fun slot hs => (h.slots slot hs).grow req rfl _, ?_, h.batch⟩
    intro entry he
    rcases List.mem_append.mp he with he | he
    · exact hold entry he
    · rw [List.mem_singleton.mp he]
      exact hnew

/-- A step that keeps the slot ids and the batch has only its slots to answer for. -/
theorem KvInv.of_slots (h : KvInv s) (hids : t.slots.map Slot.id = s.slots.map Slot.id)
    (hbatch : t.batch = s.batch)
    (hqueue : ∀ entry ∈ t.queue, t.submitted[entry.promise]? = some entry.req)
    (hslots : ∀ slot ∈ t.slots, SlotOk t slot) : KvInv t := by
  refine ⟨?_, hslots, hqueue, ?_⟩
  · rw [hids]
    exact h.ids
  · rw [hids, hbatch]
    exact h.batch

/-- An admission writes the selected slot and leaves the others waiting. -/
theorem kvInv_accept (h : KvInv s) (hp : s.phase = .admission) {entry : PendingRequest}
    {rest : List PendingRequest} (hq : s.queue = entry :: rest)
    (hne : entry.req.tokens ≠ []) {sel : Selection}
    (hsel : selectSlot s.slots entry.req = some sel) :
    KvInv { s with
      queue := rest
      world := (admitInto cfg s.world entry sel).1
      slots := updateSlot s.slots (admitInto cfg s.world entry sel).2 } := by
  have hwait := h.waiting (Or.inl hp)
  have hsound := selectSlot_sound hsel
  obtain ⟨hnew, hother⟩ := admitInto_spec cfg s.world s.slots entry sel hwait hsound
    (h.queue entry (hq ▸ List.mem_cons_self)) hne
  have hid := admitInto_id cfg s.world entry sel
  refine h.of_slots (updateSlot_ids _ _) rfl ?_ ?_
  · intro e he
    exact h.queue e (hq ▸ List.mem_cons_of_mem entry he)
  · intro slot hs
    unfold SlotOk
    simp only [hp]
    rcases mem_updateSlot hs with rfl | ⟨hm, hne'⟩
    · exact .admitted hnew
    · exact (hwait slot hm).frame (hother slot.id (hid ▸ hne'))

/-- Every step that ends no session on an undecoded token keeps the invariant. -/
theorem kvInv_step {l : Label} (h : KvInv s) (hok : SessionsEndByEog cfg s l)
    (hst : step cfg s l = some t) : KvInv t := by
  cases step_cases hst with
  | submit req hp => exact kvInv_submit h req
  | stop => exact ⟨h.ids, h.slots, h.queue, h.batch⟩
  | enter o hp hr =>
    exact h.of_slots rfl rfl h.queue fun slot hs => .settled (h.settled hp slot hs)
  | leave o hp hr =>
    exact h.of_slots rfl rfl h.queue fun slot hs => .settled (h.settled hp slot hs)
  | admitDone o hp => exact h.of_slots rfl rfl h.queue (h.waiting (Or.inl hp))
  | reject o hp entry rest hq res hres =>
    refine h.of_slots rfl rfl ?_ ?_
    · intro e he
      exact h.queue e (hq ▸ List.mem_cons_of_mem entry he)
    · intro slot hs
      have hw := h.waiting (Or.inl hp) slot hs
      unfold SlotOk
      simp only [hp]
      exact hw
  | accept o hp entry rest hq hne hlen sel hsel => exact kvInv_accept h hp hq hne hsel
  | idle o hp hb =>
    refine h.of_slots rfl rfl h.queue ?_
    intro slot hs
    exact (h.waiting (Or.inr (Or.inl hp)) slot hs).settled_of_idle (hb slot hs)
  | build o hp hb =>
    obtain ⟨hbatch, hslots⟩ := build_slots h hp
    have hids : (forEach buildSlot (s.world, []) s.slots).2.map Slot.id =
        s.slots.map Slot.id := forEach_map Slot.id buildSlot_id _ _
    refine ⟨?_, ?_, h.queue, ?_⟩
    · show ((forEach buildSlot (s.world, []) s.slots).2.map Slot.id).Nodup
      rw [hids]
      exact h.ids
    · intro slot hs
      have hf := hslots slot hs
      unfold SlotOk
      by_cases hnil : (forEach buildSlot (s.world, []) s.slots).1.2 = []
      · simp only [hnil, if_true]
        exact hf.settled_of_length (by rw [hnil]; exact Nat.le_refl 0)
      · simp only [hnil, if_false]
        exact hf
    · show ∀ e ∈ (forEach buildSlot (s.world, []) s.slots).1.2,
        ∃ i ∈ (forEach buildSlot (s.world, []) s.slots).2.map Slot.id, e.seqId = (i : Int)
      rw [hids]
      exact hbatch
  | decodeDone o cs nb hp hcs =>
    refine h.of_slots rfl rfl h.queue ?_
    intro slot hs
    exact (h.inFlight hp slot hs).settled_of_length hcs
  | decodeFail o cs nb hp hcs hret hfail =>
    exact h.of_slots (forEach_map Slot.id (failSlot_id o) _ _) rfl h.queue (fail_slots h hp o)
  | decodeRetry o cs nb hp hcs hret hnb => exact h.of_slots rfl rfl h.queue (h.inFlight hp)
  | decodeOk o cs nb hp hcs hret =>
    refine h.of_slots (forEach_map Slot.id (sampleInChunk_id o _) _ _) rfl h.queue ?_
    intro slot hs
    obtain ⟨old, hm, -, hf⟩ :=
      forall₂_mem_right (decode_slots cfg h hp o (s.chunkTokens cs nb)) hs
    exact hf (hok cs nb hp hcs hret old hm)
  | drainSlots o hp =>
    exact h.of_slots (forEach_map Slot.id (drainSlot_id o) _ _) rfl h.queue (drain_slots h hp o)
  | drainQueue o hp =>
    have hkv : (drainQueue s).world.kv = s.world.kv :=
      foldl_setValue_kv s.queue s.world
    refine h.of_slots rfl rfl (by simp [drainQueue]) ?_
    intro slot hs
    have hok := h.slots slot hs
    unfold SlotOk at hok
    rw [hp] at hok
    exact hok.frame (by rw [hkv])

/-! ## What the invariant says about a state -/

/-- A slot that is not busy but remembers a session holds exactly its cached tokens. -/
def WarmCoherent (s : State) : Prop :=
  ∀ slot ∈ s.slots, slot.isBusy = false → slot.cachedSessionId ≠ [] →
    Holds (s.world.kv slot.seqId) slot.cachedTokens

/-- Every token of the next chunk is decoded right behind the cells of its own sequence,
    and these cells are the tokens before it of its own request: the prompt followed by
    what was generated, as after a prefill of the whole prompt. -/
def DecodesOwnPrefix (s : State) : Prop :=
  ∀ cs nb, s.phase = .decode cs nb → ∀ es₁ e es₂,
    chunkView s.batch cs (s.chunkTokens cs nb) = es₁ ++ e :: es₂ →
    ∃ slot ∈ s.slots, slot.isBusy = true ∧ e.seqId = (slot.id : Int) ∧
      ∃ req, s.submitted[slot.promise]? = some req ∧
        Holds (llamaDecode s.world.kv es₁ e.seqId)
          ((req.tokens ++ slot.genTokenIds).take e.pos) ∧
        (req.tokens ++ slot.genTokenIds)[e.pos]? = some e.token

theorem SlotOk.warmSlot {slot : Slot} (h : SlotOk s slot) (hb : slot.isBusy = false)
    (hsid : slot.cachedSessionId ≠ []) : WarmSlot s.world.kv slot := by
  have settled : Settled s.submitted s.world.kv slot → WarmSlot s.world.kv slot := by
    intro hs
    cases hs with
    | free h => exact absurd h.session hsid
    | warm h => exact h
    | decoding h => simp [h.toBusySlot.isBusy] at hb
  have waiting : Waiting s.submitted s.world.kv slot → WarmSlot s.world.kv slot :=
    fun hw => settled (hw.settled_of_idle hb)
  unfold SlotOk at h
  split at h
  · exact settled h
  · exact waiting h
  · exact waiting h
  · exact waiting h
  · cases h with
    | settled h _ => exact settled h
    | queued h => simp [h.toBusySlot.isBusy] at hb
  · exact absurd h.session hsid
  · exact absurd h.session hsid

theorem KvInv.warmCoherent (h : KvInv s) : WarmCoherent s := by
  intro slot hs hb hsid
  have hw := (h.slots slot hs).warmSlot hb hsid
  rw [hw.seq]
  exact hw.cells

/-- The slot of a batch entry that is still to be decoded is queued. -/
theorem InFlight.queued_of_mem {sub : List GenerateRequest} {kv : KvCache}
    {batch : List BatchEntry} {cs : Nat} {slot : Slot} {e : BatchEntry}
    (h : InFlight sub kv batch cs slot) (he : e ∈ batch.drop cs) (hid : e.seqId = slot.id) :
    QueuedSlot sub kv batch cs slot := by
  cases h with
  | queued h => exact h
  | settled h hrest =>
    have hmem : e.toCell ∈ ((batch.drop cs).map BatchEntry.toCell).filter
        fun c => c.1 = (slot.id : Int) :=
      List.mem_filter.mpr ⟨List.mem_map_of_mem he, decide_eq_true hid⟩
    unfold restOf ofKey at hrest
    rw [List.map_eq_nil_iff] at hrest
    rw [hrest] at hmem
    cases hmem

theorem KvInv.decodesOwnPrefix (h : KvInv s) : DecodesOwnPrefix s := by
  intro cs nb hp es₁ e es₂ hc
  have hview : e ∈ chunkView s.batch cs (s.chunkTokens cs nb) := by
    rw [hc]
    exact List.mem_append_right es₁ List.mem_cons_self
  have hdrop : e ∈ s.batch.drop cs := List.mem_of_mem_take hview
  obtain ⟨i, hi, hseq⟩ := h.batch e (List.mem_of_mem_drop hdrop)
  obtain ⟨slot, hs, rfl⟩ := List.mem_map.mp hi
  have hq := (h.inFlight hp slot hs).queued_of_mem hdrop hseq
  obtain ⟨req, hreq, hct⟩ := hq.own
  have horder := hq.inOrder hseq hc
  rw [hct] at horder
  refine ⟨slot, hs, hq.toBusySlot.isBusy, hseq, req, hreq, ?_, horder.2⟩
  rw [hseq]
  exact horder.1

/-- A step in which a session's request ends on an undecoded token leaves a warm slot with
    a cached token and no cell for it. -/
theorem not_warmCoherent_of_overrun {l : Label} (h : KvInv s)
    (hbad : ¬ SessionsEndByEog cfg s l) (hst : step cfg s l = some t) : ¬ WarmCoherent t := by
  cases l with
  | submit req => exact absurd trivial hbad
  | stop => exact absurd trivial hbad
  | work o =>
    simp only [SessionsEndByEog, not_forall, not_not] at hbad
    obtain ⟨cs, nb, hp, hcs, hret, slot, hs, hover⟩ := hbad
    obtain ⟨slot', hs', hspec, -⟩ :=
      forall₂_mem_left (decode_slots cfg h hp o (s.chunkTokens cs nb)) hs
    have hov := hspec hover
    have ht : t = { s with
        world := (forEach (sampleInChunk cfg o cs (s.chunkTokens cs nb))
          (s.decoded cs (s.chunkTokens cs nb)) s.slots).1
        slots := (forEach (sampleInChunk cfg o cs (s.chunkTokens cs nb))
          (s.decoded cs (s.chunkTokens cs nb)) s.slots).2
        phase := .decode (cs + s.chunkTokens cs nb) cfg.nBatch } := by
      have hn : ¬ s.batch.length ≤ cs := by omega
      simp only [step, workerStep, hp, decodeChunk, hn, if_false, hret, ne_eq,
        not_true_eq_false, Option.some.injEq] at hst
      exact hst.symm
    intro hw
    refine hov.not_holds ?_
    have hholds := hw slot' (by rw [ht]; exact hs') ?_ hov.session
    · rw [ht, hov.seq] at hholds
      exact hholds
    · simp [Slot.isBusy, hov.warm]

/-- The warm slots are coherent, and every token is decoded behind its own request's
    tokens, in every state of a run exactly when no step of it ends a session's request on
    an undecoded token. -/
theorem warm_coherent_iff (cfg : Config) (ls : List Label) :
    AllStates (step cfg) (fun s => WarmCoherent s ∧ DecodesOwnPrefix s) (init cfg) ls ↔
      AllSteps (step cfg) (SessionsEndByEog cfg) (init cfg) ls := by
  refine allStates_iff_allSteps ?_ ?_ ?_ kvInv_init ls
  · exact fun s h => ⟨h.warmCoherent, h.decodesOwnPrefix⟩
  · exact fun s l t h hok hst => kvInv_step h hok hst
  · exact fun s l t h hbad hst hP => not_warmCoherent_of_overrun h hbad hst hP.1

/-- One request with a session, a one-token prompt and `max_tokens = 1`. -/
def lengthRun : List Label :=
  .submit { tokens := [1], maxTokens := 1, sessionId := [115] } :: works 5 7

/-- The request ends by its limit on token 7: its slot is kept warm with two cached tokens
    and one cell. -/
theorem warm_overrun :
    ¬ AllStates (step (tinyConfig 8 1)) WarmCoherent (init (tinyConfig 8 1)) lengthRun := by
  have hrun : (run (step (tinyConfig 8 1)) (init (tinyConfig 8 1)) lengthRun).map (fun t =>
        t.slots.map fun slot => (slot.isBusy, slot.cachedSessionId, slot.cachedTokens,
          t.world.kv slot.seqId 1)) =
      some [(false, [115], [1, 7], none)] := by decide +kernel
  obtain ⟨t, ht, hslots⟩ := Option.map_eq_some_iff.mp hrun
  obtain ⟨slot, hslot, hview⟩ := List.map_eq_singleton_iff.mp hslots
  simp only [Prod.mk.injEq] at hview
  obtain ⟨hbusy, hsid, hct, hcell⟩ := hview
  intro h
  have hw := h.last ht slot (by simp [hslot]) hbusy (by simp [hsid]) 1
  rw [hcell, hct] at hw
  simp at hw

end TruellmEngine.Scheduler
