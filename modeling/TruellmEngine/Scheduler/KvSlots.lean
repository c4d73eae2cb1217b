/-
  What a slot's KV cells hold, in each state of the slot's life, and how the functions of
  the scheduler move a slot from one of these states to the next.

  * `FreeSlot`: no cells.
  * `WarmSlot`: exactly the cached tokens.
  * `AdmittedSlot`: the first `n_past` tokens of the prompt, the rest is pending.
  * `DecodingSlot`: prompt and generated tokens without the last sampled one.
  * `QueuedSlot`: a prefix of these tokens, the batch holds the rest.
  * `LandedSlot`: all of them, the slot is about to be sampled.

  Each of them speaks about the cells of one sequence only, so a step on another slot
  keeps it (`frame`).
-/
import TruellmEngine.Scheduler.Steps

namespace TruellmEngine.Scheduler

open Lib

/-! ## The states of a slot -/

/-- The batch entries of sequence `id` from index `cs` on. -/
def restOf (batch : List BatchEntry) (cs id : Nat) : List (Token × Nat) :=
  ofKey (id : Int) ((batch.drop cs).map BatchEntry.toCell)

/-- The token history of a busy slot is its request's prompt and what it generated. -/
def OwnTokens (sub : List GenerateRequest) (slot : Slot) : Prop :=
  ∃ req, sub[slot.promise]? = some req ∧ slot.cachedTokens = req.tokens ++ slot.genTokenIds

structure FreeSlot (kv : KvCache) (slot : Slot) : Prop where
  seq : slot.seqId = -1
  cold : slot.warm = false
  session : slot.cachedSessionId = []
  cells : Holds (kv slot.id) []

structure WarmSlot (kv : KvCache) (slot : Slot) : Prop where
  seq : slot.seqId = slot.id
  warm : slot.warm = true
  session : slot.cachedSessionId ≠ []
  cells : Holds (kv slot.id) slot.cachedTokens

structure BusySlot (sub : List GenerateRequest) (slot : Slot) : Prop where
  seq : slot.seqId = slot.id
  cold : slot.warm = false
  own : OwnTokens sub slot

structure AdmittedSlot (sub : List GenerateRequest) (kv : KvCache) (slot : Slot) : Prop
    extends BusySlot sub slot where
  prefilled : slot.prefilled = false
  prompt : slot.cachedTokens ≠ []
  past : slot.nPast ≤ slot.cachedTokens.length
  fresh : slot.cachedSessionId = [] → slot.nPast = 0
  pending : slot.pendingPrompt = slot.cachedTokens.drop slot.nPast
  cells : Holds (kv slot.id) (slot.cachedTokens.take slot.nPast)

structure DecodingSlot (sub : List GenerateRequest) (kv : KvCache) (slot : Slot) : Prop
    extends BusySlot sub slot where
  prefilled : slot.prefilled = true
  emitted : slot.genTokenIds ≠ []
  unsent : slot.iBatch = -1
  past : slot.cachedTokens = slot.cachedTokens.take slot.nPast ++ [slot.sampled]
  cells : Holds (kv slot.id) (slot.cachedTokens.take slot.nPast)

structure QueuedSlot (sub : List GenerateRequest) (kv : KvCache) (batch : List BatchEntry)
    (cs : Nat) (slot : Slot) : Prop extends BusySlot sub slot where
  past : slot.nPast = slot.cachedTokens.length
  index : ∃ i : Nat, slot.iBatch = i ∧ cs ≤ i ∧ (∃ e, batch[i]? = some e ∧ e.seqId = slot.id) ∧
    restOf batch (i + 1) slot.id = []
  cells : ∃ k, k ≤ slot.cachedTokens.length ∧ Holds (kv slot.id) (slot.cachedTokens.take k) ∧
    restOf batch cs slot.id = (slot.cachedTokens.drop k).zipIdx k

structure LandedSlot (sub : List GenerateRequest) (kv : KvCache) (cs n : Nat)
    (slot : Slot) : Prop extends BusySlot sub slot where
  past : slot.nPast = slot.cachedTokens.length
  index : (cs : Int) ≤ slot.iBatch ∧ slot.iBatch < (n : Int)
  cells : Holds (kv slot.id) slot.cachedTokens

/-- Between two batches, after the admissions' effect is gone. -/
inductive Settled (sub : List GenerateRequest) (kv : KvCache) (slot : Slot) : Prop where
  | free (h : FreeSlot kv slot)
  | warm (h : WarmSlot kv slot)
  | decoding (h : DecodingSlot sub kv slot)

/-- Between two batches, with requests admitted for the next one. -/
inductive Waiting (sub : List GenerateRequest) (kv : KvCache) (slot : Slot) : Prop where
  | settled (h : Settled sub kv slot)
  | admitted (h : AdmittedSlot sub kv slot)

/-- While the batch is decoded from index `cs` on. -/
inductive InFlight (sub : List GenerateRequest) (kv : KvCache) (batch : List BatchEntry)
    (cs : Nat) (slot : Slot) : Prop where
  | settled (h : Settled sub kv slot) (hrest : restOf batch cs slot.id = [])
  | queued (h : QueuedSlot sub kv batch cs slot)

/-! ## Frames -/

variable {sub : List GenerateRequest} {kv kv' : KvCache} {slot : Slot}

theorem FreeSlot.frame (h : FreeSlot kv slot) (hkv : kv' slot.id = kv slot.id) :
    FreeSlot kv' slot :=
  { h with cells := hkv ▸ h.cells }

theorem WarmSlot.frame (h : WarmSlot kv slot) (hkv : kv' slot.id = kv slot.id) :
    WarmSlot kv' slot :=
  { h with cells := hkv ▸ h.cells }

theorem DecodingSlot.frame (h : DecodingSlot sub kv slot) (hkv : kv' slot.id = kv slot.id) :
    DecodingSlot sub kv' slot :=
  { h with cells := hkv ▸ h.cells }

theorem AdmittedSlot.frame (h : AdmittedSlot sub kv slot) (hkv : kv' slot.id = kv slot.id) :
    AdmittedSlot sub kv' slot :=
  { h with cells := hkv ▸ h.cells }

theorem QueuedSlot.frame {batch : List BatchEntry} {cs : Nat}
    (h : QueuedSlot sub kv batch cs slot) (hkv : kv' slot.id = kv slot.id) :
    QueuedSlot sub kv' batch cs slot :=
  { h with cells := hkv ▸ h.cells }

theorem LandedSlot.frame {cs n : Nat} (h : LandedSlot sub kv cs n slot)
    (hkv : kv' slot.id = kv slot.id) : LandedSlot sub kv' cs n slot :=
  { h with cells := hkv ▸ h.cells }

theorem Settled.frame (h : Settled sub kv slot) (hkv : kv' slot.id = kv slot.id) :
    Settled sub kv' slot := by
  cases h with
  | free h => exact .free (h.frame hkv)
  | warm h => exact .warm (h.frame hkv)
  | decoding h => exact .decoding (h.frame hkv)

theorem Waiting.frame (h : Waiting sub kv slot) (hkv : kv' slot.id = kv slot.id) :
    Waiting sub kv' slot := by
  cases h with
  | settled h => exact .settled (h.frame hkv)
  | admitted h => exact .admitted (h.frame hkv)

theorem InFlight.frame {batch : List BatchEntry} {cs : Nat}
    (h : InFlight sub kv batch cs slot) (hkv : kv' slot.id = kv slot.id) :
    InFlight sub kv' batch cs slot := by
  cases h with
  | settled h hrest => exact .settled (h.frame hkv) hrest
  | queued h => exact .queued (h.frame hkv)

/-! Later submissions do not change the requests already made. -/

theorem OwnTokens.grow (h : OwnTokens sub slot) (req : GenerateRequest) :
    OwnTokens (sub ++ [req]) slot := by
  obtain ⟨r, hr, hc⟩ := h
  refine ⟨r, ?_, hc⟩
  rw [List.getElem?_append_left (List.getElem?_eq_some_iff.mp hr).1]
  exact hr

theorem Settled.grow (h : Settled sub kv slot) (req : GenerateRequest) :
    Settled (sub ++ [req]) kv slot := by
  cases h with
  | free h => exact .free h
  | warm h => exact .warm h
  | decoding h => exact .decoding { h with own := h.own.grow req }

theorem Waiting.grow (h : Waiting sub kv slot) (req : GenerateRequest) :
    Waiting (sub ++ [req]) kv slot := by
  cases h with
  | settled h => exact .settled (h.grow req)
  | admitted h => exact .admitted { h with own := h.own.grow req }

theorem InFlight.grow {batch : List BatchEntry} {cs : Nat}
    (h : InFlight sub kv batch cs slot) (req : GenerateRequest) :
    InFlight (sub ++ [req]) kv batch cs slot := by
  cases h with
  | settled h hrest => exact .settled (h.grow req) hrest
  | queued h => exact .queued { h with own := h.own.grow req }

theorem FreeSlot.not_busy (h : FreeSlot kv slot) : slot.isBusy = false := by
  simp [Slot.isBusy, h.seq]

theorem WarmSlot.not_busy (h : WarmSlot kv slot) : slot.isBusy = false := by
  simp [Slot.isBusy, h.warm]

theorem WarmSlot.isWarm (h : WarmSlot kv slot) : slot.isWarm = true := by
  have hseq := h.seq
  exact Slot.isWarm_iff.mpr ⟨by omega, h.warm⟩

theorem BusySlot.isBusy (h : BusySlot sub slot) : slot.isBusy = true := by
  have hseq := h.seq
  exact Slot.isBusy_iff.mpr ⟨by omega, h.cold⟩

/-! ## Completion -/

/-- A completion touches the cells of its own sequence only. -/
theorem completeSlot_other (w : World) (slot : Slot) (now : Int) (ec : ErrorCode)
    (msg fr : String) (hseq : slot.seqId = slot.id) {j : Nat} (hj : j ≠ slot.id) :
    (completeSlot w slot now ec msg fr).1.kv j = w.kv j := by
  simp only [completeSlot]
  split
  · rfl
  · simp only [World.seqRm, World.setValue, hseq]
    exact llamaMemorySeqRm_other hj w.kv _ _

theorem completeSlot_freeSlot (w : World) (slot : Slot) (now : Int) (ec : ErrorCode)
    (msg fr : String) (hseq : slot.seqId = slot.id) (h : ¬ (ec = .ok ∧ slot.cachedSessionId ≠ [])) :
    FreeSlot (completeSlot w slot now ec msg fr).1.kv
      (completeSlot w slot now ec msg fr).2 := by
  rw [completeSlot_free w slot now ec msg fr h]
  refine ⟨rfl, rfl, rfl, ?_⟩
  simp only [World.seqRm, World.setValue, hseq]
  exact llamaMemorySeqRm_all w.kv slot.id

/-! ## Building the batch -/

theorem addPrompt_eq (b : List BatchEntry) (seqId : Int) (np : Nat) (toks : List Token)
    (pos i : Nat) : ∃ es, addPrompt b seqId np toks pos i = b ++ es ∧
      es.length = toks.length ∧
      es.map BatchEntry.toCell = (toks.zipIdx pos).map fun v => (seqId, v) := by
  induction toks generalizing b pos i with
  | nil => exact ⟨[], by simp [addPrompt], rfl, rfl⟩
  | cons tok toks ih =>
    obtain ⟨es, he, hlen, hc⟩ := ih (batchAdd b tok pos seqId (i + 1 == np)) (pos + 1) (i + 1)
    refine ⟨⟨tok, pos, seqId, i + 1 == np⟩ :: es, ?_, by simp [hlen], ?_⟩
    · rw [addPrompt, he]
      simp [batchAdd]
    · rw [List.map_cons, hc, List.zipIdx_cons, List.map_cons]
      rfl

theorem restOf_append (b es : List BatchEntry) (id : Nat) :
    restOf (b ++ es) 0 id = restOf b 0 id ++ restOf es 0 id := by
  simp [restOf, ofKey_append]

theorem restOf_other {es : List BatchEntry} {cs id : Nat} (h : ∀ e ∈ es, e.seqId ≠ id) :
    restOf es cs id = [] := by
  unfold restOf ofKey
  rw [List.map_eq_nil_iff, List.filter_eq_nil_iff]
  intro c hc
  obtain ⟨e, he, rfl⟩ := List.mem_map.mp hc
  intro hd
  exact h e (List.mem_of_mem_drop he) (of_decide_eq_true hd)

theorem restOf_append_other {b es : List BatchEntry} {n id : Nat}
    (h : ∀ e ∈ es, e.seqId ≠ id) : restOf (b ++ es) n id = restOf b n id := by
  have hes : restOf es (n - b.length) id = [] := restOf_other h
  unfold restOf at hes ⊢
  rw [List.drop_append, List.map_append, ofKey_append, hes, List.append_nil]

/-- Entries of other sequences behind the batch do not concern a slot. -/
theorem InFlight.append {b es : List BatchEntry} {cs : Nat} (h : InFlight sub kv b cs slot)
    (hes : ∀ e ∈ es, e.seqId ≠ slot.id) : InFlight sub kv (b ++ es) cs slot := by
  cases h with
  | settled h hrest => exact .settled h (by rw [restOf_append_other hes, hrest])
  | queued h =>
    obtain ⟨i, hi, hcs, ⟨e, he, hid⟩, hlast⟩ := h.index
    refine .queued { h with index := ⟨i, hi, hcs, ⟨e, ?_, hid⟩, ?_⟩, cells := ?_ }
    · rw [List.getElem?_append_left (List.getElem?_eq_some_iff.mp he).1]
      exact he
    · rw [restOf_append_other hes, hlast]
    · rw [restOf_append_other hes]
      exact h.cells

theorem restOf_own {es : List BatchEntry} {id : Nat} {vs : List (Token × Nat)}
    (h : es.map BatchEntry.toCell = vs.map fun v => ((id : Int), v)) :
    restOf es 0 id = vs := by
  unfold restOf ofKey
  rw [List.drop_zero, h, List.filter_map, List.map_map]
  simp [Function.comp_def]

theorem seqId_of_cells {es : List BatchEntry} {id : Nat} {vs : List (Token × Nat)}
    (h : es.map BatchEntry.toCell = vs.map fun v => ((id : Int), v)) {e : BatchEntry}
    (he : e ∈ es) : e.seqId = id := by
  have hm : e.toCell ∈ vs.map fun v => ((id : Int), v) := h ▸ List.mem_map_of_mem he
  obtain ⟨v, -, hv⟩ := List.mem_map.mp hm
  exact (congrArg Prod.fst hv).symm

/-- A busy slot whose missing cells were just appended to the batch is queued. -/
theorem queued_of_append {b es : List BatchEntry} {k : Nat} (hb : BusySlot sub slot)
    (hfresh : restOf b 0 slot.id = [])
    (hcells : es.map BatchEntry.toCell =
      ((slot.cachedTokens.drop k).zipIdx k).map fun v => ((slot.id : Int), v))
    (hk : k < slot.cachedTokens.length) (hpast : slot.nPast = slot.cachedTokens.length)
    (hi : slot.iBatch = ((b ++ es).length : Int) - 1)
    (hkv : Holds (kv slot.id) (slot.cachedTokens.take k)) :
    QueuedSlot sub kv (b ++ es) 0 slot := by
  have hlen : es.length = slot.cachedTokens.length - k := by
    simpa using congrArg List.length hcells
  have hpos : (b ++ es).length - 1 < (b ++ es).length := by
    rw [List.length_append]
    omega
  refine { hb with past := hpast, index := ⟨(b ++ es).length - 1, ?_, Nat.zero_le _, ?_, ?_⟩,
                   cells := ⟨k, Nat.le_of_lt hk, hkv, ?_⟩ }
  · omega
  · refine ⟨(b ++ es)[(b ++ es).length - 1], List.getElem?_eq_getElem hpos, ?_⟩
    have hmem : (b ++ es)[(b ++ es).length - 1] ∈ es := by
      rw [List.getElem_append_right (by rw [List.length_append]; omega)]
      exact List.getElem_mem _
    exact seqId_of_cells hcells hmem
  · have hend : (b ++ es).length - 1 + 1 = (b ++ es).length := by omega
    unfold restOf
    rw [hend, List.drop_length]
    rfl
  · rw [restOf_append, hfresh, restOf_own hcells, List.nil_append]

/-- What `buildSlot` does to one slot: it appends the slot's missing cells to the batch,
    touching no other sequence. -/
structure BuiltSlot (sub : List GenerateRequest) (w : World) (b : List BatchEntry)
    (slot : Slot) : Prop where
  inFlight : InFlight sub (buildSlot (w, b) slot).1.1.kv (buildSlot (w, b) slot).1.2 0
    (buildSlot (w, b) slot).2
  appended : ∃ es, (buildSlot (w, b) slot).1.2 = b ++ es ∧ (∀ e ∈ es, e.seqId = slot.id) ∧
    (slot.isBusy = true → es ≠ [])
  others : ∀ j : Nat, j ≠ slot.id → (buildSlot (w, b) slot).1.1.kv j = w.kv j

theorem buildSlot_idle (w : World) {b : List BatchEntry} (h : Settled sub w.kv slot)
    (hb : slot.isBusy = false) (hfresh : restOf b 0 slot.id = []) :
    BuiltSlot sub w b slot := by
  have e : buildSlot (w, b) slot = ((w, b), slot) := by simp [buildSlot, hb]
  constructor
  · rw [e]
    exact .settled h hfresh
  · rw [e]
    exact ⟨[], by simp, by simp, by simp [hb]⟩
  · rw [e]
    exact fun _ _ => rfl

/-- A decoding slot adds the token it sampled. -/
theorem buildSlot_decoding (w : World) {b : List BatchEntry} (h : DecodingSlot sub w.kv slot)
    (hfresh : restOf b 0 slot.id = []) : BuiltSlot sub w b slot := by
  have hbusy := h.toBusySlot.isBusy
  have hct := congrArg List.length h.past
  rw [List.length_append, List.length_take, List.length_singleton] at hct
  have e : buildSlot (w, b) slot =
      ((w, batchAdd b slot.sampled slot.nPast slot.seqId true),
        { slot with iBatch := b.length, nPast := slot.nPast + 1 }) := by
    simp [buildSlot, hbusy, h.prefilled]
  have hdrop : slot.cachedTokens.drop slot.nPast = [slot.sampled] := by
    have ht := h.past
    have happ := List.take_append_drop slot.nPast slot.cachedTokens
    exact List.append_cancel_left (happ.trans ht)
  constructor
  · rw [e]
    refine .queued (queued_of_append (k := slot.nPast)
      ⟨h.seq, h.cold, h.own⟩ hfresh ?_ ?_ ?_ ?_ h.cells)
    · simp [hdrop, BatchEntry.toCell, h.seq]
    · show slot.nPast < slot.cachedTokens.length
      omega
    · show slot.nPast + 1 = slot.cachedTokens.length
      omega
    · simp
  · rw [e]
    exact ⟨_, rfl, by simp [h.seq], by simp⟩
  · rw [e]
    exact fun _ _ => rfl

/-- A slot admitted with nothing left to prefill evicts its last cached token and decodes
    it again, for the logits. -/
theorem buildSlot_replay (w : World) {b : List BatchEntry} (h : AdmittedSlot sub w.kv slot)
    (hp : slot.pendingPrompt = []) (hfresh : restOf b 0 slot.id = []) :
    BuiltSlot sub w b slot := by
  have hbusy := h.toBusySlot.isBusy
  have hlen : slot.nPast = slot.cachedTokens.length := by
    have hpend := h.pending
    rw [hp] at hpend
    have hd := List.drop_eq_nil_iff.mp hpend.symm
    have hle := h.past
    omega
  have hpos : 0 < slot.nPast := by
    rw [hlen]
    exact List.length_pos_iff.mpr h.prompt
  have hlt : slot.nPast - 1 < slot.cachedTokens.length := by omega
  have e : buildSlot (w, b) slot =
      ((w.seqRm slot.seqId ((slot.nPast - 1 : Nat) : Int),
        batchAdd b (slot.cachedTokens.getD (slot.nPast - 1) 0) (slot.nPast - 1)
          slot.seqId true),
        { slot with iBatch := b.length, nPast := slot.nPast - 1 + 1 }) := by
    simp [buildSlot, hbusy, h.prefilled, hp, hpos, batchAdd]
  constructor
  · rw [e]
    refine .queued (queued_of_append (k := slot.nPast - 1)
      ⟨h.seq, h.cold, h.own⟩ hfresh ?_ hlt ?_ ?_ ?_)
    · show _ = ((slot.cachedTokens.drop (slot.nPast - 1)).zipIdx (slot.nPast - 1)).map _
      rw [List.drop_eq_getElem_cons hlt, List.drop_eq_nil_of_le (by omega)]
      simp [BatchEntry.toCell, h.seq, List.getD_eq_getElem?_getD,
        List.getElem?_eq_getElem hlt]
    · show slot.nPast - 1 + 1 = slot.cachedTokens.length
      omega
    · simp
    · have hc := llamaMemorySeqRm_holds h.cells (slot.nPast - 1)
      rw [List.take_take, Nat.min_eq_left (by omega)] at hc
      simpa [World.seqRm, h.seq] using hc
  · rw [e]
    exact ⟨_, rfl, by simp [h.seq], by simp⟩
  · rw [e]
    intro j hj
    simp only [World.seqRm, h.seq]
    exact llamaMemorySeqRm_other hj w.kv _ _

/-- A slot admitted with a prompt adds the part of it that is not in the cache. -/
theorem buildSlot_prefill (w : World) {b : List BatchEntry} (h : AdmittedSlot sub w.kv slot)
    (hp : slot.pendingPrompt ≠ []) (hfresh : restOf b 0 slot.id = []) :
    BuiltSlot sub w b slot := by
  have hbusy := h.toBusySlot.isBusy
  obtain ⟨es, he, hlen, hcells⟩ := addPrompt_eq b slot.seqId slot.pendingPrompt.length
    slot.pendingPrompt slot.nPast 0
  have e : buildSlot (w, b) slot =
      ((w, b ++ es),
        { slot with
          iBatch := ((b ++ es).length : Int) - 1
          nPast := slot.nPast + slot.pendingPrompt.length }) := by
    simp [buildSlot, hbusy, h.prefilled, hp, he]
  have hpend : slot.pendingPrompt.length = slot.cachedTokens.length - slot.nPast := by
    rw [h.pending, List.length_drop]
  have hpp : 0 < slot.pendingPrompt.length := List.length_pos_iff.mpr hp
  rw [h.seq, h.pending] at hcells
  constructor
  · rw [e]
    refine .queued (queued_of_append (k := slot.nPast)
      ⟨h.seq, h.cold, h.own⟩ hfresh hcells ?_ ?_ rfl h.cells)
    · show slot.nPast < slot.cachedTokens.length
      omega
    · show slot.nPast + slot.pendingPrompt.length = slot.cachedTokens.length
      omega
  · rw [e]
    refine ⟨es, rfl, fun e' he' => seqId_of_cells hcells he', ?_⟩
    intro _ hnil
    rw [hnil] at hlen
    simp at hlen
    omega
  · rw [e]
    exact fun _ _ => rfl

theorem buildSlot_spec (w : World) (b : List BatchEntry) (h : Waiting sub w.kv slot)
    (hfresh : restOf b 0 slot.id = []) : BuiltSlot sub w b slot := by
  cases h with
  | settled hs =>
    cases hs with
    | free h => exact buildSlot_idle w (.free h) h.not_busy hfresh
    | warm h => exact buildSlot_idle w (.warm h) h.not_busy hfresh
    | decoding h => exact buildSlot_decoding w h hfresh
  | admitted h =>
    by_cases hp : slot.pendingPrompt = []
    · exact buildSlot_replay w h hp hfresh
    · exact buildSlot_prefill w h hp hfresh

end TruellmEngine.Scheduler
