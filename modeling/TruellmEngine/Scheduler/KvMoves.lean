/-
  The remaining moves of a slot: a decoded chunk, a sampled token, a failed decode, the
  shutdown drain and an admission. Each specification says in which of the states of
  `KvSlots` the slot is afterwards, and that the cells of other sequences are untouched.

  One outcome is none of these states: `OverrunSlot`. A slot with a session that is
  completed by a non-EOG token keeps this token in its history without a cell for it.
-/
import TruellmEngine.Scheduler.KvSlots

namespace TruellmEngine.Scheduler

open Lib

variable {cfg : Config} {sub : List GenerateRequest} {kv : KvCache} {slot : Slot}
  {batch : List BatchEntry} {cs : Nat}

/-! ## Decoding a chunk -/

theorem restOf_split (batch : List BatchEntry) (cs n id : Nat) :
    restOf batch cs id =
      ofKey (id : Int) ((chunkView batch cs n).map BatchEntry.toCell) ++
        restOf batch (cs + n) id := by
  unfold restOf chunkView
  rw [← ofKey_append, ← List.map_append, ← List.drop_drop, List.take_append_drop]

theorem restOf_nil_of_le {m n id : Nat} (hmn : m ≤ n) (h : restOf batch m id = []) :
    restOf batch n id = [] := by
  obtain ⟨d, rfl⟩ := Nat.exists_eq_add_of_le hmn
  rw [restOf_split batch m d id] at h
  exact (List.append_eq_nil_iff.mp h).2

/-- A slot after the chunk that ends before index `n` is decoded. -/
inductive Landing (sub : List GenerateRequest) (kv : KvCache) (batch : List BatchEntry)
    (cs n : Nat) (slot : Slot) : Prop where
  | settled (h : Settled sub kv slot) (hrest : restOf batch n slot.id = [])
  | queued (h : QueuedSlot sub kv batch n slot)
  | landed (h : LandedSlot sub kv cs n slot) (hrest : restOf batch n slot.id = [])

theorem Landing.frame {kv' : KvCache} {n : Nat} (h : Landing sub kv batch cs n slot)
    (hkv : kv' slot.id = kv slot.id) : Landing sub kv' batch cs n slot := by
  cases h with
  | settled h hrest => exact .settled (h.frame hkv) hrest
  | queued h => exact .queued (h.frame hkv)
  | landed h hrest => exact .landed (h.frame hkv) hrest

/-- The part of a queued slot's history a chunk holds, and what is left of it. -/
theorem QueuedSlot.split (h : QueuedSlot sub kv batch cs slot) (n : Nat) :
    ∃ k ys zs, slot.cachedTokens = slot.cachedTokens.take k ++ ys ++ zs ∧
      k ≤ slot.cachedTokens.length ∧ Holds (kv slot.id) (slot.cachedTokens.take k) ∧
      ofKey (slot.id : Int) ((chunkView batch cs n).map BatchEntry.toCell) =
        ys.zipIdx (slot.cachedTokens.take k).length ∧
      restOf batch (cs + n) slot.id = zs.zipIdx (k + ys.length) := by
  obtain ⟨k, hk, hkv, hrest⟩ := h.cells
  rw [restOf_split batch cs n slot.id] at hrest
  obtain ⟨ys, zs, hsplit, h1, h2⟩ := List.zipIdx_eq_append_iff.mp hrest.symm
  refine ⟨k, ys, zs, ?_, hk, hkv, ?_, h2⟩
  · rw [List.append_assoc, ← hsplit, List.take_append_drop]
  · rw [List.length_take, Nat.min_eq_left hk]
    exact h1

/-- A successful decode moves every slot of the batch forward. -/
theorem InFlight.decode (h : InFlight sub kv batch cs slot) (n : Nat) :
    Landing sub (llamaDecode kv (chunkView batch cs n)) batch cs (cs + n) slot := by
  cases h with
  | settled h hrest =>
    have hnil := hrest
    rw [restOf_split batch cs n slot.id, List.append_eq_nil_iff] at hnil
    exact .settled (h.frame (writeAll_other hnil.1 kv)) hnil.2
  | queued h =>
    obtain ⟨k, ys, zs, hct, hk, hkv, hchunk, hleft⟩ := h.split n
    have hcells := writeAll_holds hkv hchunk
    obtain ⟨i, hi, hcsi, hent, hlast⟩ := h.index
    by_cases hin : i < cs + n
    · -- the slot's last entry is in the chunk: nothing is left
      have hdone := restOf_nil_of_le (Nat.succ_le_of_lt hin) hlast
      have hzs : zs = [] := by
        rw [hdone] at hleft
        simpa using hleft.symm
      rw [hzs, List.append_nil] at hct
      refine .landed { h with index := ⟨by omega, by omega⟩, cells := ?_ } hdone
      rw [hct]
      exact hcells
    · have hlen : (slot.cachedTokens.take k ++ ys).length = k + ys.length := by
        simp [Nat.min_eq_left hk]
      have htake : slot.cachedTokens.take (k + ys.length) = slot.cachedTokens.take k ++ ys := by
        have ht := congrArg (List.take (k + ys.length)) hct
        rwa [List.take_left' hlen] at ht
      have hdrop : slot.cachedTokens.drop (k + ys.length) = zs := by
        have ht := congrArg (List.drop (k + ys.length)) hct
        rwa [List.drop_left' hlen] at ht
      have hle : k + ys.length ≤ slot.cachedTokens.length := by
        have := congrArg List.length hct
        rw [List.length_append, hlen] at this
        omega
      refine .queued { h with
        index := ⟨i, hi, by omega, hent, hlast⟩
        cells := ⟨k + ys.length, hle, ?_, ?_⟩ }
      · rw [htake]
        exact hcells
      · rw [hdrop]
        exact hleft

/-- Every entry of the chunk is decoded right behind the cells of its own sequence, which
    are the history before it. -/
theorem QueuedSlot.inOrder (h : QueuedSlot sub kv batch cs slot) {n : Nat}
    {es₁ es₂ : List BatchEntry} {e : BatchEntry} (he : e.seqId = slot.id)
    (hc : chunkView batch cs n = es₁ ++ e :: es₂) :
    Holds (llamaDecode kv es₁ slot.id) (slot.cachedTokens.take e.pos) ∧
      slot.cachedTokens[e.pos]? = some e.token := by
  obtain ⟨k, ys, zs, hct, -, hkv, hchunk, -⟩ := h.split n
  have hcell : e.toCell = ((slot.id : Int), e.token, e.pos) := by rw [← he]; rfl
  rw [hc, List.map_append, List.map_cons, hcell] at hchunk
  obtain ⟨hpre, htok⟩ := writeAll_inOrder hkv hchunk
  have hpos : e.pos < (slot.cachedTokens.take k ++ ys).length :=
    (List.getElem?_eq_some_iff.mp htok).1
  constructor
  · rw [hct, List.take_append_of_le_length (Nat.le_of_lt hpos)]
    exact hpre
  · rw [hct, List.getElem?_append_left hpos]
    exact htok

/-! ## Sampling -/

/-- A request with a session ends on a token that was never decoded. -/
def EndsUndecoded (cfg : Config) (slot : Slot) (tok : Token) : Prop :=
  slot.cachedSessionId ≠ [] ∧ cfg.vocab.isEog tok = false ∧ EndsRequest cfg slot tok

/-- A warm slot with one more cached token than cells. -/
structure OverrunSlot (kv : KvCache) (slot : Slot) : Prop where
  seq : slot.seqId = slot.id
  warm : slot.warm = true
  session : slot.cachedSessionId ≠ []
  cells : ∃ xs tok, slot.cachedTokens = xs ++ [tok] ∧ Holds (kv slot.id) xs

theorem OverrunSlot.frame {kv' : KvCache} (h : OverrunSlot kv slot)
    (hkv : kv' slot.id = kv slot.id) : OverrunSlot kv' slot :=
  { h with cells := hkv ▸ h.cells }

theorem OverrunSlot.not_holds (h : OverrunSlot kv slot) :
    ¬ Holds (kv slot.id) slot.cachedTokens := by
  obtain ⟨xs, tok, hct, hkv⟩ := h.cells
  intro hh
  have := hkv.unique (hct ▸ hh)
  simp at this

theorem callOnToken_kv (w : World) (slot : Slot) (tok : Token) (piece : Bytes) :
    (callOnToken w slot tok piece).kv = w.kv := by
  unfold callOnToken
  split <;> rfl

@[simp] theorem sampleSlot_id (w : World) (tok : Token) (now : Int) :
    (sampleSlot cfg w slot tok now).2.id = slot.id := by
  simp only [sampleSlot]
  split
  · exact completeSlot_id _ _ _ _ _ _
  · split
    · exact completeSlot_id _ _ _ _ _ _
    · rfl

theorem sampleSlot_other (w : World) (tok : Token) (now : Int) (hseq : slot.seqId = slot.id)
    {j : Nat} (hj : j ≠ slot.id) : (sampleSlot cfg w slot tok now).1.kv j = w.kv j := by
  have hemit : ∀ (p : Bytes),
      (callOnToken w (emitToken (takeSample slot tok) tok p) tok p).kv = w.kv :=
    fun p => callOnToken_kv w _ tok p
  simp only [sampleSlot]
  split
  · exact completeSlot_other w (takeSample slot tok) now .ok "" "stop" hseq hj
  · split
    · rw [completeSlot_other _ (emitToken (takeSample slot tok) tok
        (pieceText cfg.vocab tok false)) now .ok "" _ hseq hj,
        hemit]
    · rw [hemit]

/-- Sampling a slot whose whole history is decoded leaves it settled, unless its session's
    request ends on the sampled token. -/
theorem sampleSlot_spec (cfg : Config) {n : Nat} (w : World)
    (h : LandedSlot sub w.kv cs n slot) (tok : Token) (now : Int) :
    (EndsUndecoded cfg slot tok →
      OverrunSlot (sampleSlot cfg w slot tok now).1.kv (sampleSlot cfg w slot tok now).2) ∧
    (¬ EndsUndecoded cfg slot tok →
      Settled sub (sampleSlot cfg w slot tok now).1.kv (sampleSlot cfg w slot tok now).2) := by
  by_cases heog : cfg.vocab.isEog tok = true
  · rw [sampleSlot_eog heog]
    refine ⟨fun hu => ?_, fun _ => ?_⟩
    · rw [hu.2.1] at heog
      cases heog
    · by_cases hsid : slot.cachedSessionId = []
      · exact .free (completeSlot_freeSlot w (takeSample slot tok) now .ok "" "stop" h.seq
          (by simp [takeSample, hsid]))
      · rw [completeSlot_keep w (takeSample slot tok) now "" "stop" hsid]
        exact .warm ⟨h.seq, rfl, hsid, h.cells⟩
  · have heog' : cfg.vocab.isEog tok = false := by simpa using heog
    by_cases hends : EndsRequest cfg slot tok
    · rw [sampleSlot_ends heog' hends]
      by_cases hsid : slot.cachedSessionId = []
      · refine ⟨fun hu => absurd hsid hu.1, fun _ => .free ?_⟩
        exact completeSlot_freeSlot _ (emitted cfg slot tok) now .ok "" _ h.seq
          (by simp [emitted, emitToken, takeSample, hsid])
      · refine ⟨fun _ => ?_, fun hu => absurd ⟨hsid, heog', hends⟩ hu⟩
        rw [completeSlot_keep _ (emitted cfg slot tok) now "" _ hsid]
        refine ⟨h.seq, rfl, hsid, slot.cachedTokens, tok, rfl, ?_⟩
        show Holds ((callOnToken w (emitted cfg slot tok) tok _).kv slot.id) slot.cachedTokens
        rw [callOnToken_kv]
        exact h.cells
    · rw [sampleSlot_continues heog' hends]
      refine ⟨fun hu => absurd hu.2.2 hends, fun _ => .decoding ?_⟩
      obtain ⟨req, hreq, hct⟩ := h.own
      have htake : (slot.cachedTokens ++ [tok]).take slot.nPast = slot.cachedTokens := by
        rw [List.take_left' h.past.symm]
      exact {
        seq := h.seq
        cold := h.cold
        own := ⟨req, hreq, by simp [emitted, emitToken, takeSample, hct]⟩
        prefilled := rfl
        emitted := by simp [emitted, emitToken]
        unsent := rfl
        past := by
          show slot.cachedTokens ++ [tok] = (slot.cachedTokens ++ [tok]).take slot.nPast ++ [tok]
          rw [htake]
        cells := by
          show Holds ((callOnToken w (emitted cfg slot tok) tok _).kv slot.id)
            ((slot.cachedTokens ++ [tok]).take slot.nPast)
          rw [htake, callOnToken_kv]
          exact h.cells }

/-- The slot is sampled in this chunk and its session's request ends on the token. -/
def SlotOverruns (cfg : Config) (o : Oracle) (cs n : Nat) (slot : Slot) : Prop :=
  slot.isBusy = true ∧ (cs : Int) ≤ slot.iBatch ∧ slot.iBatch < (cs : Int) + n ∧
    EndsUndecoded cfg slot (o.sample slot.id)

theorem sampleInChunk_id (o : Oracle) (n : Nat) (w : World) (slot : Slot) :
    (sampleInChunk cfg o cs n w slot).2.id = slot.id := by
  unfold sampleInChunk
  split
  · exact sampleSlot_id _ _ _
  · rfl

theorem sampleInChunk_other (cfg : Config) (o : Oracle) (n : Nat) (w : World)
    (h : Landing sub w.kv batch cs (cs + n) slot) {j : Nat} (hj : j ≠ slot.id) :
    (sampleInChunk cfg o cs n w slot).1.kv j = w.kv j := by
  unfold sampleInChunk
  split
  · rename_i hs
    refine sampleSlot_other w _ _ ?_ hj
    cases h with
    | settled h _ =>
      cases h with
      | free h => simp [h.not_busy] at hs
      | warm h => simp [h.not_busy] at hs
      | decoding h => exact h.seq
    | queued h => exact h.seq
    | landed h _ => exact h.seq
  · rfl

/-- One body of the sampling loop, for every slot after the chunk is decoded. -/
theorem sampleInChunk_spec (o : Oracle) (n : Nat) (w : World)
    (h : Landing sub w.kv batch cs (cs + n) slot) :
    (SlotOverruns cfg o cs n slot →
      OverrunSlot (sampleInChunk cfg o cs n w slot).1.kv
        (sampleInChunk cfg o cs n w slot).2) ∧
    (¬ SlotOverruns cfg o cs n slot →
      InFlight sub (sampleInChunk cfg o cs n w slot).1.kv batch (cs + n)
        (sampleInChunk cfg o cs n w slot).2) := by
  have skip : ¬ (slot.isBusy = true ∧ (cs : Int) ≤ slot.iBatch ∧
        slot.iBatch < (cs : Int) + n) → InFlight sub w.kv batch (cs + n) slot →
      (SlotOverruns cfg o cs n slot →
        OverrunSlot (sampleInChunk cfg o cs n w slot).1.kv
          (sampleInChunk cfg o cs n w slot).2) ∧
      (¬ SlotOverruns cfg o cs n slot →
        InFlight sub (sampleInChunk cfg o cs n w slot).1.kv batch (cs + n)
          (sampleInChunk cfg o cs n w slot).2) := by
    intro hs hf
    have e : sampleInChunk cfg o cs n w slot = (w, slot) := by
      simp only [sampleInChunk, hs, if_false]
    rw [e]
    exact ⟨fun hu => absurd ⟨hu.1, hu.2.1, hu.2.2.1⟩ hs, fun _ => hf⟩
  cases h with
  | settled h hrest =>
    refine skip ?_ (.settled h hrest)
    rintro ⟨hb, hi, -⟩
    cases h with
    | free h => simp [h.not_busy] at hb
    | warm h => simp [h.not_busy] at hb
    | decoding h =>
      have := h.unsent
      omega
  | queued h =>
    refine skip ?_ (.queued h)
    rintro ⟨-, -, hi⟩
    obtain ⟨i, hib, hle, -⟩ := h.index
    omega
  | landed h hrest =>
    have hin := h.index
    have hsel : slot.isBusy = true ∧ (cs : Int) ≤ slot.iBatch ∧ slot.iBatch < (cs : Int) + n :=
      ⟨h.toBusySlot.isBusy, hin.1, by omega⟩
    have e : sampleInChunk cfg o cs n w slot =
        sampleSlot cfg w slot (o.sample slot.id) (o.now slot.id) := by
      simp only [sampleInChunk, hsel, and_self, if_true]
    rw [e]
    obtain ⟨hover, hset⟩ :=
      sampleSlot_spec cfg w h (o.sample slot.id) (o.now slot.id)
    refine ⟨fun hu => hover hu.2.2.2, fun hu => ?_⟩
    refine .settled (hset fun he => hu ⟨hsel.1, hsel.2.1, hsel.2.2, he⟩) ?_
    rw [sampleSlot_id]
    exact hrest

/-! ## Failed decode and shutdown -/

theorem failSlot_id (o : Oracle) (w : World) (slot : Slot) :
    (failSlot cs o w slot).2.id = slot.id := by
  unfold failSlot
  split
  · exact completeSlot_id _ _ _ _ _ _
  · rfl

/-- An unrecoverable failure frees every slot that still has entries in the batch. -/
theorem failSlot_spec (o : Oracle) (w : World) (h : InFlight sub w.kv batch cs slot) :
    Settled sub (failSlot cs o w slot).1.kv (failSlot cs o w slot).2 ∧
      ∀ j : Nat, j ≠ slot.id → (failSlot cs o w slot).1.kv j = w.kv j := by
  cases h with
  | settled h hrest =>
    have hs : ¬ (slot.isBusy = true ∧ (cs : Int) ≤ slot.iBatch) := by
      rintro ⟨hb, hi⟩
      cases h with
      | free h => simp [h.not_busy] at hb
      | warm h => simp [h.not_busy] at hb
      | decoding h =>
        have := h.unsent
        omega
    have e : failSlot cs o w slot = (w, slot) := by simp only [failSlot, hs, if_false]
    rw [e]
    exact ⟨h, fun _ _ => rfl⟩
  | queued h =>
    obtain ⟨i, hib, hle, -⟩ := h.index
    have hs : slot.isBusy = true ∧ (cs : Int) ≤ slot.iBatch :=
      ⟨h.toBusySlot.isBusy, by omega⟩
    have e : failSlot cs o w slot =
        completeSlot w slot (o.now slot.id) .internalError "llama_decode failed" "stop" := by
      simp only [failSlot, hs, and_self, if_true]
    rw [e]
    exact ⟨.free (completeSlot_freeSlot w slot _ _ _ _ h.seq (by simp)),
      fun j hj => completeSlot_other w slot _ _ _ _ h.seq hj⟩

theorem drainSlot_id (o : Oracle) (w : World) (slot : Slot) :
    (drainSlot o w slot).2.id = slot.id := by
  unfold drainSlot
  split
  · exact completeSlot_id _ _ _ _ _ _
  · split <;> rfl

/-- The drain frees every slot. -/
theorem drainSlot_spec (o : Oracle) (w : World) (h : Waiting sub w.kv slot) :
    FreeSlot (drainSlot o w slot).1.kv (drainSlot o w slot).2 ∧
      ∀ j : Nat, j ≠ slot.id → (drainSlot o w slot).1.kv j = w.kv j := by
  have busy : BusySlot sub slot →
      FreeSlot (drainSlot o w slot).1.kv (drainSlot o w slot).2 ∧
        ∀ j : Nat, j ≠ slot.id → (drainSlot o w slot).1.kv j = w.kv j := by
    intro hb
    have e : drainSlot o w slot =
        completeSlot w { slot with cachedSessionId := [] } (o.now slot.id) .unavailable
          "Scheduler shutting down" "stop" := by
      simp only [drainSlot, hb.isBusy, if_true]
    rw [e]
    exact ⟨completeSlot_freeSlot w { slot with cachedSessionId := [] } _ _ _ _ hb.seq (by simp),
      fun j hj => completeSlot_other w { slot with cachedSessionId := [] } _ _ _ _ hb.seq hj⟩
  cases h with
  | settled h =>
    cases h with
    | free h =>
      have e : drainSlot o w slot = (w, slot) := by
        simp [drainSlot, h.not_busy, Slot.isWarm, h.seq]
      rw [e]
      exact ⟨h, fun _ _ => rfl⟩
    | warm h =>
      have e : drainSlot o w slot =
          (w.seqRm slot.seqId (-1),
            { slot with
              warm := false, cachedSessionId := [], cachedTokens := [], seqId := -1 }) := by
        simp [drainSlot, h.not_busy, h.isWarm]
      rw [e, h.seq]
      exact ⟨⟨rfl, rfl, rfl, llamaMemorySeqRm_all w.kv slot.id⟩,
        fun j hj => llamaMemorySeqRm_other hj w.kv _ _⟩
    | decoding h => exact busy h.toBusySlot
  | admitted h => exact busy h.toBusySlot

/-! ## Admission -/

theorem Waiting.warm_of_isWarm (h : Waiting sub kv slot) (hw : slot.isWarm = true) :
    WarmSlot kv slot := by
  have hwarm := (Slot.isWarm_iff.mp hw).2
  cases h with
  | settled h =>
    cases h with
    | free h => simp [h.cold] at hwarm
    | warm h => exact h
    | decoding h => simp [h.cold] at hwarm
  | admitted h => simp [h.cold] at hwarm

theorem Waiting.free_of_isFree (h : Waiting sub kv slot) (hf : slot.isFree = true) :
    FreeSlot kv slot := by
  have hseq := Slot.isFree_iff.mp hf
  cases h with
  | settled h =>
    cases h with
    | free h => exact h
    | warm h =>
      have := h.seq
      omega
    | decoding h =>
      have := h.seq
      omega
  | admitted h =>
    have := h.seq
    omega

theorem Waiting.settled_of_idle (h : Waiting sub kv slot) (hb : slot.isBusy = false) :
    Settled sub kv slot := by
  cases h with
  | settled h => exact h
  | admitted h => simp [h.toBusySlot.isBusy] at hb

/-- A cold admission into a slot without cells. -/
theorem coldAdmit_spec (cfg : Config) (w : World) (slot : Slot) (entry : PendingRequest)
    (hreq : sub[entry.promise]? = some entry.req) (hne : entry.req.tokens ≠ [])
    (hcells : Holds (w.kv slot.id) []) :
    AdmittedSlot sub w.kv
      (startRequest cfg
        { slot with
          seqId := slot.id, prefilled := false, nPast := 0
          pendingPrompt := entry.req.tokens } entry) where
  seq := rfl
  cold := rfl
  own := ⟨entry.req, hreq, by simp [startRequest]⟩
  prefilled := rfl
  prompt := hne
  past := Nat.zero_le _
  fresh := fun _ => rfl
  pending := rfl
  cells := by simpa [startRequest] using hcells

/-- The slot a request is admitted into holds the reused prefix of its prompt, or nothing. -/
theorem admitInto_spec (cfg : Config) (w : World) (slots : List Slot) (entry : PendingRequest)
    (sel : Selection) (hslots : ∀ s ∈ slots, Waiting sub w.kv s)
    (hsel : sel.Sound slots entry.req) (hreq : sub[entry.promise]? = some entry.req)
    (hne : entry.req.tokens ≠ []) :
    AdmittedSlot sub (admitInto cfg w entry sel).1.kv (admitInto cfg w entry sel).2 ∧
      ∀ j : Nat, j ≠ sel.slot.id → (admitInto cfg w entry sel).1.kv j = w.kv j := by
  cases sel with
  | reuse slot n =>
    obtain ⟨hm, hwarm, hsid, -, hn, hmin⟩ := hsel
    have h := (hslots slot hm).warm_of_isWarm hwarm
    have hpos : 0 < n := Nat.lt_of_lt_of_le (by decide) hmin
    have e : admitInto cfg w entry (.reuse slot n) =
        (w.seqRm slot.seqId n,
          startRequest cfg
            { slot with
              prefilled := false, nPast := n, pendingPrompt := entry.req.tokens.drop n }
            entry) := by
      simp only [admitInto, placePrompt, hpos, if_true]
    rw [e]
    constructor
    · exact {
        seq := h.seq
        cold := rfl
        own := ⟨entry.req, hreq, by simp [startRequest]⟩
        prefilled := rfl
        prompt := hne
        past := by
          show n ≤ entry.req.tokens.length
          rw [hn]
          exact commonPrefix_le_right _ _
        fresh := fun h0 => absurd h0 hsid
        pending := rfl
        cells := by
          show Holds (llamaMemorySeqRm w.kv slot.seqId n (-1) slot.id)
            (entry.req.tokens.take n)
          rw [h.seq, hn, ← take_commonPrefix]
          exact llamaMemorySeqRm_holds h.cells _ }
    · intro j hj
      simp only [World.seqRm, h.seq]
      exact llamaMemorySeqRm_other hj w.kv _ _
  | free slot =>
    obtain ⟨hm, hfree⟩ := hsel
    have h := (hslots slot hm).free_of_isFree hfree
    have e : admitInto cfg w entry (.free slot) =
        (w, startRequest cfg
          { slot with
            seqId := slot.id, prefilled := false, nPast := 0
            pendingPrompt := entry.req.tokens } entry) := by
      simp [admitInto, placePrompt, h.cold]
    rw [e]
    exact ⟨coldAdmit_spec cfg w slot entry hreq hne h.cells, fun _ _ => rfl⟩
  | evict slot =>
    obtain ⟨hm, hwarm, -, -⟩ := hsel
    have h := (hslots slot hm).warm_of_isWarm hwarm
    have hcells : Holds ((w.seqRm slot.seqId (-1)).kv slot.id) [] := by
      simp only [World.seqRm, h.seq]
      exact llamaMemorySeqRm_all w.kv slot.id
    refine ⟨coldAdmit_spec cfg (w.seqRm slot.seqId (-1)) (evictSlot w slot).2 entry
      hreq hne hcells, ?_⟩
    intro j hj
    show (w.seqRm slot.seqId (-1)).kv j = w.kv j
    simp only [World.seqRm, h.seq]
    exact llamaMemorySeqRm_other hj w.kv _ _

end TruellmEngine.Scheduler
