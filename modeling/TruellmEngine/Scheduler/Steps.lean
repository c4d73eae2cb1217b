/-
  What one step of the scheduler can do.

  `step_cases` lists every step with its guard and its result (`StepCase`); the invariants
  of the scheduler are proved from it, one case per kind of step. Below it stand the
  specifications of the functions a step calls: which slot `selectSlot` finds, what the
  common prefix is, what a completion leaves behind.
-/
import TruellmEngine.Scheduler.Model

namespace TruellmEngine.Scheduler

open Lib

/-! ## Slots -/

theorem Slot.isFree_iff {slot : Slot} : slot.isFree = true ↔ slot.seqId = -1 := by
  simp [Slot.isFree]

theorem Slot.isWarm_iff {slot : Slot} :
    slot.isWarm = true ↔ slot.seqId ≠ -1 ∧ slot.warm = true := by
  simp [Slot.isWarm]

theorem Slot.isBusy_iff {slot : Slot} :
    slot.isBusy = true ↔ slot.seqId ≠ -1 ∧ slot.warm = false := by
  simp [Slot.isBusy]

theorem mem_updateSlot {slots : List Slot} {slot s : Slot} (h : s ∈ updateSlot slots slot) :
    s = slot ∨ (s ∈ slots ∧ s.id ≠ slot.id) := by
  unfold updateSlot at h
  obtain ⟨t, ht, rfl⟩ := List.mem_map.mp h
  by_cases hid : t.id = slot.id
  · rw [if_pos hid]
    exact Or.inl rfl
  · rw [if_neg hid]
    exact Or.inr ⟨ht, hid⟩

theorem mem_updateSlot_self {slots : List Slot} {slot old : Slot} (h : old ∈ slots)
    (hid : old.id = slot.id) : slot ∈ updateSlot slots slot :=
  List.mem_map.mpr ⟨old, h, by rw [if_pos hid]⟩

theorem mem_updateSlot_other {slots : List Slot} {slot s : Slot} (h : s ∈ slots)
    (hid : s.id ≠ slot.id) : s ∈ updateSlot slots slot :=
  List.mem_map.mpr ⟨s, h, by rw [if_neg hid]⟩

theorem updateSlot_ids (slots : List Slot) (slot : Slot) :
    (updateSlot slots slot).map Slot.id = slots.map Slot.id := by
  unfold updateSlot
  rw [List.map_map]
  refine List.map_congr_left ?_
  intro s _
  by_cases hid : s.id = slot.id
  · simp [hid]
  · simp [hid]

/-! ## Completion -/

theorem completeSlot_keep (w : World) (slot : Slot) (now : Int) (msg fr : String)
    (h : slot.cachedSessionId ≠ []) :
    completeSlot w slot now .ok msg fr =
      (w.setValue slot.promise (slotResult slot .ok msg fr),
        resetScratch { slot with warm := true, cachedAtUs := now }
          slot.cachedTokens.length) := by
  simp [completeSlot, h]

theorem completeSlot_free (w : World) (slot : Slot) (now : Int) (ec : ErrorCode) (msg fr : String)
    (h : ¬ (ec = .ok ∧ slot.cachedSessionId ≠ [])) :
    completeSlot w slot now ec msg fr =
      ((w.setValue slot.promise (slotResult slot ec msg fr)).seqRm slot.seqId (-1),
        resetScratch { slot with
          warm := false, cachedSessionId := [], cachedTokens := [], cachedAtUs := 0,
          seqId := -1 } 0) := by
  simp only [completeSlot, h, if_false]

@[simp] theorem completeSlot_id (w : World) (slot : Slot) (now : Int) (ec : ErrorCode)
    (msg fr : String) :
    (completeSlot w slot now ec msg fr).2.id = slot.id := by
  simp only [completeSlot]
  split <;> rfl

@[simp] theorem completeSlot_answers (w : World) (slot : Slot) (now : Int) (ec : ErrorCode)
    (msg fr : String) : (completeSlot w slot now ec msg fr).1.answers =
      w.answers ++ [(slot.promise, slotResult slot ec msg fr)] := by
  simp only [completeSlot]
  split <;> rfl

theorem callOnToken_answers (w : World) (slot : Slot) (tok : Token) (piece : Bytes) :
    (callOnToken w slot tok piece).answers = w.answers := by
  unfold callOnToken
  split
  · rfl
  · rfl

theorem completeSlot_not_busy (w : World) (slot : Slot) (now : Int) (ec : ErrorCode)
    (msg fr : String) : (completeSlot w slot now ec msg fr).2.isBusy = false := by
  unfold completeSlot
  dsimp only
  split
  · simp [Slot.isBusy, resetScratch]
  · simp [Slot.isBusy, resetScratch]

/-! ## Sampling -/

/-- The slot after the non-EOG token `tok` joined its output. -/
def emitted (cfg : Config) (slot : Slot) (tok : Token) : Slot :=
  emitToken (takeSample slot tok) tok (pieceText cfg.vocab tok false)

/-- The non-EOG token `tok` ends the request of `slot`: a stop string, the limit or a stop
    token id. -/
def EndsRequest (cfg : Config) (slot : Slot) (tok : Token) : Prop :=
  slot.stopStrings.any (endsWithStop (slot.accumulated ++ pieceText cfg.vocab tok false)) ∨
    slot.maxNew ≤ slot.nDecoded + 1 ∨ tok ∈ slot.stopTokenIds

theorem stops_iff (cfg : Config) (slot : Slot) (tok : Token) :
    (matchesStop (emitted cfg slot tok) || maxHit (emitted cfg slot tok) ||
      stopById (emitted cfg slot tok) tok) = true ↔ EndsRequest cfg slot tok := by
  rw [Bool.or_eq_true, Bool.or_eq_true, or_assoc]
  refine or_congr Iff.rfl (or_congr ?_ ?_)
  · simp only [maxHit, decide_eq_true_eq]
    rfl
  · simp [stopById, emitted, takeSample, emitToken]

theorem sampleSlot_eog {cfg : Config} {tok : Token} (h : cfg.vocab.isEog tok = true)
    (w : World) (slot : Slot) (now : Int) :
    sampleSlot cfg w slot tok now = completeSlot w (takeSample slot tok) now .ok "" "stop" := by
  simp [sampleSlot, h]

theorem sampleSlot_ends {cfg : Config} {slot : Slot} {tok : Token}
    (h : cfg.vocab.isEog tok = false) (he : EndsRequest cfg slot tok) (w : World) (now : Int) :
    sampleSlot cfg w slot tok now =
      completeSlot
        (callOnToken w (emitted cfg slot tok) tok (pieceText cfg.vocab tok false))
        (emitted cfg slot tok) now .ok ""
        (if maxHit (emitted cfg slot tok) then "length" else "stop") := by
  have hs := (stops_iff cfg slot tok).mpr he
  unfold emitted at hs ⊢
  simp only [sampleSlot, h, Bool.false_eq_true, if_false, hs, if_true]

theorem sampleSlot_continues {cfg : Config} {slot : Slot} {tok : Token}
    (h : cfg.vocab.isEog tok = false) (he : ¬ EndsRequest cfg slot tok) (w : World)
    (now : Int) :
    sampleSlot cfg w slot tok now =
      (callOnToken w (emitted cfg slot tok) tok (pieceText cfg.vocab tok false),
        emitted cfg slot tok) := by
  have hs : (matchesStop (emitted cfg slot tok) || maxHit (emitted cfg slot tok) ||
      stopById (emitted cfg slot tok) tok) = false := by
    simpa using mt (stops_iff cfg slot tok).mp he
  unfold emitted at hs ⊢
  simp only [sampleSlot, h, Bool.false_eq_true, if_false, hs]

/-! ## Slot selection -/

theorem commonPrefix_le_right (xs ys : List Token) : commonPrefix xs ys ≤ ys.length := by
  induction xs, ys using commonPrefix.induct with
  | case1 c cached fresh ih => simpa [commonPrefix] using ih
  | case2 c cached f fresh h => simp [commonPrefix, h]
  | case3 xs ys h => simp [commonPrefix]

theorem take_commonPrefix (xs ys : List Token) :
    xs.take (commonPrefix xs ys) = ys.take (commonPrefix xs ys) := by
  induction xs, ys using commonPrefix.induct with
  | case1 c cached fresh ih => simpa [commonPrefix] using ih
  | case2 c cached f fresh h => simp [commonPrefix, h]
  | case3 xs ys h => simp [commonPrefix]

theorem findWarm_some {req : GenerateRequest} {slots : List Slot} {slot : Slot} {n : Nat}
    (h : findWarm req slots = some (slot, n)) :
    slot ∈ slots ∧ slot.isWarm = true ∧ slot.cachedSessionId = req.sessionId ∧
      n = commonPrefix slot.cachedTokens req.tokens ∧ kMinReusePrefixToks ≤ n := by
  induction slots with
  | nil => cases h
  | cons s rest ih =>
    simp only [findWarm] at h
    split at h
    · rename_i hs
      split at h
      · rename_i hc
        simp only [Option.some.injEq, Prod.mk.injEq] at h
        obtain ⟨rfl, rfl⟩ := h
        exact ⟨List.mem_cons_self, hs.1, hs.2, rfl, hc⟩
      · cases h
    · obtain ⟨hm, hrest⟩ := ih h
      exact ⟨List.mem_cons_of_mem s hm, hrest⟩

theorem lruVictim_mem {slots : List Slot} {slot : Slot} (h : lruVictim slots = some slot) :
    slot ∈ slots ∧ slot.isWarm = true := by
  have key : ∀ (ss : List Slot) (best : Option Slot × Int),
      (∀ v, best.1 = some v → v ∈ slots ∧ v.isWarm = true) → (∀ s ∈ ss, s ∈ slots) →
      ∀ v, (ss.foldl (fun best s =>
        if s.isWarm ∧ s.cachedAtUs < best.2 then (some s, s.cachedAtUs) else best) best).1
          = some v → v ∈ slots ∧ v.isWarm = true := by
    intro ss
    induction ss with
    | nil => exact fun best hb _ v hv => hb v hv
    | cons s ss ih =>
      intro best hb hsub v hv
      rw [List.foldl_cons] at hv
      refine ih _ ?_ (fun t ht => hsub t (List.mem_cons_of_mem s ht)) v hv
      intro u hu
      split at hu
      · rename_i hs
        cases hu
        exact ⟨hsub _ List.mem_cons_self, hs.1⟩
      · exact hb u hu
  exact key slots (none, int64Max) (by simp) (fun s hs => hs) slot h

/-- The slot a selection is about. -/
def Selection.slot : Selection → Slot
  | .reuse slot _ => slot
  | .free slot => slot
  | .evict slot => slot

/-- What `selectSlot` guarantees about the slot it returns. -/
def Selection.Sound (slots : List Slot) (req : GenerateRequest) : Selection → Prop
  | .reuse slot n =>
    slot ∈ slots ∧ slot.isWarm = true ∧ req.sessionId ≠ [] ∧
      slot.cachedSessionId = req.sessionId ∧
      n = commonPrefix slot.cachedTokens req.tokens ∧ kMinReusePrefixToks ≤ n
  | .free slot => slot ∈ slots ∧ slot.isFree = true
  | .evict slot =>
    slot ∈ slots ∧ slot.isWarm = true ∧ slots.find? Slot.isFree = none ∧
      lruVictim slots = some slot

theorem selectSlot_sound {slots : List Slot} {req : GenerateRequest} {sel : Selection}
    (h : selectSlot slots req = some sel) : sel.Sound slots req := by
  unfold selectSlot at h
  split at h
  · rename_i slot common hw
    cases h
    split at hw
    · rename_i hsid
      obtain ⟨hm, hwarm, hs, hn, hmin⟩ := findWarm_some hw
      exact ⟨hm, hwarm, hsid, hs, hn, hmin⟩
    · cases hw
  · split at h
    · rename_i slot hf
      cases h
      exact ⟨List.mem_of_find?_eq_some hf, List.find?_some hf⟩
    · rename_i hf
      obtain ⟨slot, hv, rfl⟩ := Option.map_eq_some_iff.mp h
      obtain ⟨hm, hwarm⟩ := lruVictim_mem hv
      exact ⟨hm, hwarm, hf, hv⟩

theorem Selection.Sound.mem {slots : List Slot} {req : GenerateRequest} {sel : Selection}
    (h : sel.Sound slots req) : sel.slot ∈ slots := by
  cases sel with
  | reuse slot n => exact h.1
  | free slot => exact h.1
  | evict slot => exact h.1

theorem admitInto_id (cfg : Config) (w : World) (entry : PendingRequest) (sel : Selection) :
    (admitInto cfg w entry sel).2.id = sel.slot.id := by
  cases sel with
  | reuse slot n =>
    simp only [admitInto, placePrompt, Selection.slot]
    split <;> rfl
  | free slot => rfl
  | evict slot => rfl

/-- Admission and completion set promises only through `setValue`. -/
theorem admitInto_answers (cfg : Config) (w : World) (entry : PendingRequest)
    (sel : Selection) : (admitInto cfg w entry sel).1.answers = w.answers := by
  cases sel with
  | reuse slot n =>
    simp only [admitInto, placePrompt]
    split
    · rfl
    · split <;> rfl
  | free slot =>
    simp only [admitInto, placePrompt, Nat.lt_irrefl, if_false]
    split <;> rfl
  | evict slot => rfl

/-! ## Steps -/

/-- The rejections of the admission loop. -/
inductive Rejected (cfg : Config) (req : GenerateRequest) : GenerateResult → Prop where
  | empty (h : req.tokens = []) : Rejected cfg req emptyTokenList
  | tooLong (h : cfg.nCtx ≤ req.tokens.length) :
      Rejected cfg req (promptTooLong cfg req.tokens.length)

/-- Number of tokens of the next chunk. -/
def State.chunkTokens (s : State) (chunkStart nBatch : Nat) : Nat :=
  min nBatch (s.batch.length - chunkStart)

/-- The world after a successful decode of the chunk. -/
def State.decoded (s : State) (chunkStart nTokens : Nat) : World :=
  { s.world with kv := llamaDecode s.world.kv (chunkView s.batch chunkStart nTokens) }

/-- Every step, with its guard and its result. -/
inductive StepCase (cfg : Config) (s : State) : Label → State → Prop where
  | submit (req : GenerateRequest) (h : s.phase ≠ .admission) :
      StepCase cfg s (.submit req) (submit cfg s req)
  | stop : StepCase cfg s .stop { s with running := false }
  | enter (o : Oracle) (hp : s.phase = .loopHead) (hr : s.running = true) :
      StepCase cfg s (.work o) { s with phase := .admission }
  | leave (o : Oracle) (hp : s.phase = .loopHead) (hr : s.running = false) :
      StepCase cfg s (.work o) { s with phase := .drainSlots }
  | admitDone (o : Oracle) (hp : s.phase = .admission) :
      StepCase cfg s (.work o) { s with phase := .build }
  | reject (o : Oracle) (hp : s.phase = .admission) (entry : PendingRequest)
      (rest : List PendingRequest) (hq : s.queue = entry :: rest) (res : GenerateResult)
      (hres : Rejected cfg entry.req res) :
      StepCase cfg s (.work o)
        { s with world := s.world.setValue entry.promise res, queue := rest }
  | accept (o : Oracle) (hp : s.phase = .admission) (entry : PendingRequest)
      (rest : List PendingRequest) (hq : s.queue = entry :: rest)
      (hne : entry.req.tokens ≠ []) (hlen : entry.req.tokens.length < cfg.nCtx)
      (sel : Selection) (hsel : selectSlot s.slots entry.req = some sel) :
      StepCase cfg s (.work o)
        { s with
          world := (admitInto cfg s.world entry sel).1
          slots := updateSlot s.slots (admitInto cfg s.world entry sel).2
          queue := rest }
  | idle (o : Oracle) (hp : s.phase = .build) (hb : ∀ slot ∈ s.slots, slot.isBusy = false) :
      StepCase cfg s (.work o) { s with phase := .loopHead }
  | build (o : Oracle) (hp : s.phase = .build) (hb : ∃ slot ∈ s.slots, slot.isBusy = true) :
      StepCase cfg s (.work o)
        { s with
          world := (forEach buildSlot (s.world, []) s.slots).1.1
          batch := (forEach buildSlot (s.world, []) s.slots).1.2
          slots := (forEach buildSlot (s.world, []) s.slots).2
          phase := if (forEach buildSlot (s.world, []) s.slots).1.2 = [] then .loopHead
            else .decode 0 cfg.nBatch }
  | decodeDone (o : Oracle) (cs nb : Nat) (hp : s.phase = .decode cs nb)
      (hcs : s.batch.length ≤ cs) : StepCase cfg s (.work o) { s with phase := .loopHead }
  | decodeFail (o : Oracle) (cs nb : Nat) (hp : s.phase = .decode cs nb)
      (hcs : cs < s.batch.length) (hret : o.ret ≠ 0) (hfail : nb = 1 ∨ o.ret < 0) :
      StepCase cfg s (.work o)
        { s with
          world := (forEach (failSlot cs o) s.world s.slots).1
          slots := (forEach (failSlot cs o) s.world s.slots).2
          phase := .loopHead }
  | decodeRetry (o : Oracle) (cs nb : Nat) (hp : s.phase = .decode cs nb)
      (hcs : cs < s.batch.length) (hret : 0 < o.ret) (hnb : nb ≠ 1) :
      StepCase cfg s (.work o) { s with phase := .decode cs (nb / 2) }
  | decodeOk (o : Oracle) (cs nb : Nat) (hp : s.phase = .decode cs nb)
      (hcs : cs < s.batch.length) (hret : o.ret = 0) :
      StepCase cfg s (.work o)
        { s with
          world := (forEach (sampleInChunk cfg o cs (s.chunkTokens cs nb))
            (s.decoded cs (s.chunkTokens cs nb)) s.slots).1
          slots := (forEach (sampleInChunk cfg o cs (s.chunkTokens cs nb))
            (s.decoded cs (s.chunkTokens cs nb)) s.slots).2
          phase := .decode (cs + s.chunkTokens cs nb) cfg.nBatch }
  | drainSlots (o : Oracle) (hp : s.phase = .drainSlots) :
      StepCase cfg s (.work o)
        { s with
          world := (forEach (drainSlot o) s.world s.slots).1
          slots := (forEach (drainSlot o) s.world s.slots).2
          phase := .drainQueue }
  | drainQueue (o : Oracle) (hp : s.phase = .drainQueue) :
      StepCase cfg s (.work o) (drainQueue s)

theorem admission_cases {cfg : Config} {s : State} (o : Oracle) (hp : s.phase = .admission) :
    StepCase cfg s (.work o) (tryAdmitFront cfg s) := by
  unfold tryAdmitFront
  split
  · exact .admitDone o hp
  · rename_i entry rest hq
    split
    · rename_i he
      exact .reject o hp entry rest hq _ (.empty he)
    · rename_i hne
      split
      · rename_i hlen
        exact .reject o hp entry rest hq _ (.tooLong hlen)
      · rename_i hlen
        split
        · exact .admitDone o hp
        · rename_i sel hsel
          exact .accept o hp entry rest hq hne (by omega) sel hsel

theorem build_cases {cfg : Config} {s : State} (o : Oracle) (hp : s.phase = .build) :
    StepCase cfg s (.work o) (buildBatch cfg s) := by
  unfold buildBatch
  split
  · rename_i hb
    refine .idle o hp ?_
    simpa using hb
  · rename_i hb
    refine .build o hp ?_
    simpa using hb

theorem decode_cases {cfg : Config} {s : State} (o : Oracle) {cs nb : Nat}
    (hp : s.phase = .decode cs nb) :
    StepCase cfg s (.work o) (decodeChunk cfg o s cs nb) := by
  unfold decodeChunk
  split
  · rename_i hcs
    exact .decodeDone o cs nb hp hcs
  · rename_i hcs
    dsimp only
    split
    · rename_i hret
      split
      · rename_i hfail
        exact .decodeFail o cs nb hp (by omega) hret hfail
      · rename_i hfail
        exact .decodeRetry o cs nb hp (by omega) (by omega) (by tauto)
    · rename_i hret
      exact .decodeOk o cs nb hp (by omega) (by omega)

/-- A step is one of the cases. -/
theorem step_cases {cfg : Config} {s t : State} {l : Label} (h : step cfg s l = some t) :
    StepCase cfg s l t := by
  cases l with
  | submit req =>
    by_cases hp : s.phase = .admission
    · simp [step, State.queueLocked, hp] at h
    · simp only [step, State.queueLocked, beq_eq_false_iff_ne.mpr hp, Bool.false_eq_true,
        if_false, Option.some.injEq] at h
      subst h
      exact .submit req hp
  | stop =>
    cases h
    exact .stop
  | work o =>
    simp only [step, workerStep] at h
    split at h
    · rename_i hp
      cases h
      rcases Bool.eq_false_or_eq_true s.running with hr | hr
      · simp only [hr, if_true]
        exact hr ▸ .enter o hp hr
      · simp only [hr, Bool.false_eq_true, if_false]
        exact hr ▸ .leave o hp hr
    · rename_i hp
      cases h
      exact admission_cases o hp
    · rename_i hp
      cases h
      exact build_cases o hp
    · rename_i cs nb hp
      cases h
      exact decode_cases o hp
    · rename_i hp
      cases h
      exact .drainSlots o hp
    · rename_i hp
      cases h
      exact .drainQueue o hp
    · cases h

/-! ## A small scheduler for concrete runs -/

/-- Token 2 ends generation; every other token is one letter. -/
def tinyVocab : LlamaVocab where
  isEog tok := tok == 2
  eos := 2
  typed := true
  piece _ _ := [65]

def tinyConfig (nCtx maxSeqs : Nat) : Config where
  nCtx := nCtx
  nBatch := 8
  nBatch_pos := by decide
  maxSeqs := maxSeqs
  maxQueue := 2
  defaultSmp := {}
  vocab := tinyVocab

/-- `n` worker steps in which every decode succeeds and every slot samples `tok`. -/
def works (n : Nat) (tok : Token) : List Label :=
  List.replicate n (.work { sample := fun _ => tok })

end TruellmEngine.Scheduler
