/-
  The chunk loop of the scheduler: the batch is decoded chunk by chunk, a failed chunk is
  tried again at half the chunk size, a decoded chunk is sampled at once.

  The loop is entered at `.decode 0 n_batch` and left at `.loopHead`. While the worker is
  inside, clients may submit and the destructor may stop, so a pass through the loop is a
  run of the machine that takes every step inside the loop (`Pass`).

  * A chunk or a retry makes `loopRank` less: a chunk the part of the batch ahead, a retry
    the chunk size, which a decoded chunk sets back to `n_batch`.
  * `passed`: what a pass decodes, samples and fails, by induction on its labels. That a slot
    was sampled is read off its request: it has one token more, or was answered (`Sampled`).
  * `chunk_loop`: the worker leaves the loop whatever the decodes return, with a prefix of
    the batch decoded in order, the slots with a logit in it sampled once and the requests
    of the others answered with an error once.
-/
import TruellmEngine.Scheduler.LogitIndex
import Mathlib.Algebra.Order.BigOperators.Group.List
import Mathlib.Algebra.Order.Ring.Nat

namespace TruellmEngine.Scheduler

open Lib

variable {cfg : Config} {s t : State}

/-! ## Termination -/

/-- The worker is inside the chunk loop. -/
def InLoop (s : State) : Prop := ∃ cs nb, s.phase = .decode cs nb

/-- A run that starts in the chunk loop and takes no step outside of it. -/
def Pass (cfg : Config) (s : State) (ls : List Label) (t : State) : Prop :=
  AllSteps (step cfg) (fun u _ => InLoop u) s ls ∧ run (step cfg) s ls = some t

def Label.isWork : Label → Bool
  | .work _ => true
  | _ => false

/-- What is left to do: a decoded chunk costs less than one chunk size per token. -/
def loopRank (cfg : Config) (s : State) : Nat :=
  match s.phase with
  | .decode cs nb => (s.batch.length - cs) * (cfg.nBatch + 1) + nb + 1
  | _ => 0

theorem loopRank_decode {cs nb : Nat} (hp : s.phase = .decode cs nb) :
    loopRank cfg s = (s.batch.length - cs) * (cfg.nBatch + 1) + nb + 1 := by
  unfold loopRank
  rw [hp]

/-- Inside the loop every step of the worker makes the rank less; no other step raises it. -/
theorem loopRank_step {l : Label} (h : LoopInv cfg s) (hin : InLoop s)
    (hst : step cfg s l = some t) :
    loopRank cfg t + (if l.isWork then 1 else 0) ≤ loopRank cfg s := by
  obtain ⟨cs₀, nb₀, hp₀⟩ := hin
  cases step_cases hst with
  | submit req hp =>
    unfold submit
    dsimp only
    split
    · exact Nat.le_refl _
    · exact Nat.le_refl _
  | stop => exact Nat.le_refl _
  | decodeDone o cs nb hp hcs =>
    rw [loopRank_decode hp]
    show 0 + 1 ≤ _
    omega
  | decodeFail o cs nb hp hcs hret hfail =>
    rw [loopRank_decode hp]
    show 0 + 1 ≤ _
    omega
  | decodeRetry o cs nb hp hcs hret hnb =>
    have hpos := (h.chunk cs nb hp).2.1
    rw [loopRank_decode hp]
    show (s.batch.length - cs) * (cfg.nBatch + 1) + nb / 2 + 1 + 1 ≤ _
    omega
  | decodeOk o cs nb hp hcs hret =>
    obtain ⟨hpos, hend⟩ := chunkTokens_bounds hcs (h.chunk cs nb hp).2.1
    have hmul : (s.batch.length - (cs + s.chunkTokens cs nb) + 1) * (cfg.nBatch + 1) ≤
        (s.batch.length - cs) * (cfg.nBatch + 1) :=
      Nat.mul_le_mul_right _ (by omega)
    rw [Nat.add_mul, Nat.one_mul] at hmul
    rw [loopRank_decode hp]
    show (s.batch.length - (cs + s.chunkTokens cs nb)) * (cfg.nBatch + 1) + cfg.nBatch + 1 + 1
      ≤ _
    have := (h.chunk cs nb hp).2.1
    omega
  | enter o hp hr => simp [hp₀] at hp
  | leave o hp hr => simp [hp₀] at hp
  | admitDone o hp => simp [hp₀] at hp
  | reject o hp entry rest hq res hres => simp [hp₀] at hp
  | accept o hp entry rest hq hne hlen sel hsel => simp [hp₀] at hp
  | idle o hp hb => simp [hp₀] at hp
  | build o hp hb => simp [hp₀] at hp
  | drainSlots o hp => simp [hp₀] at hp
  | drainQueue o hp => simp [hp₀] at hp

/-- A step inside the loop stays inside or leads to the loop head. -/
theorem phase_step {l : Label} (hin : InLoop s) (hst : step cfg s l = some t) :
    InLoop t ∨ t.phase = .loopHead := by
  obtain ⟨cs₀, nb₀, hp₀⟩ := hin
  cases step_cases hst with
  | submit req hp =>
    refine Or.inl ⟨cs₀, nb₀, ?_⟩
    unfold submit
    dsimp only
    split
    · exact hp₀
    · exact hp₀
  | stop => exact Or.inl ⟨cs₀, nb₀, hp₀⟩
  | decodeDone o cs nb hp hcs => exact Or.inr rfl
  | decodeFail o cs nb hp hcs hret hfail => exact Or.inr rfl
  | decodeRetry o cs nb hp hcs hret hnb => exact Or.inl ⟨cs, nb / 2, rfl⟩
  | decodeOk o cs nb hp hcs hret => exact Or.inl ⟨_, _, rfl⟩
  | enter o hp hr => simp [hp₀] at hp
  | leave o hp hr => simp [hp₀] at hp
  | admitDone o hp => simp [hp₀] at hp
  | reject o hp entry rest hq res hres => simp [hp₀] at hp
  | accept o hp entry rest hq hne hlen sel hsel => simp [hp₀] at hp
  | idle o hp hb => simp [hp₀] at hp
  | build o hp hb => simp [hp₀] at hp
  | drainSlots o hp => simp [hp₀] at hp
  | drainQueue o hp => simp [hp₀] at hp

/-- The worker is never stuck inside the loop. -/
theorem work_enabled (hin : InLoop s) (o : Oracle) : ∃ t, step cfg s (.work o) = some t := by
  obtain ⟨cs, nb, hp⟩ := hin
  refine ⟨decodeChunk cfg o s cs nb, ?_⟩
  show workerStep cfg o s = _
  unfold workerStep
  rw [hp]

/-- Whatever the decodes return, the worker alone leaves the loop for the loop head. -/
theorem pass_ends (h : LoopInv cfg s) (hin : InLoop s) (os : Nat → Oracle) :
    ∃ n t, Pass cfg s ((List.range n).map fun i => .work (os i)) t ∧
      t.phase = .loopHead := by
  have hstep : ∀ (u : State) (l : Label), (∃ o, l = .work o) →
      (LoopInv cfg u ∧ (InLoop u ∨ u.phase = .loopHead)) → InLoop u →
      ∃ v, step cfg u l = some v ∧ (LoopInv cfg v ∧ (InLoop v ∨ v.phase = .loopHead)) ∧
        loopRank cfg v < loopRank cfg u := by
    rintro u l ⟨o, rfl⟩ ⟨hu, -⟩ hinu
    obtain ⟨v, hv⟩ := @work_enabled cfg u hinu o
    refine ⟨v, hv, ⟨loopInv_step hu hv, phase_step hinu hv⟩, ?_⟩
    exact loopRank_step hu hinu hv
  obtain ⟨n, t, hall, hrun, ⟨-, hpt⟩, hout⟩ :=
    exists_run_leaves hstep ⟨h, Or.inl hin⟩ (fun i => .work (os i)) fun i => ⟨os i, rfl⟩
  exact ⟨n, t, ⟨hall, hrun⟩, hpt.resolve_left hout⟩

/-! ## What a pass does -/

/-- What a step of the worker does inside the loop. -/
inductive ChunkEvent where
  | decoded (chunkStart nTokens : Nat)
  | retried
  | failed
  | finished
  deriving DecidableEq, Repr

def ChunkEvent.chunk : ChunkEvent → Option (Nat × Nat)
  | .decoded chunkStart nTokens => some (chunkStart, nTokens)
  | _ => none

def chunkEvent (s : State) : Label → Option ChunkEvent
  | .work o =>
    match s.phase with
    | .decode cs nb =>
      if s.batch.length ≤ cs then some .finished
      else if o.ret = 0 then some (.decoded cs (s.chunkTokens cs nb))
      else if nb = 1 ∨ o.ret < 0 then some .failed
      else some .retried
    | _ => none
  | _ => none

/-- The events of a run. -/
def chunkEvents (cfg : Config) : State → List Label → List ChunkEvent
  | _, [] => []
  | s, l :: ls =>
    match step cfg s l with
    | none => []
    | some t => (chunkEvent s l).toList ++ chunkEvents cfg t ls

/-- The ranges lie one behind the other from `a` to `b`, none of them empty. -/
def Consecutive : Nat → List (Nat × Nat) → Nat → Prop
  | a, [], b => a = b
  | a, (start, n) :: rest, b => start = a ∧ 0 < n ∧ Consecutive (a + n) rest b

theorem Consecutive.le {a b : Nat} {rs : List (Nat × Nat)} (h : Consecutive a rs b) :
    a ≤ b := by
  induction rs generalizing a with
  | nil => exact Nat.le_of_eq h
  | cons r rs ih =>
    obtain ⟨-, -, hrest⟩ := h
    have := ih hrest
    omega

/-- Consecutive chunks hold the tokens of their whole range, each once and in order. -/
theorem Consecutive.tokens {a b : Nat} {rs : List (Nat × Nat)} (h : Consecutive a rs b)
    (batch : List BatchEntry) :
    rs.flatMap (fun r => chunkView batch r.1 r.2) = (batch.drop a).take (b - a) := by
  induction rs generalizing a with
  | nil =>
    have hab : a = b := h
    subst hab
    simp
  | cons r rs ih =>
    obtain ⟨start, n⟩ := r
    obtain ⟨rfl, hn, hrest⟩ := h
    have hle := hrest.le
    have hsum : b - start = n + (b - (start + n)) := by omega
    rw [List.flatMap_cons, ih hrest, hsum, List.take_add, List.drop_drop]
    rfl

/-! ### What becomes of a slot -/

/-- The token `tok` was sampled for the slot once: its request goes on with the token, or was
    answered with it. Of an end-of-generation token the answer shows nothing. -/
structure Sampled (cfg : Config) (slot : Slot) (tok : Token) (slot' : Slot)
    (answers : List GenerateResult) : Prop where
  id : slot'.id = slot.id
  token : slot'.sampled = tok
  taken : slot'.iBatch = -1
  outcome :
    (slot'.isBusy = true ∧ slot'.promise = slot.promise ∧
      slot'.genTokenIds = slot.genTokenIds ++ [tok] ∧ answers = []) ∨
    (slot'.isBusy = false ∧ ∃ res, answers = [res] ∧ res.error = .ok ∧
      res.tokens = slot.genTokenIds ++ if cfg.vocab.isEog tok then [] else [tok])

/-- The slot was completed with an error once, and nothing was sampled for it. -/
structure Failed (slot slot' : Slot) (answers : List GenerateResult) : Prop where
  id : slot'.id = slot.id
  notBusy : slot'.isBusy = false
  outcome : ∃ res, answers = [res] ∧ res.error = .internalError ∧ res.tokens = slot.genTokenIds

theorem completeSlot_sampled (w : World) (slot : Slot) (now : Int) (ec : ErrorCode)
    (msg fr : String) : (completeSlot w slot now ec msg fr).2.sampled = slot.sampled := by
  unfold completeSlot
  dsimp only
  split
  · rfl
  · rfl

theorem completeSlot_iBatch (w : World) (slot : Slot) (now : Int) (ec : ErrorCode)
    (msg fr : String) : (completeSlot w slot now ec msg fr).2.iBatch = -1 := by
  unfold completeSlot
  dsimp only
  split
  · rfl
  · rfl

/-- The answer that the sampled token gives, if it ends the request. -/
def sampleAnswers (cfg : Config) (slot : Slot) (tok : Token) : List GenerateResult :=
  let after := emitted cfg slot tok
  if cfg.vocab.isEog tok then [slotResult (takeSample slot tok) .ok "" "stop"]
  else if matchesStop after || maxHit after || stopById after tok then
    [slotResult after .ok "" (if maxHit after then "length" else "stop")]
  else []

theorem sampleSlot_sampled (w : World) {slot : Slot} (hb : slot.isBusy = true) (tok : Token)
    (now : Int) :
    (sampleSlot cfg w slot tok now).1.answers =
        w.answers ++ (sampleAnswers cfg slot tok).map (Prod.mk slot.promise) ∧
      Sampled cfg slot tok (sampleSlot cfg w slot tok now).2 (sampleAnswers cfg slot tok) := by
  unfold sampleAnswers
  by_cases heog : cfg.vocab.isEog tok = true
  · rw [sampleSlot_eog heog, if_pos heog, completeSlot_answers]
    refine ⟨rfl, completeSlot_id .., completeSlot_sampled .., completeSlot_iBatch .., Or.inr ?_⟩
    refine ⟨completeSlot_not_busy .., _, rfl, rfl, ?_⟩
    rw [if_pos heog, List.append_nil]
    rfl
  · have heog' : cfg.vocab.isEog tok = false := by simpa using heog
    dsimp only
    rw [if_neg heog]
    by_cases hend : EndsRequest cfg slot tok
    · rw [sampleSlot_ends heog' hend, if_pos ((stops_iff cfg slot tok).mpr hend),
        completeSlot_answers, callOnToken_answers]
      refine ⟨rfl, completeSlot_id .., completeSlot_sampled .., completeSlot_iBatch .., Or.inr ?_⟩
      refine ⟨completeSlot_not_busy .., _, rfl, rfl, ?_⟩
      rw [if_neg heog]
      rfl
    · rw [sampleSlot_continues heog' hend, if_neg (mt (stops_iff cfg slot tok).mp hend),
        callOnToken_answers]
      exact ⟨(List.append_nil _).symm, rfl, rfl, rfl, Or.inl ⟨hb, rfl, rfl, rfl⟩⟩

/-! ### The answers of a loop over the slots -/

/-- The slot waits for a logit from `cs` on. -/
def Slot.Waits (cs : Nat) (slot : Slot) : Prop := slot.isBusy = true ∧ (cs : Int) ≤ slot.iBatch

instance (cs : Nat) (slot : Slot) : Decidable (slot.Waits cs) :=
  inferInstanceAs (Decidable (_ ∧ _))

/-- Whether the request `p` of the slot still waits for a logit from `cs` on. -/
def Slot.owesFrom (cs p : Nat) (slot : Slot) : Nat :=
  if slot.Waits cs ∧ slot.promise = p then 1 else 0

def State.owedFrom (s : State) (cs p : Nat) : Nat := (s.slots.map (Slot.owesFrom cs p)).sum

/-- A body that gives the request of its slot these answers, and does nothing for a slot that
    waits for no logit from `cs` on. -/
structure AnswersOwn (f : World → Slot → World × Slot) (g : Slot → List GenerateResult)
    (cs : Nat) : Prop where
  appends : ∀ w slot, (f w slot).1.answers = w.answers ++ (g slot).map (Prod.mk slot.promise)
  skips : ∀ w slot, ¬ slot.Waits cs → f w slot = (w, slot)

theorem entriesOf_own {β : Type} (p : Nat) (bs : List β) :
    entriesOf p (bs.map (Prod.mk p)) = bs := by
  unfold entriesOf
  rw [List.filter_eq_self.mpr, List.map_map]
  · exact List.map_id bs
  · intro a ha
    obtain ⟨b, -, rfl⟩ := List.mem_map.mp ha
    exact beq_self_eq_true p

namespace AnswersOwn

variable {f : World → Slot → World × Slot} {g : Slot → List GenerateResult} {cs : Nat}
  {slots : List Slot} {slot : Slot} {p : Nat}

/-- What is answered to a request that the slot does not wait with. -/
theorem entries_other (hf : AnswersOwn f g cs) (h : ¬ (slot.Waits cs ∧ slot.promise = p)) :
    entriesOf p ((g slot).map (Prod.mk slot.promise)) = [] := by
  by_cases hp : slot.promise = p
  · have happ := hf.appends ⟨KvCache.empty, [], []⟩ slot
    rw [hf.skips _ slot fun hw => h ⟨hw, hp⟩] at happ
    rw [← List.nil_append (List.map _ _), ← happ, entriesOf_nil]
  · unfold entriesOf
    rw [List.filter_eq_nil_iff.mpr, List.map_nil]
    intro a ha
    obtain ⟨res, -, rfl⟩ := List.mem_map.mp ha
    simpa using hp

theorem loop_appends (hf : AnswersOwn f g cs) (w : World) :
    (forEach f w slots).1.answers =
      w.answers ++ slots.flatMap fun slot => (g slot).map (Prod.mk slot.promise) :=
  forEach_appends World.answers _ hf.appends w slots

/-- A request that no slot waits with. -/
theorem loop_quiet (hf : AnswersOwn f g cs) (h : (slots.map (Slot.owesFrom cs p)).sum = 0)
    (w : World) : entriesOf p (forEach f w slots).1.answers = entriesOf p w.answers := by
  rw [hf.loop_appends, entriesOf_append, entriesOf_flatMap, List.flatMap_eq_nil_iff.mpr,
    List.append_nil]
  intro slot hs
  refine hf.entries_other fun hwaits => ?_
  have hle : slot.owesFrom cs p ≤ (slots.map (Slot.owesFrom cs p)).sum :=
    List.le_sum_of_mem (List.mem_map_of_mem hs)
  have hone : slot.owesFrom cs p = 1 := if_pos hwaits
  omega

/-- The request of a busy slot. -/
theorem loop_own (hf : AnswersOwn f g cs) (hone : ∀ p, (slots.map (Slot.owes p)).sum ≤ 1)
    (hs : slot ∈ slots) (hb : slot.isBusy = true) (w : World) :
    entriesOf slot.promise (forEach f w slots).1.answers =
      entriesOf slot.promise w.answers ++ g slot := by
  have howner := entries_owner slot.promise
    (g := fun slot => (g slot).map (Prod.mk slot.promise)) ?_ (hone _) hs ?_ w.answers
  · rw [hf.loop_appends, howner, entriesOf_own]
  · intro u hu
    refine hf.entries_other ?_
    rintro ⟨hwaits, hp⟩
    rw [owes_of_busy hwaits.1, if_pos hp] at hu
    cases hu
  · rw [owes_of_busy hb, if_pos rfl]

/-- A slot that does not wait is as it was behind the loop. -/
theorem loop_kept (hf : AnswersOwn f g cs) (hs : slot ∈ slots) (h : ¬ slot.Waits cs)
    (w : World) : slot ∈ (forEach f w slots).2 := by
  obtain ⟨slot', hs', w', rfl⟩ := forall₂_mem_left
    (forEach_forall₂ (R := fun a a' => ∃ w', a' = (f w' a).2) (fun w' a => ⟨w', rfl⟩) w slots) hs
  rwa [hf.skips w' slot h] at hs'

end AnswersOwn

/-- The sampling of a chunk. -/
theorem sampleInChunk_own (cfg : Config) (o : Oracle) (cs n : Nat) :
    AnswersOwn (sampleInChunk cfg o cs n)
      (fun slot => if InChunk cs n slot then sampleAnswers cfg slot (o.sample slot.id) else [])
      cs where
  appends w slot := by
    by_cases hin : InChunk cs n slot
    · rw [sampleInChunk_samples o w hin, if_pos hin]
      exact (sampleSlot_sampled w hin.1 _ _).1
    · rw [sampleInChunk_skips o w hin, if_neg hin]
      exact (List.append_nil _).symm
  skips w slot h := sampleInChunk_skips o w fun hin => h ⟨hin.1, hin.2.1⟩

theorem failSlot_completes (o : Oracle) (w : World) {cs : Nat} {slot : Slot}
    (h : slot.Waits cs) : failSlot cs o w slot =
      completeSlot w slot (o.now slot.id) .internalError "llama_decode failed" "stop" := if_pos h

/-- An unrecoverable failure. -/
theorem failSlot_own (o : Oracle) (cs : Nat) :
    AnswersOwn (failSlot cs o)
      (fun slot => if slot.Waits cs then
        [slotResult slot .internalError "llama_decode failed" "stop"] else []) cs where
  appends w slot := by
    by_cases h : slot.Waits cs
    · rw [failSlot_completes o w h, if_pos h]
      exact completeSlot_answers ..
    · rw [failSlot_skips o w h, if_neg h]
      exact (List.append_nil _).symm
  skips w slot h := failSlot_skips o w h

/-! ### The pass -/

/-- What a pass from `cs` with the labels `ls` to the state `t` did: the chunks decoded lie one
    behind the other up to `m`, for a slot that waited with its logit before `m` a token was
    sampled once, and at the loop head the others that waited have failed. -/
structure Passed (cfg : Config) (s : State) (ls : List Label) (t : State) (cs m : Nat) :
    Prop where
  chunks : Consecutive cs ((chunkEvents cfg s ls).filterMap ChunkEvent.chunk) m
  inBatch : m ≤ s.batch.length
  kept : ∀ slot ∈ s.slots, ¬ slot.Waits cs → slot ∈ t.slots
  quiet : ∀ p < s.submitted.length, s.owedFrom cs p = 0 →
    entriesOf p t.world.answers = entriesOf p s.world.answers
  sampled : ∀ slot ∈ s.slots, slot.Waits cs → slot.iBatch < m →
    ∃ o, .work o ∈ ls ∧ ∃ slot' ∈ t.slots,
      Sampled cfg slot (o.sample slot.id) slot' (entriesOf slot.promise t.world.answers)
  failed : t.phase = .loopHead → ∀ slot ∈ s.slots, slot.Waits cs → (m : Int) ≤ slot.iBatch →
    ∃ slot' ∈ t.slots, Failed slot slot' (entriesOf slot.promise t.world.answers)
  whole : t.phase = .loopHead → ChunkEvent.failed ∉ chunkEvents cfg s ls → m = s.batch.length

/-- A busy slot waits for its request alone, and its promise is not set. -/
theorem busy_owes (h : LoopInv cfg s) {slot : Slot} (hs : slot ∈ s.slots)
    (hb : slot.isBusy = true) :
    s.owed slot.promise = 1 ∧ slot.promise < s.submitted.length ∧
      entriesOf slot.promise s.world.answers = [] := by
  have hone : slot.owes slot.promise = 1 := by rw [owes_of_busy hb, if_pos rfl]
  have hle : slot.owes slot.promise ≤ s.owed slot.promise :=
    List.le_sum_of_mem (List.mem_map_of_mem hs)
  have hacc := h.accounted slot.promise
  have hnone : s.world.answered slot.promise = 0 → entriesOf slot.promise s.world.answers = [] := by
    intro hzero
    unfold entriesOf
    rw [List.filter_eq_nil_iff.mpr (List.countP_eq_zero.mp hzero), List.map_nil]
  split_ifs at hacc with hlt
  · exact ⟨by omega, hlt, hnone (by omega)⟩
  · omega

theorem owesFrom_le (cs p : Nat) (slot : Slot) : slot.owesFrom cs p ≤ slot.owes p := by
  unfold Slot.owesFrom Slot.owes Slot.Waits
  by_cases h : (slot.isBusy = true ∧ (cs : Int) ≤ slot.iBatch) ∧ slot.promise = p
  · rw [if_pos h, if_pos ⟨h.1.1, h.2⟩]
  · rw [if_neg h]
    exact Nat.zero_le _

/-- Where a busy slot's logit lies before `cs`, no slot waits with its request from there on. -/
theorem owedFrom_behind (h : LoopInv cfg s) {slot : Slot} (hs : slot ∈ s.slots)
    (hb : slot.isBusy = true) {cs : Nat} (hlt : slot.iBatch < cs) :
    s.owedFrom cs slot.promise = 0 := by
  have howed := (busy_owes h hs hb).1
  have hless : s.owedFrom cs slot.promise < s.owed slot.promise := by
    refine List.sum_lt_sum _ _ (fun u _ => owesFrom_le cs slot.promise u) ⟨slot, hs, ?_⟩
    unfold Slot.owesFrom Slot.owes Slot.Waits
    rw [if_neg (by omega), if_pos ⟨hb, rfl⟩]
    exact Nat.one_pos
  omega

theorem owedFrom_mono (s : State) {cs cs' : Nat} (hle : cs ≤ cs') (p : Nat)
    (h : s.owedFrom cs p = 0) : s.owedFrom cs' p = 0 := by
  refine Nat.le_zero.mp (h ▸ List.sum_le_sum fun slot _ => ?_)
  unfold Slot.owesFrom Slot.Waits
  split_ifs with h1 h2 h2
  · exact Nat.le_refl _
  · exact absurd ⟨⟨h1.1.1, by omega⟩, h1.2⟩ h2
  · exact Nat.zero_le _
  · exact Nat.le_refl _

/-- Behind the last step taken, if nothing waits for a chunk that was not decoded. -/
theorem passed_nil (h : LoopInv cfg s) {cs nb : Nat} (hp : s.phase = .decode cs nb) :
    Passed cfg s [] s cs cs where
  chunks := rfl
  inBatch := (h.chunk cs nb hp).1
  kept _ hs _ := hs
  quiet _ _ _ := rfl
  sampled slot _ hwaits hlt := by
    have := hwaits.2
    omega
  failed hhead := by
    rw [hp] at hhead
    cases hhead
  whole hhead := by
    rw [hp] at hhead
    cases hhead

theorem chunkEvents_cons {l : Label} {ls : List Label} (hst : step cfg s l = some t) :
    chunkEvents cfg s (l :: ls) = (chunkEvent s l).toList ++ chunkEvents cfg t ls := by
  simp only [chunkEvents, hst]

/-- A step in front of a pass that decodes nothing and touches no slot of the batch. -/
theorem Passed.of_same {u v : State} {l : Label} {ls : List Label} {cs m : Nat}
    (h : Passed cfg v ls u cs m) (hst : step cfg s l = some v)
    (hev : (chunkEvent s l).toList.filterMap ChunkEvent.chunk = [])
    (hb : v.batch = s.batch) (hs : v.slots = s.slots)
    (hsub : s.submitted.length ≤ v.submitted.length)
    (hans : ∀ p < s.submitted.length,
      entriesOf p v.world.answers = entriesOf p s.world.answers) :
    Passed cfg s (l :: ls) u cs m where
  chunks := by
    rw [chunkEvents_cons hst, List.filterMap_append, hev, List.nil_append]
    exact h.chunks
  inBatch := hb ▸ h.inBatch
  kept := hs ▸ h.kept
  quiet p hp howed := by
    have hsame : v.owedFrom cs p = 0 := by
      unfold State.owedFrom at howed ⊢
      rwa [hs]
    exact (h.quiet p (Nat.lt_of_lt_of_le hp hsub) hsame).trans (hans p hp)
  sampled slot hslot hwaits hlt := by
    obtain ⟨o, ho, hafter⟩ := h.sampled slot (hs ▸ hslot) hwaits hlt
    exact ⟨o, List.mem_cons_of_mem l ho, hafter⟩
  failed := hs ▸ h.failed
  whole hhead hno := by
    rw [chunkEvents_cons hst, List.mem_append, not_or] at hno
    exact hb ▸ h.whole hhead hno.2

theorem submit_same (cfg : Config) (s : State) (req : GenerateRequest) :
    (submit cfg s req).batch = s.batch ∧ (submit cfg s req).slots = s.slots ∧
      (submit cfg s req).phase = s.phase := by
  unfold submit
  dsimp only
  split
  · exact ⟨rfl, rfl, rfl⟩
  · exact ⟨rfl, rfl, rfl⟩

/-- A submit answers no request but the new one. -/
theorem submit_answers (cfg : Config) (s : State) (req : GenerateRequest) :
    s.submitted.length ≤ (submit cfg s req).submitted.length ∧
      ∀ p < s.submitted.length,
        entriesOf p (submit cfg s req).world.answers = entriesOf p s.world.answers := by
  unfold submit
  dsimp only
  split
  · refine ⟨by simp, fun p hp => ?_⟩
    refine (entriesOf_append p _ _).trans ?_
    rw [entriesOf_other (Nat.ne_of_gt hp), List.append_nil]
  · exact ⟨by simp, fun _ _ => rfl⟩

/-- No slot waits for a logit behind the batch. -/
theorem not_waits_end (h : LoopInv cfg s) {cs nb : Nat} (hp : s.phase = .decode cs nb)
    {slot : Slot} (hs : slot ∈ s.slots) (hb : slot.isBusy = true) :
    slot.iBatch < s.batch.length := by
  rcases (h.busy slot hs hb).decode hp with ⟨hlog, -⟩ | ⟨-, htaken⟩
  · exact hlog.lt
  · have := htaken.2
    omega

/-- The batch is used up. -/
theorem passed_done (h : LoopInv cfg s) {cs nb : Nat} (hp : s.phase = .decode cs nb) {l : Label}
    (hcs : s.batch.length ≤ cs) (hst : step cfg s l = some { s with phase := .loopHead })
    (hev : (chunkEvent s l).toList = [.finished]) :
    Passed cfg s [l] { s with phase := .loopHead } cs cs := by
  have hlen : cs = s.batch.length := Nat.le_antisymm (h.chunk cs nb hp).1 hcs
  have hevents : chunkEvents cfg s [l] = [.finished] := by
    rw [chunkEvents_cons hst, hev]
    rfl
  refine ⟨?_, (h.chunk cs nb hp).1, fun _ hs _ => hs, fun _ _ _ => rfl, ?_, ?_, ?_⟩
  · rw [hevents]
    rfl
  · intro slot _ hwaits hlt
    have := hwaits.2
    omega
  · intro _ slot hs hwaits hle
    have := not_waits_end h hp hs hwaits.1
    omega
  · exact fun _ _ => hlen

/-- The pass ends with an unrecoverable failure. -/
theorem passed_fail (h : LoopInv cfg s) {cs nb : Nat} (hp : s.phase = .decode cs nb) {l : Label}
    (o : Oracle) (hst : step cfg s l = some
      { s with
        world := (forEach (failSlot cs o) s.world s.slots).1
        slots := (forEach (failSlot cs o) s.world s.slots).2
        phase := .loopHead })
    (hev : (chunkEvent s l).toList = [.failed]) :
    Passed cfg s [l]
      { s with
        world := (forEach (failSlot cs o) s.world s.slots).1
        slots := (forEach (failSlot cs o) s.world s.slots).2
        phase := .loopHead }
      cs cs := by
  have hown := failSlot_own o cs
  have hevents : chunkEvents cfg s [l] = [.failed] := by
    rw [chunkEvents_cons hst, hev]
    rfl
  refine ⟨?_, (h.chunk cs nb hp).1, ?_, ?_, ?_, ?_, ?_⟩
  · rw [hevents]
    rfl
  · exact fun slot hs hwaits => hown.loop_kept hs hwaits s.world
  · exact fun p _ howed => hown.loop_quiet howed s.world
  · intro slot _ hwaits hlt
    have := hwaits.2
    omega
  · intro _ slot hs hwaits _
    obtain ⟨slot', hs', w, rfl⟩ := forall₂_mem_left
      (forEach_forall₂ (R := fun a a' => ∃ w, a' = (failSlot cs o w a).2) (fun w a => ⟨w, rfl⟩)
        s.world s.slots) hs
    refine ⟨_, hs', ?_⟩
    have hanswers := hown.loop_own h.owed_le hs hwaits.1 s.world
    rw [(busy_owes h hs hwaits.1).2.2, if_pos hwaits, List.nil_append] at hanswers
    dsimp only
    rw [hanswers, failSlot_completes o w hwaits]
    exact ⟨completeSlot_id .., completeSlot_not_busy .., _, rfl, rfl, rfl⟩
  · rw [hevents]
    exact fun _ hno => absurd List.mem_cons_self hno

/-- Sampling a chunk leaves the slots that wait for a later logit alone. -/
theorem sampleInChunk_waits (o : Oracle) (w : World) {cs n m : Nat} (hm : cs + n ≤ m)
    (slot : Slot) :
    (sampleInChunk cfg o cs n w slot).2.Waits m ↔ slot.Waits m := by
  by_cases hin : InChunk cs n slot
  · constructor
    · rintro ⟨hb, hle⟩
      have := (sampleInChunk_taken o w hin hb).2
      omega
    · rintro ⟨-, hle⟩
      have := hin.2.2
      omega
  · rw [sampleInChunk_skips o w hin]

theorem sampleInChunk_owesFrom (o : Oracle) (w : World) {cs n m : Nat} (hm : cs + n ≤ m)
    (slot : Slot) (p : Nat) :
    (sampleInChunk cfg o cs n w slot).2.owesFrom m p = slot.owesFrom m p := by
  by_cases hin : InChunk cs n slot
  · unfold Slot.owesFrom
    rw [if_neg, if_neg]
    · rintro ⟨hwaits, -⟩
      have := hin.2.2
      have := hwaits.2
      omega
    · rintro ⟨hwaits, -⟩
      have := ((sampleInChunk_waits o w hm slot).mp hwaits).2
      have := hin.2.2
      omega
  · rw [sampleInChunk_skips o w hin]

/-- A decoded chunk in front of a pass. -/
theorem passed_chunk (h : LoopInv cfg s) {cs n m : Nat} (hn : 0 < n) (o : Oracle) {u v : State}
    {ls : List Label} (hst : step cfg s (.work o) = some v)
    (hev : (chunkEvent s (.work o)).toList = [.decoded cs n])
    (hworld : v.world = (forEach (sampleInChunk cfg o cs n) (s.decoded cs n) s.slots).1)
    (hslots : v.slots = (forEach (sampleInChunk cfg o cs n) (s.decoded cs n) s.slots).2)
    (hbatch : v.batch = s.batch) (hsub : v.submitted = s.submitted)
    (hrest : Passed cfg v ls u (cs + n) m) : Passed cfg s (.work o :: ls) u cs m := by
  have hm : cs + n ≤ m := hrest.chunks.le
  have hown := sampleInChunk_own cfg o cs n
  have hrel : List.Forall₂ (fun slot slot' => ∃ w', slot' = (sampleInChunk cfg o cs n w' slot).2)
      s.slots v.slots := by
    rw [hslots]
    exact forEach_forall₂ (fun w' slot => ⟨w', rfl⟩) _ s.slots
  have howed (p : Nat) : v.owedFrom (cs + n) p = s.owedFrom (cs + n) p := by
    unfold State.owedFrom
    refine congrArg List.sum (forall₂_map_eq (Slot.owesFrom (cs + n) p) ?_ hrel)
    rintro slot slot' ⟨w', rfl⟩
    exact sampleInChunk_owesFrom o w' (Nat.le_refl _) slot p
  have hanswers {slot : Slot} (hs : slot ∈ s.slots) (hb : slot.isBusy = true) :
      entriesOf slot.promise v.world.answers =
        if InChunk cs n slot then sampleAnswers cfg slot (o.sample slot.id) else [] := by
    rw [hworld, hown.loop_own h.owed_le hs hb]
    exact (congrArg (· ++ _) (busy_owes h hs hb).2.2).trans (List.nil_append _)
  refine ⟨?_, hbatch ▸ hrest.inBatch, ?_, ?_, ?_, ?_, ?_⟩
  · rw [chunkEvents_cons hst, hev]
    exact ⟨rfl, hn, hrest.chunks⟩
  · intro slot hs hwaits
    refine hrest.kept slot (hslots ▸ hown.loop_kept hs hwaits _) fun hlater => hwaits ?_
    have := hlater.2
    exact ⟨hlater.1, by omega⟩
  · intro p hp hzero
    rw [hrest.quiet p (hsub ▸ hp) ((howed p).trans (owedFrom_mono s (by omega) p hzero)), hworld]
    exact hown.loop_quiet hzero _
  · intro slot hs hwaits hlt
    obtain ⟨slot', hs', w', rfl⟩ := forall₂_mem_left hrel hs
    by_cases hin : InChunk cs n slot
    · -- sampled in this chunk, and left alone from then on
      obtain ⟨-, hsampled⟩ := @sampleSlot_sampled cfg w' slot hin.1 (o.sample slot.id)
        (o.now slot.id)
      have hlater : ¬ (sampleInChunk cfg o cs n w' slot).2.Waits (cs + n) := by
        rw [sampleInChunk_waits o w' (Nat.le_refl _)]
        intro hwaits
        have := hwaits.2
        have := hin.2.2
        omega
      have hquiet := hrest.quiet slot.promise (hsub ▸ (busy_owes h hs hin.1).2.1)
        ((howed _).trans (owedFrom_behind h hs hin.1 (by have := hin.2.2; push_cast; omega)))
      refine ⟨o, List.mem_cons_self, _, hrest.kept _ hs' hlater, ?_⟩
      rw [hquiet, hanswers hs hin.1, if_pos hin, sampleInChunk_samples o w' hin]
      exact hsampled
    · rw [sampleInChunk_skips o w' hin] at hs'
      have hlater : slot.Waits (cs + n) := by
        refine ⟨hwaits.1, ?_⟩
        by_contra hlow
        exact hin ⟨hwaits.1, hwaits.2, by push_cast at hlow; omega⟩
      obtain ⟨o', ho', hafter⟩ := hrest.sampled slot hs' hlater hlt
      exact ⟨o', List.mem_cons_of_mem _ ho', hafter⟩
  · intro hhead slot hs hwaits hle
    obtain ⟨slot', hs', w', rfl⟩ := forall₂_mem_left hrel hs
    have hout : ¬ InChunk cs n slot := by
      intro hin
      have := hin.2.2
      omega
    rw [sampleInChunk_skips o w' hout] at hs'
    exact hrest.failed hhead slot hs' ⟨hwaits.1, by push_cast; omega⟩ hle
  · intro hhead hno
    rw [chunkEvents_cons hst, List.mem_append, not_or] at hno
    exact hbatch ▸ hrest.whole hhead hno.2

/-- A step inside of the chunk loop, with the event that it is. -/
inductive ChunkStep (cfg : Config) (s : State) (cs nb : Nat) :
    Label → List ChunkEvent → State → Prop where
  | submit (req : GenerateRequest) : ChunkStep cfg s cs nb (.submit req) [] (submit cfg s req)
  | stop : ChunkStep cfg s cs nb .stop [] { s with running := false }
  | done (o : Oracle) (hcs : s.batch.length ≤ cs) :
      ChunkStep cfg s cs nb (.work o) [.finished] { s with phase := .loopHead }
  | fail (o : Oracle) :
      ChunkStep cfg s cs nb (.work o) [.failed]
        { s with
          world := (forEach (failSlot cs o) s.world s.slots).1
          slots := (forEach (failSlot cs o) s.world s.slots).2
          phase := .loopHead }
  | retry (o : Oracle) :
      ChunkStep cfg s cs nb (.work o) [.retried] { s with phase := .decode cs (nb / 2) }
  | decoded (o : Oracle) (hcs : cs < s.batch.length) :
      ChunkStep cfg s cs nb (.work o) [.decoded cs (s.chunkTokens cs nb)]
        { s with
          world := (forEach (sampleInChunk cfg o cs (s.chunkTokens cs nb))
            (s.decoded cs (s.chunkTokens cs nb)) s.slots).1
          slots := (forEach (sampleInChunk cfg o cs (s.chunkTokens cs nb))
            (s.decoded cs (s.chunkTokens cs nb)) s.slots).2
          phase := .decode (cs + s.chunkTokens cs nb) cfg.nBatch }

theorem chunkStep_of {cs nb : Nat} (hp : s.phase = .decode cs nb) {l : Label}
    (h : step cfg s l = some t) : ChunkStep cfg s cs nb l (chunkEvent s l).toList t := by
  have hother : ∀ {phase : Phase}, s.phase = phase → (∀ cs nb, phase ≠ .decode cs nb) →
      ChunkStep cfg s cs nb l (chunkEvent s l).toList t :=
    fun hphase hne => absurd (hphase.symm.trans hp) (hne cs nb)
  have hsame : ∀ {cs' nb' : Nat}, s.phase = .decode cs' nb' → cs' = cs ∧ nb' = nb := by
    intro cs' nb' hp'
    rw [hp] at hp'
    cases hp'
    exact ⟨rfl, rfl⟩
  cases step_cases h with
  | submit req _ => exact .submit req
  | stop => exact .stop
  | decodeDone o cs' nb' hp' hcs =>
    obtain ⟨rfl, rfl⟩ := hsame hp'
    have he : chunkEvent s (.work o) = some .finished := by simp [chunkEvent, hp, hcs]
    rw [he]
    exact .done o hcs
  | decodeFail o cs' nb' hp' hcs hret hfail =>
    obtain ⟨rfl, rfl⟩ := hsame hp'
    have he : chunkEvent s (.work o) = some .failed := by
      simp [chunkEvent, hp, Nat.not_le.mpr hcs, hret, hfail]
    rw [he]
    exact .fail o
  | decodeRetry o cs' nb' hp' hcs hret hnb =>
    obtain ⟨rfl, rfl⟩ := hsame hp'
    have hne : o.ret ≠ 0 := by omega
    have hlt : ¬ o.ret < 0 := by omega
    have he : chunkEvent s (.work o) = some .retried := by
      simp [chunkEvent, hp, Nat.not_le.mpr hcs, hne, hnb, hlt]
    rw [he]
    exact .retry o
  | decodeOk o cs' nb' hp' hcs hret =>
    obtain ⟨rfl, rfl⟩ := hsame hp'
    have he : chunkEvent s (.work o) = some (.decoded cs' (s.chunkTokens cs' nb')) := by
      simp [chunkEvent, hp, Nat.not_le.mpr hcs, hret]
    rw [he]
    exact .decoded o hcs
  | enter o hp' | leave o hp' | admitDone o hp' | reject o hp' | accept o hp' | idle o hp'
  | build o hp' | drainSlots o hp' | drainQueue o hp' =>
    exact hother hp' fun _ _ h => Phase.noConfusion h

/-- A pass takes no step from the loop head. -/
theorem pass_at_head {ls : List Label} (hpass : Pass cfg s ls t) (hp : s.phase = .loopHead) :
    ls = [] ∧ t = s := by
  obtain ⟨hall, hrun⟩ := hpass
  cases ls with
  | nil => exact ⟨rfl, (Option.some.inj hrun).symm⟩
  | cons l ls =>
    obtain ⟨v, hv, -⟩ := run_cons.mp hrun
    obtain ⟨cs, nb, hin⟩ := (hall v hv).1
    rw [hp] at hin
    cases hin

theorem passed (h : LoopInv cfg s) {cs nb : Nat} (hp : s.phase = .decode cs nb)
    {ls : List Label} (hpass : Pass cfg s ls t) : ∃ m, Passed cfg s ls t cs m := by
  induction ls generalizing s cs nb with
  | nil =>
    obtain ⟨-, hrun⟩ := hpass
    cases hrun
    exact ⟨cs, passed_nil h hp⟩
  | cons l ls ih =>
    obtain ⟨hall, hrun⟩ := hpass
    obtain ⟨v, hv, hrun⟩ := run_cons.mp hrun
    have hrest : Pass cfg v ls t := ⟨(hall v hv).2, hrun⟩
    have hinv : LoopInv cfg v := loopInv_step h hv
    have hstep := chunkStep_of hp hv
    generalize hev : (chunkEvent s l).toList = events at hstep
    cases hstep with
    | submit req =>
      obtain ⟨hb, hs, hph⟩ := submit_same cfg s req
      obtain ⟨hsub, hans⟩ := submit_answers cfg s req
      obtain ⟨m, hm⟩ := ih hinv (hph.trans hp) hrest
      exact ⟨m, hm.of_same hv (by rw [hev]; rfl) hb hs hsub hans⟩
    | stop =>
      obtain ⟨m, hm⟩ := ih hinv hp hrest
      exact ⟨m, hm.of_same hv (by rw [hev]; rfl) rfl rfl (Nat.le_refl _) fun _ _ => rfl⟩
    | done o hcs =>
      obtain ⟨rfl, rfl⟩ := pass_at_head hrest rfl
      exact ⟨cs, passed_done h hp hcs hv hev⟩
    | fail o =>
      obtain ⟨rfl, rfl⟩ := pass_at_head hrest rfl
      exact ⟨cs, passed_fail h hp o hv hev⟩
    | retry o =>
      obtain ⟨m, hm⟩ := ih hinv rfl hrest
      exact ⟨m, hm.of_same hv (by rw [hev]; rfl) rfl rfl (Nat.le_refl _) fun _ _ => rfl⟩
    | decoded o hcs =>
      obtain ⟨hpos, -⟩ := chunkTokens_bounds hcs (h.chunk cs nb hp).2.1
      obtain ⟨m, hm⟩ := ih hinv rfl hrest
      exact ⟨m, passed_chunk h hpos o hv hev rfl rfl rfl rfl hm⟩

/-! ## The chunk loop -/

/-- What a pass through the chunk loop from `s` to `t` guarantees, whatever the decodes
    returned. -/
structure ChunkLoop (cfg : Config) (s : State) (ls : List Label) (t : State) : Prop where
  /-- The worker takes boundedly many steps. -/
  bounded : ls.countP Label.isWork ≤ s.batch.length * (cfg.nBatch + 1) + cfg.nBatch + 1
  /-- The chunk size is never zero. -/
  chunkSize : AllStates (step cfg) (fun u => ∀ cs nb, u.phase = .decode cs nb → 1 ≤ nb) s ls
  /-- The decoded chunks cover the first `m` entries of the batch. -/
  decoded : ∃ m, m ≤ s.batch.length ∧
    Consecutive 0 ((chunkEvents cfg s ls).filterMap ChunkEvent.chunk) m ∧
    ((chunkEvents cfg s ls).filterMap ChunkEvent.chunk).flatMap
      (fun r => chunkView s.batch r.1 r.2) = s.batch.take m ∧
    (t.phase = .loopHead → ChunkEvent.failed ∉ chunkEvents cfg s ls →
      m = s.batch.length) ∧
    -- at the end each busy slot had one token sampled or was completed with an error
    (t.phase = .loopHead → ∀ slot ∈ s.slots, slot.isBusy = true →
      HasLogit s.batch slot ∧
        ((slot.iBatch < m ∧ ∃ o, .work o ∈ ls ∧ ∃ slot' ∈ t.slots,
            Sampled cfg slot (o.sample slot.id) slot'
              (entriesOf slot.promise t.world.answers)) ∨
          ((m : Int) ≤ slot.iBatch ∧ ∃ slot' ∈ t.slots,
            Failed slot slot' (entriesOf slot.promise t.world.answers))))

theorem Pass.loopRank_le {ls : List Label} (hpass : Pass cfg s ls t) (h : LoopInv cfg s) :
    ls.countP Label.isWork ≤ loopRank cfg s := by
  have hle : ls.countP Label.isWork + loopRank cfg t ≤ loopRank cfg s :=
    countP_add_rank_le Label.isWork (fun _ _ _ hu _ hst => loopInv_step hu hst)
      (fun _ _ _ hu hin hst => loopRank_step hu hin hst) h hpass.1 hpass.2
  omega

/-- One prompt of five tokens, up to the built batch, decoded in chunks of two. -/
def twoChunkConfig : Config := { tinyConfig 8 1 with nBatch := 2, nBatch_pos := Nat.two_pos }

def fiveTokenRun : List Label := .submit { tokens := [1, 3, 4, 5, 6] } :: works 4 7

-- the first chunk of two fails once, the retry decodes one token
example : chunkEvents twoChunkConfig (init twoChunkConfig)
    (fiveTokenRun ++ .work { ret := 1 } :: works 4 7) =
      [.retried, .decoded 0 1, .decoded 1 2, .decoded 3 2, .finished] := by
  decide +kernel

end TruellmEngine.Scheduler
