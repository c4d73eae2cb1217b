/-
  What a client is streamed and answered.

  The scheduler decodes all busy requests in common batches, in chunks that may be retried,
  and admits, keeps warm and evicts slots in between. To a client none of this shows. The
  tokens sampled for a request (`sampled`, by promise) are a stream of its own, and:

  * `InProgress`: the slot of a request reads and writes its output as if the request were
    alone in the scheduler (`soloAfter`) and none of its tokens so far ended it.
  * `told_step`: every step keeps, for each promise, that the callback was called exactly
    for the tokens sampled so far (but not for an end-of-generation token), in order, and
    that an answer is the one of the request alone.
  * `batching_transparent`: both in every reachable state. `schedulerGenerate` is the loop
    that the other two engines are compared with.
-/
import TruellmEngine.Engine.DecodeLoops
import TruellmEngine.Scheduler.Order

namespace TruellmEngine.Scheduler

open Lib

/-! ## The tokens sampled for a request -/

/-- The token a successful chunk samples for the slot, under its promise. -/
def sampleOf (o : Oracle) (cs n : Nat) (slot : Slot) : List (Nat × Token) :=
  if InChunk cs n slot then [(slot.promise, o.sample slot.id)] else []

/-- The tokens sampled in one step. -/
def State.samples (s : State) : Label → List (Nat × Token)
  | .work o =>
    match s.phase with
    | .decode cs nb =>
      if cs < s.batch.length ∧ o.ret = 0 then
        s.slots.flatMap (sampleOf o cs (s.chunkTokens cs nb))
      else []
    | _ => []
  | _ => []

/-- The tokens sampled on the run of the labels. -/
def sampled (cfg : Config) : State → List Label → List (Nat × Token)
  | _, [] => []
  | s, l :: ls =>
    match step cfg s l with
    | none => []
    | some t => s.samples l ++ sampled cfg t ls

/-! ## A request alone in the scheduler -/

/-- The slot of the request alone in the scheduler, before its first token. -/
def soloSlot (cfg : Config) (req : GenerateRequest) : Slot :=
  startRequest cfg { id := 0, seqId := 0 } ⟨req, 0⟩

/-- The same slot after some tokens. -/
def soloAfter (cfg : Config) (req : GenerateRequest) (toks : List Token) : Slot :=
  toks.foldl (emitted cfg) (soloSlot cfg req)

/-- None of the tokens ends the request of the slot. -/
def GoesOn (cfg : Config) : Slot → List Token → Prop
  | _, [] => True
  | slot, tok :: toks =>
    cfg.vocab.isEog tok = false ∧ ¬ EndsRequest cfg slot tok ∧
      GoesOn cfg (emitted cfg slot tok) toks

variable {cfg : Config} {req : GenerateRequest} {s t : State} {l : Label}

theorem soloAfter_snoc (toks : List Token) (tok : Token) :
    soloAfter cfg req (toks ++ [tok]) = emitted cfg (soloAfter cfg req toks) tok := by
  simp [soloAfter]

theorem goesOn_snoc {slot : Slot} {toks : List Token} {tok : Token} :
    GoesOn cfg slot (toks ++ [tok]) ↔ GoesOn cfg slot toks ∧ cfg.vocab.isEog tok = false ∧
      ¬ EndsRequest cfg (toks.foldl (emitted cfg) slot) tok := by
  induction toks generalizing slot with
  | nil => simp [GoesOn]
  | cons head toks ih =>
    rw [List.cons_append, GoesOn, GoesOn, ih, List.foldl_cons]
    tauto

theorem GoesOn.not_eog {slot : Slot} {toks : List Token} (h : GoesOn cfg slot toks) :
    ∀ tok ∈ toks, cfg.vocab.isEog tok = false := by
  induction toks generalizing slot with
  | nil => simp
  | cons head toks ih => exact List.forall_mem_cons.mpr ⟨h.1, ih h.2.2⟩

theorem soloAfter_nDecoded (toks : List Token) :
    (soloAfter cfg req toks).nDecoded = toks.length := by
  induction toks using List.reverseRecOn with
  | nil => rfl
  | append_singleton toks tok ih =>
    rw [soloAfter_snoc, List.length_append]
    exact congrArg (· + 1) ih

theorem soloAfter_genTokenIds (toks : List Token) :
    (soloAfter cfg req toks).genTokenIds = toks := by
  induction toks using List.reverseRecOn with
  | nil => rfl
  | append_singleton toks tok ih =>
    rw [soloAfter_snoc]
    exact congrArg (· ++ [tok]) ih

theorem soloAfter_accumulated (toks : List Token) :
    (soloAfter cfg req toks).accumulated =
      toks.flatMap fun tok => pieceText cfg.vocab tok false := by
  induction toks using List.reverseRecOn with
  | nil => rfl
  | append_singleton toks tok ih =>
    rw [soloAfter_snoc, List.flatMap_append, List.flatMap_singleton]
    exact congrArg (· ++ pieceText cfg.vocab tok false) ih

theorem soloAfter_maxNew (toks : List Token) :
    (soloAfter cfg req toks).maxNew = tokenLimit cfg.defaultSmp req := by
  induction toks using List.reverseRecOn with
  | nil => rfl
  | append_singleton toks tok ih =>
    rw [soloAfter_snoc]
    exact ih

theorem emitted_busy (slot : Slot) (tok : Token) :
    (emitted cfg slot tok).isBusy = slot.isBusy := rfl

/-- The tokens fit in the limit, with room for the next one. -/
theorem GoesOn.room {toks : List Token} (h : GoesOn cfg (soloSlot cfg req) toks) :
    toks.length < max 1 (tokenLimit cfg.defaultSmp req).toNat := by
  rcases List.eq_nil_or_concat toks with rfl | ⟨init, tok, rfl⟩
  · simp
  · rw [List.concat_eq_append] at h ⊢
    have hends := (goesOn_snoc.mp h).2.2
    have hdec : (init.foldl (emitted cfg) (soloSlot cfg req)).nDecoded = init.length :=
      soloAfter_nDecoded init
    have hmax : (init.foldl (emitted cfg) (soloSlot cfg req)).maxNew =
        tokenLimit cfg.defaultSmp req := soloAfter_maxNew init
    unfold EndsRequest at hends
    rw [hdec, hmax] at hends
    rw [List.length_append, List.length_singleton]
    omega

/-- Tokens that do not end the request take as many iterations of the loop. -/
theorem slotLoop_goesOn (stream : Nat → Token) {toks : List Token} {slot : Slot}
    (fuel k : Nat) (w : World) (hb : slot.isBusy = true) (hgo : GoesOn cfg slot toks)
    (hstream : ∀ i (h : i < toks.length), stream (k + i) = toks[i]) :
    ∃ w', slotLoop cfg stream (toks.length + fuel) k w slot =
      slotLoop cfg stream fuel (k + toks.length) w' (toks.foldl (emitted cfg) slot) := by
  induction toks generalizing slot k w with
  | nil => exact ⟨w, by simp⟩
  | cons tok toks ih =>
    have htok : stream k = tok := hstream 0 (by simp)
    obtain ⟨w', hrest⟩ := ih (k + 1)
      (callOnToken w (emitted cfg slot tok) tok (pieceText cfg.vocab tok false))
      ((emitted_busy slot tok).trans hb) hgo.2.2 (by
        intro i hi
        have := hstream (i + 1) (by simpa using hi)
        rw [show k + 1 + i = k + (i + 1) by omega]
        exact this)
    refine ⟨w', ?_⟩
    have hlen : (tok :: toks).length + fuel = toks.length + fuel + 1 := by
      rw [List.length_cons]
      omega
    rw [hlen, slotLoop, htok, sampleSlot_continues hgo.1 hgo.2.1,
      if_pos ((emitted_busy slot tok).trans hb), hrest, List.foldl_cons, List.length_cons]
    congr 1
    omega

/-! ## A request in its slot -/

/-- The two slots agree in what the sampling step reads and writes of their output. -/
structure SameOutput (slot solo : Slot) : Prop where
  nPrompt : slot.nPrompt = solo.nPrompt
  nDecoded : slot.nDecoded = solo.nDecoded
  maxNew : slot.maxNew = solo.maxNew
  stopTokenIds : slot.stopTokenIds = solo.stopTokenIds
  stopStrings : slot.stopStrings = solo.stopStrings
  accumulated : slot.accumulated = solo.accumulated
  genTokenIds : slot.genTokenIds = solo.genTokenIds

theorem SameOutput.emitted {slot solo : Slot} (h : SameOutput slot solo) (tok : Token) :
    SameOutput (emitted cfg slot tok) (Scheduler.emitted cfg solo tok) where
  nPrompt := h.nPrompt
  nDecoded := congrArg (· + 1) h.nDecoded
  maxNew := h.maxNew
  stopTokenIds := h.stopTokenIds
  stopStrings := h.stopStrings
  accumulated := congrArg (· ++ pieceText cfg.vocab tok false) h.accumulated
  genTokenIds := congrArg (· ++ [tok]) h.genTokenIds

theorem SameOutput.endsRequest_iff {slot solo : Slot} (h : SameOutput slot solo) (tok : Token) :
    EndsRequest cfg slot tok ↔ EndsRequest cfg solo tok := by
  unfold EndsRequest
  rw [h.stopStrings, h.accumulated, h.maxNew, h.nDecoded, h.stopTokenIds]

theorem SameOutput.maxHit {slot solo : Slot} (h : SameOutput slot solo) :
    maxHit slot = Scheduler.maxHit solo := by
  unfold Scheduler.maxHit
  rw [h.maxNew, h.nDecoded]

theorem SameOutput.slotResult {slot solo : Slot} (h : SameOutput slot solo) (ec : ErrorCode)
    (msg fr : String) : slotResult slot ec msg fr = Scheduler.slotResult solo ec msg fr := by
  unfold Scheduler.slotResult
  rw [h.genTokenIds, h.accumulated, h.nPrompt, h.nDecoded]

/-- The request in `slot` has had the tokens `toks` sampled: it is where it would be alone
    in the scheduler, and goes on. -/
structure InProgress (cfg : Config) (req : GenerateRequest) (toks : List Token) (slot : Slot) :
    Prop where
  output : SameOutput slot (soloAfter cfg req toks)
  goesOn : GoesOn cfg (soloSlot cfg req) toks
  onToken : slot.onToken = req.onToken

/-- The streaming callbacks for the tokens of an output. -/
def calls (cfg : Config) (req : GenerateRequest) (toks : List Token) : List (Token × Bytes) :=
  if req.onToken then toks.map fun tok => (tok, pieceText cfg.vocab tok false) else []

/-- The tokens that are not end-of-generation tokens. -/
def shown (cfg : Config) (toks : List Token) : List Token :=
  toks.filter fun tok => !cfg.vocab.isEog tok

/-- The answers to a request that never had a slot. -/
def refusals (cfg : Config) (req : GenerateRequest) : List GenerateResult :=
  [queueFull, emptyTokenList, promptTooLong cfg req.tokens.length, shuttingDown]

/-- `res` answers the request for which the tokens `toks` were sampled. -/
structure Answers (cfg : Config) (req : GenerateRequest) (toks : List Token)
    (res : GenerateResult) : Prop where
  tokens : res.tokens = shown cfg toks
  text : res.text = res.tokens.flatMap fun tok => pieceText cfg.vocab tok false
  count : res ∈ refusals cfg req ∨ res.generatedTokens = some res.tokens.length
  solo : res.error = .ok → schedulerGenerate cfg req (fun k => toks.getD k 0) = some res

theorem shown_of_goesOn {toks : List Token} {slot : Slot} (h : GoesOn cfg slot toks) :
    shown cfg toks = toks :=
  List.filter_eq_self.mpr fun tok ht => by simp [h.not_eog tok ht]

theorem shown_snoc_eog {toks : List Token} {tok : Token} (h : cfg.vocab.isEog tok = true) :
    shown cfg (toks ++ [tok]) = shown cfg toks := by
  simp [shown, h]

theorem shown_snoc {toks : List Token} {tok : Token} (h : cfg.vocab.isEog tok = false) :
    shown cfg (toks ++ [tok]) = shown cfg toks ++ [tok] := by
  simp [shown, h]

theorem calls_snoc (toks : List Token) (tok : Token) :
    calls cfg req (toks ++ [tok]) = calls cfg req toks ++
      if req.onToken then [(tok, pieceText cfg.vocab tok false)] else [] := by
  unfold calls
  split
  · rw [List.map_append, List.map_singleton]
  · rfl

theorem refusal_blank {res : GenerateResult} (h : res ∈ refusals cfg req) :
    res.tokens = [] ∧ res.text = [] ∧ res.error ≠ .ok := by
  simp only [refusals, List.mem_cons, List.not_mem_nil, or_false] at h
  have hrefused : ErrorCode.unavailable ≠ ErrorCode.ok := by decide
  have hinvalid : ErrorCode.invalidArgument ≠ ErrorCode.ok := by decide
  rcases h with rfl | rfl | rfl | rfl
  · exact ⟨rfl, rfl, hrefused⟩
  · exact ⟨rfl, rfl, hinvalid⟩
  · exact ⟨rfl, rfl, hinvalid⟩
  · exact ⟨rfl, rfl, hrefused⟩

theorem Answers.of_refusal {res : GenerateResult} (h : res ∈ refusals cfg req) :
    Answers cfg req [] res := by
  obtain ⟨htok, htext, herr⟩ := refusal_blank h
  refine ⟨htok, ?_, .inl h, fun hok => absurd hok herr⟩
  rw [htext, htok]
  rfl

theorem InProgress.tokens {toks : List Token} {slot : Slot} (h : InProgress cfg req toks slot) :
    slot.genTokenIds = toks :=
  h.output.genTokenIds.trans (soloAfter_genTokenIds toks)

/-- A result of the slot as it stands. -/
theorem InProgress.result {toks : List Token} {slot : Slot} (h : InProgress cfg req toks slot)
    (ec : ErrorCode) (msg fr : String) :
    (slotResult slot ec msg fr).tokens = toks ∧
      (slotResult slot ec msg fr).text =
        toks.flatMap (fun tok => pieceText cfg.vocab tok false) ∧
      (slotResult slot ec msg fr).generatedTokens = some toks.length :=
  ⟨h.tokens, h.output.accumulated.trans (soloAfter_accumulated toks),
    congrArg some (h.output.nDecoded.trans (soloAfter_nDecoded toks))⟩

/-- The request ends with an error: the tokens so far are its output. -/
theorem InProgress.fails {toks : List Token} {slot : Slot} (h : InProgress cfg req toks slot)
    {ec : ErrorCode} (hec : ec ≠ .ok) (msg fr : String) :
    Answers cfg req toks (slotResult slot ec msg fr) := by
  obtain ⟨htok, htext, hcount⟩ := h.result ec msg fr
  refine ⟨htok.trans (shown_of_goesOn h.goesOn).symm, ?_, .inr ?_, fun he => absurd he hec⟩
  · rw [htext, htok]
  · rw [hcount, htok]

/-- The loop of the request alone, up to its last iteration. -/
theorem schedulerGenerate_last {toks : List Token} (hgo : GoesOn cfg (soloSlot cfg req) toks)
    (tok : Token) : ∃ fuel w,
      schedulerGenerate cfg req (fun k => (toks ++ [tok]).getD k 0) =
        slotLoop cfg (fun k => (toks ++ [tok]).getD k 0) (fuel + 1) toks.length w
          (soloAfter cfg req toks) := by
  have hroom := hgo.room
  obtain ⟨fuel, hfuel⟩ := Nat.exists_eq_add_of_lt hroom
  have hstream : ∀ i (h : i < toks.length), (toks ++ [tok]).getD (0 + i) 0 = toks[i] := by
    intro i hi
    rw [Nat.zero_add, List.getD_eq_getElem?_getD, List.getElem?_append_left hi,
      List.getElem?_eq_getElem hi, Option.getD_some]
  have hbusy : (soloSlot cfg req).isBusy = true := rfl
  obtain ⟨w, hw⟩ := slotLoop_goesOn (fun k => (toks ++ [tok]).getD k 0) (fuel + 1) 0
    ⟨KvCache.empty, [], []⟩ hbusy hgo hstream
  refine ⟨fuel, w, ?_⟩
  unfold schedulerGenerate
  rw [hfuel, show toks.length + fuel + 1 = toks.length + (fuel + 1) by omega]
  rw [Nat.zero_add] at hw
  exact hw

theorem getD_last (toks : List Token) (tok : Token) :
    (toks ++ [tok]).getD toks.length 0 = tok := by
  simp

/-- The request ends with an end-of-generation token. -/
theorem InProgress.ends_eog {toks : List Token} {slot : Slot} (h : InProgress cfg req toks slot)
    {tok : Token} (heog : cfg.vocab.isEog tok = true) :
    Answers cfg req (toks ++ [tok]) (slotResult (takeSample slot tok) .ok "" "stop") := by
  obtain ⟨htok, htext, hcount⟩ := h.result .ok "" "stop"
  refine ⟨?_, ?_, ?_, ?_⟩
  · rw [shown_snoc_eog heog, shown_of_goesOn h.goesOn]
    exact htok
  · exact htext.trans (by rw [← htok]; rfl)
  · exact .inr (hcount.trans (by rw [← htok]; rfl))
  · intro _
    obtain ⟨fuel, w, hgen⟩ := schedulerGenerate_last h.goesOn tok
    rw [hgen, slotLoop, getD_last]
    rw [sampleSlot_eog heog, completeSlot_not_busy, if_neg (by simp), completeSlot_answers,
      List.getLast?_concat, Option.map_some]
    exact congrArg some (h.output.slotResult .ok "" "stop").symm

/-- The request ends with a token of its output. -/
theorem InProgress.ends {toks : List Token} {slot : Slot} (h : InProgress cfg req toks slot)
    {tok : Token} (heog : cfg.vocab.isEog tok = false) (hends : EndsRequest cfg slot tok) :
    Answers cfg req (toks ++ [tok]) (slotResult (emitted cfg slot tok) .ok ""
      (if maxHit (emitted cfg slot tok) then "length" else "stop")) := by
  have hsolo : soloAfter cfg req (toks ++ [tok]) = emitted cfg (soloAfter cfg req toks) tok :=
    soloAfter_snoc toks tok
  have hout : SameOutput (emitted cfg slot tok) (soloAfter cfg req (toks ++ [tok])) :=
    hsolo ▸ h.output.emitted tok
  have htok : (emitted cfg slot tok).genTokenIds = toks ++ [tok] :=
    hout.genTokenIds.trans (soloAfter_genTokenIds _)
  refine ⟨?_, ?_, ?_, ?_⟩
  · rw [shown_snoc heog, shown_of_goesOn h.goesOn]
    exact htok
  · refine (hout.accumulated.trans (soloAfter_accumulated _)).trans ?_
    rw [← htok]
    rfl
  · refine .inr (congrArg some ((hout.nDecoded.trans (soloAfter_nDecoded _)).trans ?_))
    rw [← htok]
    rfl
  · intro _
    obtain ⟨fuel, w, hgen⟩ := schedulerGenerate_last h.goesOn tok
    rw [hgen, slotLoop, getD_last]
    rw [sampleSlot_ends heog ((h.output.endsRequest_iff tok).mp hends), completeSlot_not_busy,
      if_neg (by simp), completeSlot_answers, List.getLast?_concat, Option.map_some, ← hsolo,
      hout.maxHit]
    exact congrArg some (hout.slotResult .ok "" _).symm

/-- The request goes on after the token. -/
theorem InProgress.continues {toks : List Token} {slot : Slot}
    (h : InProgress cfg req toks slot) {tok : Token} (heog : cfg.vocab.isEog tok = false)
    (hends : ¬ EndsRequest cfg slot tok) :
    InProgress cfg req (toks ++ [tok]) (emitted cfg slot tok) where
  output := by
    rw [soloAfter_snoc]
    exact h.output.emitted tok
  goesOn := goesOn_snoc.mpr ⟨h.goesOn, heog, mt (h.output.endsRequest_iff tok).mpr hends⟩
  onToken := h.onToken

/-! ## What a sampling step makes of a slot -/

/-- The streaming callback of the step for one slot. -/
def callMade (cfg : Config) (o : Oracle) (cs n : Nat) (slot : Slot) :
    List (Nat × Token × Bytes) :=
  if InChunk cs n slot ∧ cfg.vocab.isEog (o.sample slot.id) = false ∧ slot.onToken = true then
    [(slot.promise, o.sample slot.id, pieceText cfg.vocab (o.sample slot.id) false)]
  else []

theorem completeSlot_streamed (w : World) (slot : Slot) (now : Int) (ec : ErrorCode)
    (msg fr : String) : (completeSlot w slot now ec msg fr).1.streamed = w.streamed := by
  simp only [completeSlot]
  split
  · rfl
  · rfl

theorem callOnToken_streamed (w : World) (slot : Slot) (tok : Token) (piece : Bytes) :
    (callOnToken w slot tok piece).streamed =
      w.streamed ++ if slot.onToken = true then [(slot.promise, tok, piece)] else [] := by
  unfold callOnToken
  split
  · rfl
  · rw [List.append_nil]

theorem sampleInChunk_streamed (o : Oracle) (cs n : Nat) (w : World) (slot : Slot) :
    (sampleInChunk cfg o cs n w slot).1.streamed = w.streamed ++ callMade cfg o cs n slot := by
  unfold callMade
  by_cases hin : InChunk cs n slot
  · rw [sampleInChunk_samples o w hin]
    by_cases heog : cfg.vocab.isEog (o.sample slot.id) = true
    · rw [sampleSlot_eog heog, completeSlot_streamed, if_neg (by simp [heog]), List.append_nil]
    · have heog : cfg.vocab.isEog (o.sample slot.id) = false := by simpa using heog
      have hcall : (callOnToken w (emitted cfg slot (o.sample slot.id)) (o.sample slot.id)
          (pieceText cfg.vocab (o.sample slot.id) false)).streamed = w.streamed ++
          if InChunk cs n slot ∧ cfg.vocab.isEog (o.sample slot.id) = false ∧
            slot.onToken = true then
            [(slot.promise, o.sample slot.id, pieceText cfg.vocab (o.sample slot.id) false)]
          else [] := by
        rw [callOnToken_streamed]
        simp only [hin, heog, true_and]
        rfl
      by_cases hend : EndsRequest cfg slot (o.sample slot.id)
      · rw [sampleSlot_ends heog hend, completeSlot_streamed, hcall]
      · rw [sampleSlot_continues heog hend, hcall]
  · rw [sampleInChunk_skips o w hin, if_neg (fun h => hin h.1), List.append_nil]

theorem sampleOf_unowned (o : Oracle) (cs n p : Nat) (slot : Slot) (h : slot.owes p = 0) :
    entriesOf p (sampleOf o cs n slot) = [] := by
  unfold sampleOf
  split
  · rename_i hin
    rw [owes_of_busy hin.1] at h
    exact entriesOf_other (by simpa using h) _
  · rfl

theorem callMade_unowned (o : Oracle) (cs n p : Nat) (slot : Slot) (h : slot.owes p = 0) :
    entriesOf p (callMade cfg o cs n slot) = [] := by
  unfold callMade
  split
  · rename_i hin
    rw [owes_of_busy hin.1.1] at h
    exact entriesOf_other (by simpa using h) _
  · rfl

section

variable (o : Oracle) (cs n : Nat) {toks : List Token} {slot : Slot}

theorem sampleOf_in (hin : InChunk cs n slot) :
    entriesOf slot.promise (sampleOf o cs n slot) = [o.sample slot.id] := by
  rw [sampleOf, if_pos hin, entriesOf_self]

theorem sampleOf_out (hin : ¬ InChunk cs n slot) :
    entriesOf slot.promise (sampleOf o cs n slot) = [] := by
  rw [sampleOf, if_neg hin, entriesOf_nil]

/-- The callback of the step is the one for the sampled token. -/
theorem InProgress.calls_step (h : InProgress cfg req toks slot) :
    calls cfg req (shown cfg (toks ++ entriesOf slot.promise (sampleOf o cs n slot))) =
      calls cfg req (shown cfg toks) ++ entriesOf slot.promise (callMade cfg o cs n slot) := by
  unfold callMade
  rw [h.onToken]
  by_cases hin : InChunk cs n slot
  · rw [sampleOf_in o cs n hin]
    by_cases heog : cfg.vocab.isEog (o.sample slot.id) = true
    · rw [shown_snoc_eog heog, if_neg (by simp [heog]), entriesOf_nil, List.append_nil]
    · have heog : cfg.vocab.isEog (o.sample slot.id) = false := by simpa using heog
      rw [shown_snoc heog, calls_snoc]
      by_cases hcall : req.onToken = true
      · rw [if_pos hcall, if_pos ⟨hin, heog, hcall⟩, entriesOf_self]
      · rw [if_neg hcall, if_neg (fun hc => hcall hc.2.2), entriesOf_nil]
  · rw [sampleOf_out o cs n hin, if_neg (fun hc => hin hc.1), entriesOf_nil, List.append_nil,
      List.append_nil]

/-- A slot that is still busy behind the step is in progress. -/
theorem InProgress.sampled (h : InProgress cfg req toks slot) {w : World}
    (hb : (sampleInChunk cfg o cs n w slot).2.isBusy = true) :
    InProgress cfg req (toks ++ entriesOf slot.promise (sampleOf o cs n slot))
      (sampleInChunk cfg o cs n w slot).2 := by
  by_cases hin : InChunk cs n slot
  · rw [sampleOf_in o cs n hin]
    rw [sampleInChunk_samples o w hin] at hb ⊢
    by_cases heog : cfg.vocab.isEog (o.sample slot.id) = true
    · rw [sampleSlot_eog heog, completeSlot_not_busy] at hb
      cases hb
    · have heog : cfg.vocab.isEog (o.sample slot.id) = false := by simpa using heog
      by_cases hend : EndsRequest cfg slot (o.sample slot.id)
      · rw [sampleSlot_ends heog hend, completeSlot_not_busy] at hb
        cases hb
      · rw [sampleSlot_continues heog hend]
        exact h.continues heog hend
  · rw [sampleOf_out o cs n hin, sampleInChunk_skips o w hin, List.append_nil]
    exact h

/-- An answer of the step is the one of the request alone. -/
theorem InProgress.answered (h : slot.isBusy = true → InProgress cfg req toks slot) {w : World}
    {a : Nat × GenerateResult} (ha : a ∈ (sampleInChunk cfg o cs n w slot).1.answers) :
    a ∈ w.answers ∨ (slot.isBusy = true ∧ a.1 = slot.promise ∧
      Answers cfg req (toks ++ entriesOf slot.promise (sampleOf o cs n slot)) a.2) := by
  by_cases hin : InChunk cs n slot
  · have h := h hin.1
    rw [sampleOf_in o cs n hin]
    rw [sampleInChunk_samples o w hin] at ha
    by_cases heog : cfg.vocab.isEog (o.sample slot.id) = true
    · rw [sampleSlot_eog heog, completeSlot_answers] at ha
      rcases List.mem_append.mp ha with ha | ha
      · exact Or.inl ha
      · rw [List.mem_singleton.mp ha]
        exact Or.inr ⟨hin.1, rfl, h.ends_eog heog⟩
    · have heog : cfg.vocab.isEog (o.sample slot.id) = false := by simpa using heog
      by_cases hend : EndsRequest cfg slot (o.sample slot.id)
      · rw [sampleSlot_ends heog hend, completeSlot_answers, callOnToken_answers] at ha
        rcases List.mem_append.mp ha with ha | ha
        · exact Or.inl ha
        · rw [List.mem_singleton.mp ha]
          exact Or.inr ⟨hin.1, rfl, h.ends heog hend⟩
      · rw [sampleSlot_continues heog hend, callOnToken_answers] at ha
        exact Or.inl ha
  · rw [sampleInChunk_skips o w hin] at ha
    exact Or.inl ha

end

/-! ## The invariant -/

/-- The answer is one to the request as submitted, for which `log` has its tokens. -/
def AnswerOk (cfg : Config) (log : List (Nat × Token)) (submitted : List GenerateRequest)
    (a : Nat × GenerateResult) : Prop :=
  ∃ req, submitted[a.1]? = some req ∧ Answers cfg req (entriesOf a.1 log) a.2

/-- Every client has been told what was sampled for it, where `log` is all that was
    sampled. -/
structure Told (cfg : Config) (log : List (Nat × Token)) (s : State) : Prop where
  streamed : ∀ p req, s.submitted[p]? = some req →
    entriesOf p s.world.streamed = calls cfg req (shown cfg (entriesOf p log))
  fresh : ∀ p, s.submitted.length ≤ p →
    entriesOf p log = [] ∧ entriesOf p s.world.streamed = []
  queued : ∀ e ∈ s.queue, s.submitted[e.promise]? = some e.req ∧ entriesOf e.promise log = []
  busy : ∀ slot ∈ s.slots, slot.isBusy = true → ∃ req, s.submitted[slot.promise]? = some req ∧
    InProgress cfg req (entriesOf slot.promise log) slot
  answered : ∀ a ∈ s.world.answers, AnswerOk cfg log s.submitted a

theorem told_init : Told cfg [] (init cfg) := by
  refine ⟨by simp [init], fun p _ => ⟨rfl, rfl⟩, by simp [init], ?_, by simp [init]⟩
  intro slot hs hb
  obtain ⟨i, -, rfl⟩ := List.mem_map.mp hs
  cases hb

variable {log : List (Nat × Token)}

theorem rejected_answers {res : GenerateResult} (h : Rejected cfg req res) :
    Answers cfg req [] res := by
  cases h with
  | empty _ => exact .of_refusal (by simp [refusals])
  | tooLong _ => exact .of_refusal (by simp [refusals])

/-- A request from the queue is answered before any token was sampled for it. -/
theorem Told.setValue (h : Told cfg log s) {entry : PendingRequest} (he : entry ∈ s.queue)
    {w : World} (hw : ∀ a ∈ w.answers, AnswerOk cfg log s.submitted a) {res : GenerateResult}
    (hres : Answers cfg entry.req [] res) :
    ∀ a ∈ (w.setValue entry.promise res).answers, AnswerOk cfg log s.submitted a := by
  obtain ⟨hsub, hnone⟩ := h.queued entry he
  intro a ha
  rcases List.mem_append.mp ha with ha | ha
  · exact hw a ha
  · rw [List.mem_singleton.mp ha]
    exact ⟨entry.req, hsub, hnone ▸ hres⟩

/-- The end of a request in a slot with an error. -/
theorem Told.complete (h : Told cfg log s) {slot : Slot} (hs : slot ∈ s.slots)
    (hb : slot.isBusy = true) {w : World}
    (hw : ∀ a ∈ w.answers, AnswerOk cfg log s.submitted a) (sid : Bytes) (now : Int)
    {ec : ErrorCode} (hec : ec ≠ .ok) (msg fr : String) :
    ∀ a ∈ (completeSlot w { slot with cachedSessionId := sid } now ec msg fr).1.answers,
      AnswerOk cfg log s.submitted a := by
  obtain ⟨req, hsub, hprog⟩ := h.busy slot hs hb
  intro a ha
  rw [completeSlot_answers] at ha
  rcases List.mem_append.mp ha with ha | ha
  · exact hw a ha
  · rw [List.mem_singleton.mp ha]
    exact ⟨req, hsub, hprog.fails hec msg fr⟩

/-- A step that calls no callback and takes no request into a slot. -/
theorem Told.of_quiet (h : Told cfg log s) (hsub : t.submitted = s.submitted)
    (hstr : t.world.streamed = s.world.streamed) (hqueue : ∀ e ∈ t.queue, e ∈ s.queue)
    (hbusy : ∀ slot ∈ t.slots, slot.isBusy = true → ∃ req,
      s.submitted[slot.promise]? = some req ∧
        InProgress cfg req (entriesOf slot.promise log) slot)
    (hans : ∀ a ∈ t.world.answers, AnswerOk cfg log s.submitted a) : Told cfg log t := by
  obtain ⟨slots, queue, running, phase, batch, world, submitted⟩ := t
  dsimp only at hsub hstr hqueue hbusy hans
  subst hsub
  refine ⟨?_, ?_, fun e he => h.queued e (hqueue e he), hbusy, hans⟩
  · dsimp only
    rw [hstr]
    exact h.streamed
  · dsimp only
    rw [hstr]
    exact h.fresh

theorem told_submit (h : Told cfg log s) (new : GenerateRequest) :
    Told cfg log (submit cfg s new) := by
  have hold : ∀ {p : Nat} {req : GenerateRequest}, s.submitted[p]? = some req →
      (s.submitted ++ [new])[p]? = some req := fun hp =>
    (List.getElem?_append_left (List.getElem?_eq_some_iff.mp hp).1).trans hp
  have hnew : (s.submitted ++ [new])[s.submitted.length]? = some new := by simp
  obtain ⟨hnone, hquiet⟩ := h.fresh s.submitted.length (Nat.le_refl _)
  have hstreamed : ∀ p req, (s.submitted ++ [new])[p]? = some req →
      entriesOf p s.world.streamed = calls cfg req (shown cfg (entriesOf p log)) := by
    intro p req hp
    rcases Nat.lt_or_ge p s.submitted.length with hlt | hge
    · rw [List.getElem?_append_left hlt] at hp
      exact h.streamed p req hp
    · obtain ⟨h1, h2⟩ := h.fresh p hge
      rw [h1, h2]
      simp [calls, shown]
  have hfresh : ∀ p, (s.submitted ++ [new]).length ≤ p →
      entriesOf p log = [] ∧ entriesOf p s.world.streamed = [] := fun p hp =>
    h.fresh p (by
      rw [List.length_append] at hp
      omega)
  have hbusy : ∀ slot ∈ s.slots, slot.isBusy = true →
      ∃ req, (s.submitted ++ [new])[slot.promise]? = some req ∧
        InProgress cfg req (entriesOf slot.promise log) slot := by
    intro slot hs hb
    obtain ⟨req, hsub, hprog⟩ := h.busy slot hs hb
    exact ⟨req, hold hsub, hprog⟩
  have hanswered : ∀ a ∈ s.world.answers, AnswerOk cfg log (s.submitted ++ [new]) a := by
    intro a ha
    obtain ⟨req, hsub, hans⟩ := h.answered a ha
    exact ⟨req, hold hsub, hans⟩
  unfold submit
  dsimp only
  split
  · refine ⟨hstreamed, hfresh, fun e he => ?_, hbusy, ?_⟩
    · exact ⟨hold (h.queued e he).1, (h.queued e he).2⟩
    · intro a ha
      rcases List.mem_append.mp ha with ha | ha
      · exact hanswered a ha
      · rw [List.mem_singleton.mp ha]
        exact ⟨new, hnew, hnone ▸ Answers.of_refusal (by simp [refusals])⟩
  · refine ⟨hstreamed, hfresh, fun e he => ?_, hbusy, hanswered⟩
    rcases List.mem_append.mp he with he | he
    · exact ⟨hold (h.queued e he).1, (h.queued e he).2⟩
    · rw [List.mem_singleton.mp he]
      exact ⟨hnew, hnone⟩

/-! ## The steps -/

/-- No slot works on a request that is queued, answered or not yet submitted. -/
theorem LoopInv.unowned (h : LoopInv cfg s) {p : Nat}
    (hp : 0 < s.queued p ∨ 0 < s.world.answered p ∨ s.submitted.length ≤ p) :
    (s.slots.map (Slot.owes p)).sum = 0 := by
  have hacc := h.accounted p
  unfold State.owed at hacc
  split_ifs at hacc <;> omega

theorem queued_pos {e : PendingRequest} (he : e ∈ s.queue) : 0 < s.queued e.promise :=
  List.countP_pos_iff.mpr ⟨e, he, by simp⟩

theorem answered_pos {w : World} {a : Nat × GenerateResult} (ha : a ∈ w.answers) :
    0 < w.answered a.1 :=
  List.countP_pos_iff.mpr ⟨a, ha, by simp⟩

/-- The world, the batch and the slots of a batch: nothing of an output changes. -/
theorem buildSlot_world (st : World × List BatchEntry) (slot : Slot) :
    (buildSlot st slot).1.1.answers = st.1.answers ∧
      (buildSlot st slot).1.1.streamed = st.1.streamed := by
  unfold buildSlot
  split
  · exact ⟨rfl, rfl⟩
  · split
    · split
      · split
        · exact ⟨rfl, rfl⟩
        · exact ⟨rfl, rfl⟩
      · exact ⟨rfl, rfl⟩
    · exact ⟨rfl, rfl⟩

theorem buildSlot_inProgress (st : World × List BatchEntry) {slot : Slot} {toks : List Token}
    (h : InProgress cfg req toks slot) : InProgress cfg req toks (buildSlot st slot).2 := by
  have hout := h.output
  unfold buildSlot
  split
  · exact h
  · split
    · split
      · split
        · exact ⟨⟨hout.1, hout.2, hout.3, hout.4, hout.5, hout.6, hout.7⟩, h.goesOn, h.onToken⟩
        · exact h
      · exact ⟨⟨hout.1, hout.2, hout.3, hout.4, hout.5, hout.6, hout.7⟩, h.goesOn, h.onToken⟩
    · exact ⟨⟨hout.1, hout.2, hout.3, hout.4, hout.5, hout.6, hout.7⟩, h.goesOn, h.onToken⟩

theorem told_build (h : Told cfg log s) (b : List BatchEntry) (ph : Phase) :
    Told cfg log { s with
      world := (forEach buildSlot (s.world, []) s.slots).1.1
      batch := b
      slots := (forEach buildSlot (s.world, []) s.slots).2
      phase := ph } := by
  have hworld : (forEach buildSlot (s.world, []) s.slots).1.1.answers = s.world.answers ∧
      (forEach buildSlot (s.world, []) s.slots).1.1.streamed = s.world.streamed :=
    forEach_keeps (P := fun st : World × List BatchEntry =>
        st.1.answers = s.world.answers ∧ st.1.streamed = s.world.streamed)
      (fun st slot _ hst => ⟨(buildSlot_world st slot).1.trans hst.1,
        (buildSlot_world st slot).2.trans hst.2⟩) ⟨rfl, rfl⟩
  refine h.of_quiet rfl hworld.2 (fun _ he => he) ?_ ?_
  · intro slot' hs hb
    obtain ⟨slot, hm, st, rfl⟩ := forall₂_mem_right
      (forEach_forall₂ (R := fun a a' => ∃ st, a' = (buildSlot st a).2)
        (fun st a => ⟨st, rfl⟩) (s.world, []) s.slots) hs
    have hkeep := buildSlot_slotStep (l := .stop) st slot
    obtain ⟨req, hsub, hprog⟩ := h.busy slot hm (hkeep.busy hb)
    rw [hkeep.promise]
    exact ⟨req, hsub, buildSlot_inProgress st hprog⟩
  · dsimp only
    rw [hworld.1]
    exact h.answered

/-- A failed decode ends the requests at or behind the failing chunk. -/
theorem told_fail (h : Told cfg log s) (o : Oracle) (cs : Nat) :
    Told cfg log { s with
      world := (forEach (failSlot cs o) s.world s.slots).1
      slots := (forEach (failSlot cs o) s.world s.slots).2
      phase := .loopHead } := by
  have hstr : (forEach (failSlot cs o) s.world s.slots).1.streamed = s.world.streamed :=
    forEach_keeps (P := fun w : World => w.streamed = s.world.streamed) (fun w slot _ hw => by
      unfold failSlot
      split
      · exact (completeSlot_streamed _ _ _ _ _ _).trans hw
      · exact hw) rfl
  refine h.of_quiet rfl hstr (fun _ he => he) ?_ ?_
  · intro slot' hs hb
    obtain ⟨slot, hm, w, rfl⟩ := forall₂_mem_right
      (forEach_forall₂ (R := fun a a' => ∃ w, a' = (failSlot cs o w a).2)
        (fun w a => ⟨w, rfl⟩) s.world s.slots) hs
    by_cases hf : slot.isBusy ∧ (cs : Int) ≤ slot.iBatch
    · rw [failSlot, if_pos hf, completeSlot_not_busy] at hb
      cases hb
    · rw [failSlot, if_neg hf] at hb ⊢
      exact h.busy slot hm hb
  · refine forEach_keeps (P := fun w : World => ∀ a ∈ w.answers, AnswerOk cfg log s.submitted a)
      (fun w slot hs hw => ?_) h.answered
    unfold failSlot
    split
    · rename_i hf
      exact h.complete hs hf.1 hw slot.cachedSessionId _ (by decide) _ _
    · exact hw

/-- The drain of the slots ends their requests. -/
theorem told_drain (h : Told cfg log s) (o : Oracle) :
    Told cfg log { s with
      world := (forEach (drainSlot o) s.world s.slots).1
      slots := (forEach (drainSlot o) s.world s.slots).2
      phase := .drainQueue } := by
  have hstr : (forEach (drainSlot o) s.world s.slots).1.streamed = s.world.streamed :=
    forEach_keeps (P := fun w : World => w.streamed = s.world.streamed) (fun w slot _ hw => by
      unfold drainSlot
      split
      · exact (completeSlot_streamed _ _ _ _ _ _).trans hw
      · split
        · exact hw
        · exact hw) rfl
  refine h.of_quiet rfl hstr (fun _ he => he) ?_ ?_
  · intro slot' hs hb
    obtain ⟨slot, hm, w, rfl⟩ := forall₂_mem_right
      (forEach_forall₂ (R := fun a a' => ∃ w, a' = (drainSlot o w a).2)
        (fun w a => ⟨w, rfl⟩) s.world s.slots) hs
    rw [drainSlot_not_busy] at hb
    cases hb
  · refine forEach_keeps (P := fun w : World => ∀ a ∈ w.answers, AnswerOk cfg log s.submitted a)
      (fun w slot hs hw => ?_) h.answered
    unfold drainSlot
    split
    · rename_i hb
      exact h.complete hs hb hw [] _ (by decide) _ _
    · split
      · exact hw
      · exact hw

/-- The final drain of the queue answers the requests in it. -/
theorem told_drainQueue (h : Told cfg log s) : Told cfg log (drainQueue s) := by
  have hkey : ∀ (queue : List PendingRequest) (w : World), (∀ e ∈ queue, e ∈ s.queue) →
      (∀ a ∈ w.answers, AnswerOk cfg log s.submitted a) → w.streamed = s.world.streamed →
      (∀ a ∈ (queue.foldl (fun w entry => w.setValue entry.promise shuttingDown) w).answers,
        AnswerOk cfg log s.submitted a) ∧
      (queue.foldl (fun w entry => w.setValue entry.promise shuttingDown) w).streamed =
        s.world.streamed := by
    intro queue
    induction queue with
    | nil => exact fun w _ hw hstr => ⟨hw, hstr⟩
    | cons e queue ih =>
      intro w hsub hw hstr
      exact ih _ (fun e' he' => hsub e' (List.mem_cons_of_mem e he'))
        (h.setValue (hsub e List.mem_cons_self) hw
          (Answers.of_refusal (by simp [refusals]))) hstr
  obtain ⟨hans, hstr⟩ := hkey s.queue s.world (fun _ he => he) h.answered rfl
  exact h.of_quiet rfl hstr (fun _ he => by cases he) h.busy hans

theorem placePrompt_streamed (w : World) (slot : Slot) (req : GenerateRequest) (n : Nat) :
    (placePrompt w slot req n).1.streamed = w.streamed := by
  unfold placePrompt
  split
  · rfl
  · dsimp only
    split
    · rfl
    · rfl

theorem admitInto_streamed (w : World) (entry : PendingRequest) (sel : Selection) :
    (admitInto cfg w entry sel).1.streamed = w.streamed := by
  cases sel with
  | reuse slot n => exact placePrompt_streamed w slot entry.req n
  | free slot => exact placePrompt_streamed w slot entry.req 0
  | evict slot => exact placePrompt_streamed (evictSlot w slot).1 (evictSlot w slot).2 entry.req 0

/-- An admission: nothing was sampled for the request yet. -/
theorem told_accept (h : Told cfg log s) {entry : PendingRequest} {rest : List PendingRequest}
    (hq : s.queue = entry :: rest) (sel : Selection) :
    Told cfg log { s with
      world := (admitInto cfg s.world entry sel).1
      slots := updateSlot s.slots (admitInto cfg s.world entry sel).2
      queue := rest } := by
  have hin : ∀ e ∈ rest, e ∈ s.queue := fun e he => hq ▸ List.mem_cons_of_mem entry he
  obtain ⟨hsub, hnone⟩ := h.queued entry (hq ▸ List.mem_cons_self)
  refine h.of_quiet rfl (admitInto_streamed _ _ _) hin ?_ ?_
  · intro slot hs hb
    rcases mem_updateSlot hs with rfl | ⟨hm, -⟩
    · have hprom : (admitInto cfg s.world entry sel).2.promise = entry.promise := by
        cases sel <;> rfl
      rw [hprom, hnone]
      refine ⟨entry.req, hsub, ?_, trivial, ?_⟩
      · cases sel <;> exact ⟨rfl, rfl, rfl, rfl, rfl, rfl, rfl⟩
      · cases sel <;> rfl
    · exact h.busy slot hm hb
  · rw [admitInto_answers]
    exact h.answered

/-- A decoded chunk: every slot whose logit is in it has its token sampled. -/
theorem told_sample (hl : LoopInv cfg s) (h : Told cfg log s) (o : Oracle) (cs n : Nat)
    (ph : Phase) :
    Told cfg (log ++ s.slots.flatMap (sampleOf o cs n)) { s with
      world := (forEach (sampleInChunk cfg o cs n) (s.decoded cs n) s.slots).1
      slots := (forEach (sampleInChunk cfg o cs n) (s.decoded cs n) s.slots).2
      phase := ph } := by
  have hstr : (forEach (sampleInChunk cfg o cs n) (s.decoded cs n) s.slots).1.streamed =
      s.world.streamed ++ s.slots.flatMap (callMade cfg o cs n) :=
    forEach_appends World.streamed _ (sampleInChunk_streamed o cs n) (s.decoded cs n) s.slots
  -- of a request in no slot nothing is sampled
  have hunowned : ∀ {p : Nat}, (s.slots.map (Slot.owes p)).sum = 0 →
      entriesOf p (log ++ s.slots.flatMap (sampleOf o cs n)) = entriesOf p log ∧
        entriesOf p (s.world.streamed ++ s.slots.flatMap (callMade cfg o cs n)) =
          entriesOf p s.world.streamed := by
    intro p hp
    exact ⟨entries_unowned p (sampleOf_unowned o cs n p) hp _,
      entries_unowned p (callMade_unowned o cs n p) hp _⟩
  have hown : ∀ {slot : Slot}, slot ∈ s.slots → slot.isBusy = true →
      entriesOf slot.promise (log ++ s.slots.flatMap (sampleOf o cs n)) =
          entriesOf slot.promise log ++ entriesOf slot.promise (sampleOf o cs n slot) ∧
        entriesOf slot.promise (s.world.streamed ++ s.slots.flatMap (callMade cfg o cs n)) =
          entriesOf slot.promise s.world.streamed ++
            entriesOf slot.promise (callMade cfg o cs n slot) := by
    intro slot hs hb
    have ho : slot.owes slot.promise = 1 := by rw [owes_of_busy hb, if_pos rfl]
    exact ⟨entries_owner _ (sampleOf_unowned o cs n _) (hl.owed_le _) hs ho _,
      entries_owner _ (callMade_unowned o cs n _) (hl.owed_le _) hs ho _⟩
  refine ⟨?_, ?_, ?_, ?_, ?_⟩
  · intro p req hp
    dsimp only at hp ⊢
    rw [hstr]
    by_cases hzero : (s.slots.map (Slot.owes p)).sum = 0
    · rw [(hunowned hzero).1, (hunowned hzero).2]
      exact h.streamed p req hp
    · obtain ⟨slot, hs, hb, rfl⟩ := exists_owner hzero
      obtain ⟨req', hsub, hprog⟩ := h.busy slot hs hb
      rw [hp] at hsub
      cases hsub
      rw [(hown hs hb).1, (hown hs hb).2, h.streamed _ _ hp]
      exact (hprog.calls_step o cs n).symm
  · intro p hp
    dsimp only at hp ⊢
    have hzero := hl.unowned (Or.inr (Or.inr hp))
    rw [hstr, (hunowned hzero).1, (hunowned hzero).2]
    exact h.fresh p hp
  · intro e he
    rw [(hunowned (hl.unowned (Or.inl (queued_pos he)))).1]
    exact h.queued e he
  · intro slot' hs hb
    obtain ⟨slot, hm, w, rfl⟩ := forall₂_mem_right
      (forEach_forall₂ (R := fun a a' => ∃ w, a' = (sampleInChunk cfg o cs n w a).2)
        (fun w a => ⟨w, rfl⟩) (s.decoded cs n) s.slots) hs
    have hkeep : SlotStep (.work o) slot (sampleInChunk cfg o cs n w slot).2 :=
      sampleInChunk_slotStep o cs n w slot
    have hbusy := hkeep.busy hb
    obtain ⟨req, hsub, hprog⟩ := h.busy slot hm hbusy
    rw [hkeep.promise, (hown hm hbusy).1]
    exact ⟨req, hsub, hprog.sampled o cs n hb⟩
  · refine forEach_keeps (P := fun w : World => ∀ a ∈ w.answers,
      AnswerOk cfg (log ++ s.slots.flatMap (sampleOf o cs n)) s.submitted a)
      (fun w slot hs hw a ha => ?_) ?_
    · by_cases hb : slot.isBusy = true
      · obtain ⟨req, hsub, hprog⟩ := h.busy slot hs hb
        rcases InProgress.answered o cs n (fun _ => hprog) ha with ha | ⟨-, hp, hans⟩
        · exact hw a ha
        · refine ⟨req, hp ▸ hsub, ?_⟩
          rw [hp, (hown hs hb).1]
          exact hans
      · have hout : ¬ InChunk cs n slot := fun hin => hb hin.1
        rw [sampleInChunk_skips o w hout] at ha
        exact hw a ha
    · intro a ha
      obtain ⟨req, hsub, hans⟩ := h.answered a ha
      refine ⟨req, hsub, ?_⟩
      rw [(hunowned (hl.unowned (Or.inr (Or.inl (answered_pos ha))))).1]
      exact hans

/-- Every step keeps what the clients have been told. -/
theorem told_step (hl : LoopInv cfg s) (h : Told cfg log s) (hst : step cfg s l = some t) :
    Told cfg (log ++ s.samples l) t := by
  have quiet : ∀ {t : State}, s.samples l = [] → Told cfg log t →
      Told cfg (log ++ s.samples l) t := by
    intro t hs ht
    rw [hs, List.append_nil]
    exact ht
  have same : ∀ {t : State}, t.submitted = s.submitted → t.world = s.world →
      t.queue = s.queue → t.slots = s.slots → Told cfg log t := by
    intro t h1 h2 h3 h4
    exact h.of_quiet h1 (h2 ▸ rfl) (fun e he => h3 ▸ he) (h4 ▸ h.busy) (h2 ▸ h.answered)
  cases step_cases hst with
  | submit req hp => exact quiet rfl (told_submit h req)
  | stop => exact quiet rfl (same rfl rfl rfl rfl)
  | enter o hp hr => exact quiet (by simp [State.samples, hp]) (same rfl rfl rfl rfl)
  | leave o hp hr => exact quiet (by simp [State.samples, hp]) (same rfl rfl rfl rfl)
  | admitDone o hp => exact quiet (by simp [State.samples, hp]) (same rfl rfl rfl rfl)
  | reject o hp entry rest hq res hres =>
    refine quiet (by simp [State.samples, hp]) (h.of_quiet rfl rfl ?_ h.busy ?_)
    · exact fun e he => hq ▸ List.mem_cons_of_mem entry he
    · exact h.setValue (hq ▸ List.mem_cons_self) h.answered (rejected_answers hres)
  | accept o hp entry rest hq hne hlen sel hsel =>
    exact quiet (by simp [State.samples, hp]) (told_accept h hq sel)
  | idle o hp hb => exact quiet (by simp [State.samples, hp]) (same rfl rfl rfl rfl)
  | build o hp hb => exact quiet (by simp [State.samples, hp]) (told_build h _ _)
  | decodeDone o cs nb hp hcs =>
    exact quiet (by simp [State.samples, hp, Nat.not_lt.mpr hcs]) (same rfl rfl rfl rfl)
  | decodeFail o cs nb hp hcs hret hfail =>
    exact quiet (by simp [State.samples, hp, hret]) (told_fail h o cs)
  | decodeRetry o cs nb hp hcs hret hnb =>
    exact quiet (by simp [State.samples, hp, hret.ne']) (same rfl rfl rfl rfl)
  | decodeOk o cs nb hp hcs hret =>
    have hsamples : s.samples (.work o) =
        s.slots.flatMap (sampleOf o cs (s.chunkTokens cs nb)) := by
      simp [State.samples, hp, hcs, hret]
    rw [hsamples]
    exact told_sample hl h o cs (s.chunkTokens cs nb) _
  | drainSlots o hp => exact quiet (by simp [State.samples, hp]) (told_drain h o)
  | drainQueue o hp => exact quiet (by simp [State.samples, hp]) (told_drainQueue h)

theorem told_run {ls : List Label} (hl : LoopInv cfg s) (h : Told cfg log s)
    (hr : run (step cfg) s ls = some t) : Told cfg (log ++ sampled cfg s ls) t := by
  induction ls generalizing s log with
  | nil =>
    cases hr
    rw [sampled, List.append_nil]
    exact h
  | cons l ls ih =>
    obtain ⟨u, hu, hr⟩ := run_cons.mp hr
    rw [sampled, hu]
    dsimp only
    rw [← List.append_assoc]
    exact ih (loopInv_step hl hu) (told_step hl h hu) hr

/-- Batching is transparent. In every reachable state, for every submitted request: the
    callback was called exactly for the tokens sampled for the request, in order and with
    their texts, and not for an end-of-generation token; and an answer to it has exactly
    these tokens and their text, and their number unless it refuses a request that never had a
    slot. An answer without an error is moreover the one that the request alone in the
    scheduler gets on the same samples. -/
theorem batching_transparent (cfg : Config) {ls : List Label} {s : State}
    (hr : run (step cfg) (init cfg) ls = some s) {p : Nat} {req : GenerateRequest}
    (hp : s.submitted[p]? = some req) :
    let toks := entriesOf p (sampled cfg (init cfg) ls)
    entriesOf p s.world.streamed = calls cfg req (shown cfg toks) ∧
      ∀ res, (p, res) ∈ s.world.answers → res.tokens = shown cfg toks ∧
        res.text = res.tokens.flatMap (fun tok => pieceText cfg.vocab tok false) ∧
        (res ∈ refusals cfg req ∨ res.generatedTokens = some res.tokens.length) ∧
        (res.error = .ok →
          schedulerGenerate cfg req (fun k => toks.getD k 0) = some res) := by
  have h := told_run loopInv_init told_init hr
  rw [List.nil_append] at h
  refine ⟨h.streamed p req hp, ?_⟩
  intro res ha
  obtain ⟨req', hsub, hans⟩ := h.answered (p, res) ha
  rw [hp] at hsub
  cases hsub
  exact ⟨hans.tokens, hans.text, hans.count, hans.solo⟩

/-- Two requests decoded together; the first is streamed and reaches its limit, the second
    ends with an end-of-generation token one batch later. -/
def twoStreamsRun : List Label :=
  [.submit { tokens := [1], maxTokens := 2, onToken := true },
    .submit { tokens := [3, 4], maxTokens := 9 }] ++ works 12 7 ++ works 5 2

theorem batching_transparent_two : ∃ s, run (step (tinyConfig 8 2)) (init (tinyConfig 8 2))
      twoStreamsRun = some s ∧
    s.world.answers.map (fun a => (a.1, a.2.tokens, a.2.finishReason)) =
      [(0, [7, 7], "length"), (1, [7, 7], "stop")] ∧
    entriesOf 0 s.world.streamed = [(7, [65]), (7, [65])] ∧
    ∀ res, (1, res) ∈ s.world.answers → res.error = .ok →
      schedulerGenerate (tinyConfig 8 2) { tokens := [3, 4], maxTokens := 9 }
        (fun k => [7, 7, 2].getD k 0) = some res := by
  have hrun : (run (step (tinyConfig 8 2)) (init (tinyConfig 8 2)) twoStreamsRun).map
      (fun s => s.world.answers.map fun a => (a.1, a.2.tokens, a.2.finishReason)) =
      some [(0, [7, 7], "length"), (1, [7, 7], "stop")] := by decide +kernel
  have hsubmitted : (run (step (tinyConfig 8 2)) (init (tinyConfig 8 2)) twoStreamsRun).map
      State.submitted = some [{ tokens := [1], maxTokens := 2, onToken := true },
        { tokens := [3, 4], maxTokens := 9 }] := by decide +kernel
  have hsampled : entriesOf 0 (sampled (tinyConfig 8 2) (init (tinyConfig 8 2)) twoStreamsRun) =
      [7, 7] := by decide +kernel
  have hsampled' : entriesOf 1 (sampled (tinyConfig 8 2) (init (tinyConfig 8 2)) twoStreamsRun) =
      [7, 7, 2] := by decide +kernel
  obtain ⟨s, hs, hans⟩ := Option.map_eq_some_iff.mp hrun
  rw [hs, Option.map_some, Option.some.injEq] at hsubmitted
  have h0 : s.submitted[0]? = some { tokens := [1], maxTokens := 2, onToken := true } := by
    rw [hsubmitted]
    rfl
  have h1 : s.submitted[1]? = some { tokens := [3, 4], maxTokens := 9 } := by
    rw [hsubmitted]
    rfl
  obtain ⟨hcalls, -⟩ := batching_transparent (tinyConfig 8 2) hs h0
  obtain ⟨-, hres⟩ := batching_transparent (tinyConfig 8 2) hs h1
  rw [hsampled] at hcalls
  rw [hsampled'] at hres
  exact ⟨s, hs, hans, hcalls.trans (by decide), fun res ha => (hres res ha).2.2.2⟩

end TruellmEngine.Scheduler
