/-
  How a call of `CudaEngine::generate` ended, and what its result says about it.

  `finish_reason` is "stop" from the start, and no exit of `generate` sets it. The breaks of
  the decode loop lead to one epilogue, which sets the error to `Ok`. `Ending` tells the exits
  apart, as a ghost beside the calls.
-/
import TruellmEngine.Cuda.CallsIsolated

namespace TruellmEngine.Cuda

open Lib

variable {ι Cell Logits Capture Book : Type*}

/-- The exits of `generate`. -/
inductive Ending where
  /-- No blocks for the prompt, or none at a boundary of the prefill. -/
  | poolExhausted
  | prefillFailed
  /-- `max_tokens` steps. -/
  | limit
  /-- An end-of-sequence or stop token. -/
  | stopToken
  /-- No block at a boundary of the decode loop. -/
  | decodeExhausted
  | decodeFailed
  deriving DecidableEq

namespace Ending

/-- The pool ran out, or a forward pass of the decode loop failed. -/
def isFailure : Ending → Bool
  | .poolExhausted | .decodeExhausted | .decodeFailed => true
  | .prefillFailed | .limit | .stopToken => false

/-- A break of the decode loop for want of a block or of logits. -/
def breaksDecode : Ending → Bool
  | .decodeExhausted | .decodeFailed => true
  | .poolExhausted | .prefillFailed | .limit | .stopToken => false

/-- The result does not claim a normal end behind a failure. -/
def Reported (en : Ending) (r : GenerateResult) : Prop :=
  en.isFailure = true → r.error ≠ .ok ∨ r.finishReason ≠ "stop"

/-- The result has "stop" only for a token that stops the loop. -/
def StopIsStop (en : Ending) (r : GenerateResult) : Prop :=
  r.finishReason = "stop" → en = .stopToken

end Ending

variable (e : Engine Cell Logits Capture Book) (seqId : ι → UInt64)

/-- The exit that the next step of the call takes, if it takes one. -/
def endingOf (i : ι) (d : Device ι Cell Logits Capture Book) (c : Call) : Option Ending :=
  match c.phase with
  | .allocate =>
    if (d.alloc.allocateSequence (seqId i) c.req.tokens.length).1 then none
    else some .poolExhausted
  | .extend _ =>
    if (d.alloc.extendSequence (seqId i)).1 = none then some .poolExhausted else none
  | .prefill =>
    if (runForward e i (seqId i) (c.passes + 1) d c.seqPos (c.chunk e)).isOk then none
    else some .prefillFailed
  | .sample =>
    let token := e.sampler d.logits.value
    if c.req.maxTokens ≤ c.step then some .limit
    else if (e.vocab.typed && token == e.vocab.eos) || c.req.stopTokens.any (token == ·) then
      some .stopToken
    else none
  | .decodeExtend =>
    if (d.alloc.extendSequence (seqId i)).1 = none then some .decodeExhausted else none
  | .decode =>
    if (runForward e i (seqId i) (c.passes + 1) d c.seqPos [c.nextToken]).isOk then none
    else some .decodeFailed
  | .reduce | .release | .returned => none

/-- The result of the call is final. -/
def Phase.over : Phase → Bool
  | .release | .returned => true
  | _ => false

/-! ## One step -/

/-- What an exit makes of a result. -/
structure EndsAs (en : Ending) (c' : Call) : Prop where
  isOver : c'.phase.over = true
  decode : en.breaksDecode = true → c'.result.error = .ok
  pool : en = .poolExhausted → c'.result.error = .unavailable

/-- What a step does to the result of a call. -/
structure ResultStep (ending : Option Ending) (c c' : Call) : Prop where
  finishReason : c'.result.finishReason = c.result.finishReason
  goesOn : ending = none → c'.phase.over = c.phase.over
  ends : ∀ en, ending = some en → EndsAs en c'
  final : c.phase.over = true → c'.phase.over = true ∧ c'.result = c.result

variable {e seqId}

theorem ResultStep.between {c c' : Call} (hover : c.phase.over = false)
    (hover' : c'.phase.over = false) (h : c'.result.finishReason = c.result.finishReason) :
    ResultStep none c c' :=
  ⟨h, fun _ => hover'.trans hover.symm, nofun, fun hc => absurd hc (by rw [hover]; decide)⟩

theorem ResultStep.exits {en : Ending} {c c' : Call} (hover : c.phase.over = false)
    (h : c'.result.finishReason = c.result.finishReason) (hends : EndsAs en c') :
    ResultStep (some en) c c' := by
  refine ⟨h, nofun, fun en' hen => ?_, fun hc => absurd hc (by rw [hover]; decide)⟩
  cases hen
  exact hends

theorem beginPrefill_goesOn (c : Call) :
    (c.beginPrefill e).phase.over = false ∧ (c.beginPrefill e).result = c.result := by
  rcases beginPrefill_cases (e := e) c with ⟨k, -, h⟩ | h | ⟨-, -, h⟩
  · rw [h]
    exact ⟨rfl, rfl⟩
  · rw [h]
    exact ⟨rfl, rfl⟩
  · rw [h]
    exact ⟨rfl, rfl⟩

theorem afterExtend_goesOn (c : Call) (k : Nat) :
    (c.afterExtend e k).phase.over = false ∧ (c.afterExtend e k).result = c.result := by
  rcases afterExtend_cases (e := e) c k with ⟨k', -, h⟩ | h
  · rw [h]
    exact ⟨rfl, rfl⟩
  · rw [h]
    exact ⟨rfl, rfl⟩

theorem afterPrefill_goesOn (c : Call) :
    (c.afterPrefill e).phase.over = false ∧ (c.afterPrefill e).result = c.result := by
  rcases afterPrefill_cases (e := e) c with h | ⟨-, h⟩ | ⟨-, -, h⟩
  · rw [h]
    exact ⟨rfl, rfl⟩
  · rw [h]
    exact ⟨rfl, rfl⟩
  · rw [h]
    exact ⟨rfl, rfl⟩

theorem resultStep_sample {d : Device ι Cell Logits Capture Book} {c : Call} (i : ι)
    (hphase : c.phase = .sample) :
    ResultStep (endingOf e seqId i d c) c (c.afterSample e (e.sampler d.logits.value)) := by
  have hover : c.phase.over = false := by rw [hphase]; rfl
  unfold endingOf Call.afterSample
  rw [hphase]
  dsimp only
  split
  · exact .exits hover rfl ⟨rfl, nofun, nofun⟩
  split
  · rename_i hstop
    have hends : ResultStep (some .stopToken) c
        { c with nextToken := e.sampler d.logits.value }.finish :=
      .exits hover rfl ⟨rfl, nofun, nofun⟩
    split
    · exact hends
    split
    · exact hends
    · rename_i heos hlisted
      simp only [Bool.or_eq_true, heos, hlisted, or_self] at hstop
      cases hstop
  · rename_i hstop
    simp only [Bool.or_eq_true, not_or] at hstop
    rw [if_neg hstop.1, if_neg hstop.2]
    split
    · exact .between hover rfl rfl
    · exact .between hover rfl rfl

variable (e seqId) in
theorem resultStep (i : ι) (d : Device ι Cell Logits Capture Book) (c : Call) :
    ResultStep (endingOf e seqId i d c) c (act e seqId i d c).2 := by
  cases hphase : c.phase with
  | allocate =>
    unfold endingOf act
    rw [hphase]
    dsimp only
    split
    · exact .between (by rw [hphase]; rfl) rfl rfl
    · exact .exits (by rw [hphase]; rfl) rfl ⟨rfl, nofun, fun _ => rfl⟩
  | reduce =>
    unfold endingOf act
    rw [hphase]
    obtain ⟨hover, hresult⟩ := beginPrefill_goesOn (e := e) { c with
      phase := .reduce
      prompt := e.compressTokens d.capture c.req.tokens
      result := { c.result with
        promptTokens := (e.compressTokens d.capture c.req.tokens).length } }
    have hbefore : c.phase.over = false := by rw [hphase]; rfl
    refine .between hbefore hover ?_
    exact (congrArg GenerateResult.finishReason hresult).trans rfl
  | extend k =>
    unfold endingOf act
    rw [hphase]
    dsimp only
    rcases d.alloc.extendSequence (seqId i) with ⟨_ | id, a⟩
    · rw [if_pos rfl]
      exact .exits (by rw [hphase]; rfl) rfl ⟨rfl, nofun, fun _ => rfl⟩
    · rw [if_neg (Option.some_ne_none _)]
      obtain ⟨hover, hresult⟩ := afterExtend_goesOn (e := e) c k
      refine .between (by rw [hphase]; rfl) hover ?_
      exact congrArg GenerateResult.finishReason hresult
  | prefill =>
    unfold endingOf act
    rw [hphase]
    dsimp only
    rcases runForward e i (seqId i) (c.passes + 1) d c.seqPos (c.chunk e) with ec | d'
    · exact .exits (by rw [hphase]; rfl) rfl ⟨rfl, nofun, nofun⟩
    · obtain ⟨hover, hresult⟩ := afterPrefill_goesOn (e := e) { c with
        phase := .prefill, passes := c.passes + 1, seqPos := c.seqPos + (c.chunk e).length }
      refine .between (by rw [hphase]; rfl) hover ?_
      exact congrArg GenerateResult.finishReason hresult
  | sample =>
    have hact : (act e seqId i d c).2 = c.afterSample e (e.sampler d.logits.value) := by
      unfold act
      rw [hphase]
    rw [hact]
    exact resultStep_sample i hphase
  | decodeExtend =>
    unfold endingOf act
    rw [hphase]
    dsimp only
    rcases d.alloc.extendSequence (seqId i) with ⟨_ | id, a⟩
    · rw [if_pos rfl]
      exact .exits (by rw [hphase]; rfl) rfl ⟨rfl, fun _ => rfl, nofun⟩
    · rw [if_neg (Option.some_ne_none _)]
      exact .between (by rw [hphase]; rfl) rfl rfl
  | decode =>
    unfold endingOf act
    rw [hphase]
    dsimp only
    rcases runForward e i (seqId i) (c.passes + 1) d c.seqPos [c.nextToken] with ec | d'
    · exact .exits (by rw [hphase]; rfl) rfl ⟨rfl, fun _ => rfl, nofun⟩
    · exact .between (by rw [hphase]; rfl) rfl rfl
  | release =>
    unfold endingOf act
    rw [hphase]
    exact ⟨rfl, fun _ => by rw [hphase]; rfl, nofun, fun _ => ⟨rfl, rfl⟩⟩
  | returned =>
    unfold endingOf act
    rw [hphase]
    exact ⟨rfl, fun _ => rfl, nofun, fun _ => ⟨by rw [hphase]; rfl, rfl⟩⟩

/-! ## Runs -/

/-- The calls on a device, and how each that is over has ended. -/
structure Watched (ι Cell Logits Capture Book : Type*) where
  calls : Calls ι Cell Logits Capture Book
  ending : ι → Option Ending

namespace Watched

variable [DecidableEq ι] (e seqId)

/-- The next step is taken by call `i`. -/
def next (w : Watched ι Cell Logits Capture Book) (i : ι) : Watched ι Cell Logits Capture Book where
  calls := w.calls.next (act e seqId) i
  ending := Function.update w.ending i
    ((endingOf e seqId i w.calls.shared (w.calls.locals i)).or (w.ending i))

def step (w : Watched ι Cell Logits Capture Book) (i : ι) :
    Option (Watched ι Cell Logits Capture Book) :=
  some (w.next e seqId i)

def start (reqs : ι → GenerateRequest) : Watched ι Cell Logits Capture Book where
  calls := Threads.start (e.newDevice ι) (issued reqs)
  ending := fun _ => none

/-- Every call that is over has ended in some way, and its result says so as `P` demands. -/
def Results (P : Ending → GenerateResult → Prop) (w : Watched ι Cell Logits Capture Book) : Prop :=
  ∀ i, (w.calls.locals i).phase.over = true →
    ∃ en, w.ending i = some en ∧ P en (w.calls.locals i).result

/-- If the step ends the call, it does so in one of these ways. -/
def EndsBy (ok : Ending → Prop) (w : Watched ι Cell Logits Capture Book) (i : ι) : Prop :=
  ∀ en, endingOf e seqId i w.calls.shared (w.calls.locals i) = some en → ok en

/-- What is known of the results: they say "stop", whatever the ending. -/
structure Known (ok : Ending → Prop) (w : Watched ι Cell Logits Capture Book) : Prop where
  stop : ∀ i, (w.calls.locals i).result.finishReason = "stop"
  ended : ∀ i, (w.calls.locals i).phase.over = true → ∃ en, w.ending i = some en
  endsAs : ∀ i en, w.ending i = some en → EndsAs en (w.calls.locals i) ∧ ok en

variable {e seqId}

omit [DecidableEq ι] in
theorem Known.results {P : Ending → GenerateResult → Prop} {ok : Ending → Prop}
    (hP : ∀ en c, c.result.finishReason = "stop" → EndsAs en c → (P en c.result ↔ ok en))
    {w : Watched ι Cell Logits Capture Book} (h : Known ok w) : Results P w := by
  intro i hover
  obtain ⟨en, hen⟩ := h.ended i hover
  obtain ⟨hends, hok⟩ := h.endsAs i en hen
  exact ⟨en, hen, (hP en _ (h.stop i) hends).mpr hok⟩

theorem Known.next {ok : Ending → Prop} {w : Watched ι Cell Logits Capture Book} (h : Known ok w)
    {i : ι} (hok : EndsBy e seqId ok w i) : Known ok (w.next e seqId i) := by
  have hstep := resultStep e seqId i w.calls.shared (w.calls.locals i)
  have hother : ∀ j, j ≠ i → (w.next e seqId i).calls.locals j = w.calls.locals j ∧
      (w.next e seqId i).ending j = w.ending j := fun j hj =>
    ⟨Function.update_of_ne hj _ _, Function.update_of_ne hj _ _⟩
  have hlocal : (w.next e seqId i).calls.locals i =
      (act e seqId i w.calls.shared (w.calls.locals i)).2 := Function.update_self _ _ _
  have hending : (w.next e seqId i).ending i =
      (endingOf e seqId i w.calls.shared (w.calls.locals i)).or (w.ending i) :=
    Function.update_self _ _ _
  refine ⟨fun j => ?_, fun j => ?_, fun j => ?_⟩
  · by_cases hj : j = i
    · rw [hj, hlocal]
      exact hstep.finishReason.trans (h.stop i)
    · rw [(hother j hj).1]
      exact h.stop j
  · by_cases hj : j = i
    · rw [hj, hlocal, hending]
      intro hover
      cases hen : endingOf e seqId i w.calls.shared (w.calls.locals i) with
      | some en => exact ⟨en, rfl⟩
      | none => exact h.ended i ((hstep.goesOn hen).symm.trans hover)
    · rw [(hother j hj).1, (hother j hj).2]
      exact h.ended j
  · by_cases hj : j = i
    · rw [hj, hlocal, hending]
      intro en hen
      cases hnew : endingOf e seqId i w.calls.shared (w.calls.locals i) with
      | some en' =>
        rw [hnew] at hen
        cases hen
        exact ⟨hstep.ends en hnew, hok en hnew⟩
      | none =>
        rw [hnew] at hen
        obtain ⟨hends, hwas⟩ := h.endsAs i en hen
        obtain ⟨hover, hresult⟩ := hstep.final hends.isOver
        exact ⟨⟨hover, by rw [hresult]; exact hends.decode, by rw [hresult]; exact hends.pool⟩,
          hwas⟩
    · rw [(hother j hj).1, (hother j hj).2]
      exact h.endsAs j

/-- Where the results say "stop", `P` holds of all of them along a run exactly when the calls
    of the run end in the ways of which `P` then holds. -/
theorem results_iff {P : Ending → GenerateResult → Prop} {ok : Ending → Prop}
    (hP : ∀ en c, c.result.finishReason = "stop" → EndsAs en c → (P en c.result ↔ ok en))
    (reqs : ι → GenerateRequest) (is : List ι) :
    AllStates (step e seqId) (Results P) (start e reqs) is ↔
      AllSteps (step e seqId) (EndsBy e seqId ok) (start e reqs) is := by
  refine allStates_iff_allSteps (I := Known ok) (fun _ h => h.results hP) ?_ ?_ ?_ is
  · intro w i w' h hok hw
    cases hw
    exact h.next hok
  · intro w i w' h hbad hw hresults
    cases hw
    unfold EndsBy at hbad
    push Not at hbad
    obtain ⟨en, hen, hnot⟩ := hbad
    have hstep := resultStep e seqId i w.calls.shared (w.calls.locals i)
    have hlocal : (w.next e seqId i).calls.locals i =
        (act e seqId i w.calls.shared (w.calls.locals i)).2 := Function.update_self _ _ _
    have hending : (w.next e seqId i).ending i = some en :=
      (Function.update_self _ _ _).trans (by rw [hen]; rfl)
    have hends := hstep.ends en hen
    obtain ⟨en', hen', hreport⟩ := hresults i (by rw [hlocal]; exact hends.isOver)
    rw [hending] at hen'
    cases hen'
    rw [hlocal] at hreport
    exact hnot ((hP en _ (hstep.finishReason.trans (h.stop i)) hends).mp hreport)
  · refine ⟨fun _ => rfl, fun i hover => ?_, nofun⟩
    cases hover

/-- The results are right along a run exactly when all its calls end by a token that stops
    them. They claim no normal end behind a failure exactly when no call leaves the decode
    loop for want of a block or of logits. -/
theorem finishReason_iff (e : Engine Cell Logits Capture Book) (seqId : ι → UInt64)
    (reqs : ι → GenerateRequest) (is : List ι) :
    (AllStates (step e seqId) (Results fun en r => en.Reported r ∧ en.StopIsStop r)
        (start e reqs) is ↔
      AllSteps (step e seqId) (EndsBy e seqId fun en => en = .stopToken) (start e reqs) is) ∧
    (AllStates (step e seqId) (Results Ending.Reported) (start e reqs) is ↔
      AllSteps (step e seqId) (EndsBy e seqId fun en => en.breaksDecode = false)
        (start e reqs) is) := by
  refine ⟨results_iff ?_ reqs is, results_iff ?_ reqs is⟩
  · intro en c hstop _
    constructor
    · intro h
      exact h.2 hstop
    · intro h
      subst h
      exact ⟨nofun, fun _ => rfl⟩
  · intro en c hstop hends
    unfold Ending.Reported
    rw [hstop]
    cases en with
    | poolExhausted =>
      exact iff_of_true (fun _ => .inl (by rw [hends.pool rfl]; decide)) rfl
    | prefillFailed | limit | stopToken => exact iff_of_true nofun rfl
    | decodeExhausted | decodeFailed =>
      refine iff_of_false (fun h => ?_) nofun
      rcases h rfl with herror | hreason
      · exact herror (hends.decode rfl)
      · exact hreason rfl

/-- An engine with one block of two tokens. -/
def oneBlock : Engine Unit Unit Unit Unit where
  vocab := { isEog := fun _ => false, eos := 0, typed := false, piece := fun _ _ => [] }
  blockSize := 2
  blockSize_pos := Nat.two_pos
  maxNumBlocks := 1
  useMegakernel := true
  forward _ _ := .ok (fun _ => (), ())
  sampler _ := 7
  compressTokens _ tokens := tokens
  updateCache _ _ := ()
  runKvCompressionPass book _ cells := (book, cells)
  zeroCell := ()
  noLogits := ()
  noCapture := ()
  noCodebook := ()

/-- A prompt of two tokens fills the pool. The call gives one of 512 tokens and then says that
    it has stopped. -/
theorem exhausted_says_stop :
    ¬ AllStates (step oneBlock fun _ => 0)
      (Results fun en r => en.Reported r ∧ en.StopIsStop r)
      (start oneBlock fun _ : Unit => { tokens := [1, 2] }) (List.replicate 5 ()) := by
  intro h
  obtain ⟨en, hen, hreported, -⟩ := h.last rfl () rfl
  cases hen
  rcases hreported rfl with herror | hreason
  · exact herror rfl
  · exact hreason rfl

end Watched

end TruellmEngine.Cuda
