/-
  The tool loop of the handler in single steps: a generation, or the dispatch of its calls.
  `toolLoop_run` and `toolLoop_start` connect them with the loop: its outcome is the one that
  the steps end in.

  A generation of round `tool_max_rounds` is still dispatched, and then the loop ends with the
  result from before. `faithful_iff`: no more rounds are dispatched than permitted, and each
  answer behind a dispatch is that of a prompt with an entry for every call, along exactly
  the runs in which this last generation asks for no dispatch. `one_round_too_many` is a run
  in which it does.
-/
import TruellmEngine.Lib.Run
import TruellmEngine.Server.ToolEntries

namespace TruellmEngine.Server

open Lib Bridge

section

variable (text : JsonText) (env : ChatEnv) (bridge : Option PluginBridge) (req : ChatRequest)

/-- What a generation leads to: a reply, or calls to dispatch. -/
def decideRound (result : GenerateResult) :
    Except TypeError (ChatReply ⊕ (List Json × ToolRegistry)) :=
  if result.error ≠ .ok then
    return .inl (.failed 503 ("Inference engine error: " ++ result.errorMessage))
  else do
    let toolCalls ← parseToolCalls text result.text
    if toolCalls.isEmpty then return .inl (.answer (ofBytes result.text) [])
    if clientTools req then
      return .inl (.answer (ofBytes result.text) (← canonicalToolCalls text toolCalls))
    match bridge with
    | none => return .inl (.answer (ofBytes result.text) [])
    | some b =>
      if !b.tools.hasTools then return .inl (.answer (ofBytes result.text) [])
      return .inr (toolCalls, b.tools)

/-- The dispatch of a round: the answer if its prompt is over the budget, or else the messages
    and the request of the next generation. -/
def dispatchRound (tools : ToolRegistry) (toolRound : Nat) (result : GenerateResult)
    (toolCalls : List Json) (messages : Json) (greq : GenerateRequest) :
    ChatM (ChatReply ⊕ (Json × GenerateRequest)) := do
  let messages ← toolRoundMessages text env tools toolRound result toolCalls messages
  let tokens ← tokenize env (← render text env messages)
  let greq := { greq with tokens := tokens, onToken := false }
  if 0 < env.tokenBudget && env.tokenBudget.toInt ≤ tokens.length then
    let shorter ← typed (omitLast messages.items.reverse)
    let tokens ← tokenize env (← render text env (messages.setItems shorter.reverse))
    let result ← generate env { greq with tokens := tokens }
    return .inl (.answer (ofBytes result.text) [])
  return .inr (messages, greq)

/-- A round of the loop. -/
theorem toolLoop_succ (rounds toolRound : Nat) (last : GenerateResult) (messages : Json)
    (greq : GenerateRequest) :
    toolLoop text env bridge req (rounds + 1) toolRound last messages greq = (do
      let result ← generate env greq
      match ← typed (decideRound text bridge req result) with
      | .inl reply => return reply
      | .inr (toolCalls, tools) =>
        match ← dispatchRound text env tools toolRound result toolCalls messages greq with
        | .inl reply => return reply
        | .inr (messages, greq) =>
          toolLoop text env bridge req rounds (toolRound + 1) result messages greq) := by
  rw [toolLoop]
  refine bind_congr fun result => ?_
  unfold decideRound
  split
  · rfl
  · cases parseToolCalls text result.text with
    | error e => rfl
    | ok toolCalls =>
      change (if toolCalls.isEmpty then _ else _) =
        typed (if toolCalls.isEmpty then _ else _) >>= _
      by_cases hempty : toolCalls.isEmpty = true
      · rw [if_pos hempty, if_pos hempty]
        rfl
      rw [if_neg hempty, if_neg hempty]
      by_cases hclient : clientTools req = true
      · rw [if_pos hclient, if_pos hclient]
        cases canonicalToolCalls text toolCalls <;> rfl
      rw [if_neg hclient, if_neg hclient]
      cases bridge with
      | none => rfl
      | some b =>
        dsimp only
        by_cases htools : (!b.tools.hasTools) = true
        · rw [if_pos htools, if_pos htools]
          rfl
        rw [if_neg htools, if_neg htools]
        change _ = dispatchRound text env b.tools toolRound result toolCalls messages greq >>= _
        unfold dispatchRound
        simp only [bind_assoc]
        refine bind_congr fun messages => bind_congr fun prompt => bind_congr fun tokens => ?_
        split
        · simp only [bind_assoc]
          rfl
        · rfl

end

/-! ## The steps -/

inductive LoopPhase where
  | generating
  | dispatching (toolCalls : List Json) (tools : ToolRegistry)
  | ended (outcome : Except Thrown ChatReply)

/-- A state of the loop. `rounds` has the ids of the calls of each round of dispatch. -/
structure ToolLoop where
  progress : Progress
  toolRound : Nat := 0
  result : GenerateResult := {}
  messages : Json
  greq : GenerateRequest
  phase : LoopPhase := .generating
  rounds : List (List String) := []

namespace ToolLoop

/-- The uses with the next generation. -/
def nextUses (s : ToolLoop) : List Use := s.progress.uses ++ [.generates s.greq]

/-- Behind a generation. -/
def generated (s : ToolLoop) (env : ChatEnv) : ToolLoop :=
  { s with
    progress := { s.progress with uses := s.nextUses }
    result := env.generate s.nextUses }

section

variable (text : JsonText) (env : ChatEnv) (bridge : Option PluginBridge) (req : ChatRequest)

def step (s : ToolLoop) (_ : Unit) : Option ToolLoop :=
  match s.phase with
  | .generating =>
    if s.toolRound ≤ env.toolMaxRounds.toInt then
      match decideRound text bridge req (env.generate s.nextUses) with
      | .error e => some { s.generated env with phase := .ended (.error (.json e)) }
      | .ok (.inl reply) => some { s.generated env with phase := .ended (.ok reply) }
      | .ok (.inr (toolCalls, tools)) => some { s.generated env with
          phase := .dispatching toolCalls tools
          rounds := s.rounds ++ [toolCalls.map (callId s.toolRound)] }
    else some { s with phase := .ended (.ok (.answer (ofBytes s.result.text) [])) }
  | .dispatching toolCalls tools =>
    match dispatchRound text env tools s.toolRound s.result toolCalls s.messages s.greq
      s.progress with
    | (.error e, progress) => some { s with progress := progress, phase := .ended (.error e) }
    | (.ok (.inl reply), progress) =>
      some { s with progress := progress, phase := .ended (.ok reply) }
    | (.ok (.inr (messages, greq)), progress) => some { s with
        progress := progress
        toolRound := s.toolRound + 1
        messages := messages
        greq := greq
        phase := .generating }
  | .ended _ => none

/-- The steps, case by case. -/
inductive Steps (s : ToolLoop) : ToolLoop → Prop where
  | throws {e : TypeError} (hphase : s.phase = .generating)
    (hround : s.toolRound ≤ env.toolMaxRounds.toInt)
    (hdecide : decideRound text bridge req (env.generate s.nextUses) = .error e) :
    Steps s { s.generated env with phase := .ended (.error (.json e)) }
  | replies {reply : ChatReply} (hphase : s.phase = .generating)
    (hround : s.toolRound ≤ env.toolMaxRounds.toInt)
    (hdecide : decideRound text bridge req (env.generate s.nextUses) = .ok (.inl reply)) :
    Steps s { s.generated env with phase := .ended (.ok reply) }
  | calls {toolCalls : List Json} {tools : ToolRegistry} (hphase : s.phase = .generating)
    (hround : s.toolRound ≤ env.toolMaxRounds.toInt)
    (hdecide : decideRound text bridge req (env.generate s.nextUses) =
      .ok (.inr (toolCalls, tools))) :
    Steps s { s.generated env with
      phase := .dispatching toolCalls tools
      rounds := s.rounds ++ [toolCalls.map (callId s.toolRound)] }
  /-- The rounds are used up: the result is that of the last round. -/
  | stale (hphase : s.phase = .generating) (hround : ¬ s.toolRound ≤ env.toolMaxRounds.toInt) :
    Steps s { s with phase := .ended (.ok (.answer (ofBytes s.result.text) [])) }
  | fails {toolCalls : List Json} {tools : ToolRegistry} {e : Thrown} {progress : Progress}
    (hphase : s.phase = .dispatching toolCalls tools)
    (hdispatch : dispatchRound text env tools s.toolRound s.result toolCalls s.messages s.greq
      s.progress = (.error e, progress)) :
    Steps s { s with progress := progress, phase := .ended (.error e) }
  | overBudget {toolCalls : List Json} {tools : ToolRegistry} {reply : ChatReply}
    {progress : Progress} (hphase : s.phase = .dispatching toolCalls tools)
    (hdispatch : dispatchRound text env tools s.toolRound s.result toolCalls s.messages s.greq
      s.progress = (.ok (.inl reply), progress)) :
    Steps s { s with progress := progress, phase := .ended (.ok reply) }
  | goesOn {toolCalls : List Json} {tools : ToolRegistry} {messages : Json}
    {greq : GenerateRequest} {progress : Progress}
    (hphase : s.phase = .dispatching toolCalls tools)
    (hdispatch : dispatchRound text env tools s.toolRound s.result toolCalls s.messages s.greq
      s.progress = (.ok (.inr (messages, greq)), progress)) :
    Steps s { s with
      progress := progress
      toolRound := s.toolRound + 1
      messages := messages
      greq := greq
      phase := .generating }

variable {text env bridge req} {s t : ToolLoop}

theorem step_cases (h : s.step text env bridge req () = some t) :
    Steps text env bridge req s t := by
  unfold step at h
  split at h
  · rename_i hphase
    split at h
    · rename_i hround
      split at h
      · cases h
        exact .throws hphase hround ‹_›
      · cases h
        exact .replies hphase hround ‹_›
      · cases h
        exact .calls hphase hround ‹_›
    · cases h
      exact .stale hphase ‹_›
  · rename_i hphase
    split at h
    · cases h
      exact .fails hphase ‹_›
    · cases h
      exact .overBudget hphase ‹_›
    · cases h
      exact .goesOn hphase ‹_›
  · cases h

theorem step_of_steps (h : Steps text env bridge req s t) :
    s.step text env bridge req () = some t := by
  unfold step
  cases h with
  | throws hphase hround hdecide | replies hphase hround hdecide | calls hphase hround hdecide =>
    rw [hphase]
    dsimp only
    rw [if_pos hround, hdecide]
  | stale hphase hround =>
    rw [hphase]
    dsimp only
    rw [if_neg hround]
  | fails hphase hdispatch | overBudget hphase hdispatch | goesOn hphase hdispatch =>
    rw [hphase]
    dsimp only
    rw [hdispatch]

theorem ended_of_step (h : s.step text env bridge req () = none) :
    ∃ outcome, s.phase = .ended outcome := by
  unfold step at h
  split at h
  · split at h
    · split at h <;> cases h
    · cases h
  · split at h <;> cases h
  · exact ⟨_, ‹_›⟩

/-! ## The steps and the loop -/

/-- What the loop makes of a state. -/
def outcome (text : JsonText) (env : ChatEnv) (bridge : Option PluginBridge) (req : ChatRequest)
    (s : ToolLoop) : Except Thrown ChatReply × Progress :=
  match s.phase with
  | .generating =>
    toolLoop text env bridge req (env.toolMaxRounds.toInt + 1 - s.toolRound).toNat s.toolRound
      s.result s.messages s.greq s.progress
  | .dispatching toolCalls tools =>
    (dispatchRound text env tools s.toolRound s.result toolCalls s.messages s.greq >>= fun
      | .inl reply => pure reply
      | .inr (messages, greq) =>
        toolLoop text env bridge req (env.toolMaxRounds.toInt - s.toolRound).toNat
          (s.toolRound + 1) s.result messages greq) s.progress
  | .ended outcome => (outcome, s.progress)

theorem outcome_generating (hphase : s.phase = .generating)
    (hround : s.toolRound ≤ env.toolMaxRounds.toInt) :
    s.outcome text env bridge req =
      (typed (decideRound text bridge req (env.generate s.nextUses)) >>= fun
        | .inl reply => pure reply
        | .inr (toolCalls, tools) =>
          dispatchRound text env tools s.toolRound (env.generate s.nextUses) toolCalls s.messages
            s.greq >>= fun
          | .inl reply => pure reply
          | .inr (messages, greq) =>
            toolLoop text env bridge req (env.toolMaxRounds.toInt - s.toolRound).toNat
              (s.toolRound + 1) (env.generate s.nextUses) messages greq)
        (s.generated env).progress := by
  have hsucc : (env.toolMaxRounds.toInt + 1 - s.toolRound).toNat =
      (env.toolMaxRounds.toInt - s.toolRound).toNat + 1 := by omega
  unfold outcome
  rw [hphase]
  dsimp only
  rw [hsucc, toolLoop_succ]
  rfl

/-- A step keeps the outcome. -/
theorem step_outcome (h : s.step text env bridge req () = some t) :
    t.outcome text env bridge req = s.outcome text env bridge req := by
  cases step_cases h with
  | throws hphase hround hdecide | replies hphase hround hdecide | calls hphase hround hdecide =>
    rw [outcome_generating hphase hround, hdecide]
    rfl
  | stale hphase hround =>
    have hzero : (env.toolMaxRounds.toInt + 1 - s.toolRound).toNat = 0 := by omega
    unfold outcome
    rw [hphase]
    dsimp only
    rw [hzero]
    rfl
  | fails hphase hdispatch =>
    unfold outcome
    rw [hphase]
    dsimp only
    rw [bind_run, hdispatch]
  | overBudget hphase hdispatch =>
    unfold outcome
    rw [hphase]
    dsimp only
    rw [bind_run, hdispatch]
    rfl
  | goesOn hphase hdispatch =>
    unfold outcome
    rw [hphase]
    dsimp only
    rw [bind_run, hdispatch]
    have hsucc : (env.toolMaxRounds.toInt + 1 - (s.toolRound + 1 : Nat)).toNat =
        (env.toolMaxRounds.toInt - s.toolRound).toNat := by omega
    dsimp only
    rw [hsucc]

/-- What a step makes less. -/
def rank (env : ChatEnv) (s : ToolLoop) : Nat :=
  match s.phase with
  | .generating => 2 * (env.toolMaxRounds.toInt + 1 - s.toolRound).toNat + 1
  | .dispatching _ _ => 2 * (env.toolMaxRounds.toInt - s.toolRound).toNat + 2
  | .ended _ => 0

theorem step_rank (h : s.step text env bridge req () = some t) : t.rank env < s.rank env := by
  cases step_cases h with
  | throws hphase hround | replies hphase hround | stale hphase hround =>
    simp only [rank, hphase]
    omega
  | calls hphase hround hdecide =>
    simp only [rank, hphase, generated]
    omega
  | fails hphase hdispatch | overBudget hphase hdispatch | goesOn hphase hdispatch =>
    simp only [rank, hphase]
    omega

/-- The steps from a state end, in the outcome of the loop. -/
theorem toolLoop_run (text : JsonText) (env : ChatEnv) (bridge : Option PluginBridge)
    (req : ChatRequest) (s : ToolLoop) :
    ∃ n t reply, run (step text env bridge req) s (List.replicate n ()) = some t ∧
      t.phase = .ended reply ∧ (reply, t.progress) = s.outcome text env bridge req := by
  obtain ⟨n, t, hrun, hend⟩ := exists_run_ends (fun _ _ => step_rank) s
  obtain ⟨reply, hreply⟩ := ended_of_step hend
  refine ⟨n, t, reply, hrun, hreply, ?_⟩
  rw [← run_keeps (fun _ _ _ => step_outcome) hrun]
  unfold outcome
  rw [hreply]

/-- The loop as the handler starts it. -/
theorem toolLoop_start (text : JsonText) (env : ChatEnv) (bridge : Option PluginBridge)
    (req : ChatRequest) (progress : Progress) (messages : Json) (greq : GenerateRequest) :
    ∃ n t reply, run (step text env bridge req)
        { progress := progress, messages := messages, greq := greq } (List.replicate n ()) =
          some t ∧
      t.phase = .ended reply ∧
      toolLoop text env bridge req (env.toolMaxRounds.toInt + 1).toNat 0 {} messages greq
        progress = (reply, t.progress) := by
  obtain ⟨n, t, reply, hrun, hended, houtcome⟩ := toolLoop_run text env bridge req
    { progress := progress, messages := messages, greq := greq }
  refine ⟨n, t, reply, hrun, hended, ?_⟩
  rw [houtcome, show (env.toolMaxRounds.toInt + 1).toNat =
    (env.toolMaxRounds.toInt + 1 - (0 : Nat)).toNat by omega]
  rfl

end

/-! ## What the answer could see -/

/-- The tokens are those of the prompt of this conversation. -/
def PromptOf (text : JsonText) (env : ChatEnv) (messages : Json) (tokens : List Token) : Prop :=
  ∃ prompt p q, render text env messages p = (.ok prompt, q) ∧ tokens = env.tokenize prompt

/-- The conversation ends with the entries of these calls. -/
def Shows (messages : Json) (ids : List String) : Prop :=
  ∃ earlier, toolEntries messages = earlier ++ ids

/-- The answer is that of the last use, a generation from the prompt of a conversation that
    shows these calls. -/
def Seen (text : JsonText) (env : ChatEnv) (ids : List String) (uses : List Use)
    (answer : String) : Prop :=
  ∃ before greq messages, uses = before ++ [.generates greq] ∧
    answer = ofBytes (env.generate uses).text ∧ PromptOf text env messages greq.tokens ∧
      Shows messages ids

/-- At most `tool_max_rounds` rounds have been dispatched, and an answer behind them has seen
    every call. -/
structure Faithful (text : JsonText) (env : ChatEnv) (s : ToolLoop) : Prop where
  bounded : s.rounds.length ≤ max env.toolMaxRounds.toInt 0
  seen : ∀ answer toolCalls, s.phase = .ended (.ok (.answer answer toolCalls)) → s.rounds ≠ [] →
    Seen text env s.rounds.flatten s.progress.uses answer

/-- The generation of round `tool_max_rounds`, if it comes to that, asks for no dispatch. -/
def AnswersInTime (text : JsonText) (env : ChatEnv) (bridge : Option PluginBridge)
    (req : ChatRequest) (s : ToolLoop) (_ : Unit) : Prop :=
  s.phase = .generating → s.toolRound = env.toolMaxRounds.toInt →
    ∀ toolCalls tools, decideRound text bridge req (env.generate s.nextUses) ≠
      .ok (.inr (toolCalls, tools))

/-- What is so in each phase. -/
def PhaseInv (text : JsonText) (env : ChatEnv) (s : ToolLoop) : Prop :=
  match s.phase with
  | .generating => s.rounds.length = s.toolRound ∧ Shows s.messages s.rounds.flatten ∧
      (s.rounds ≠ [] → PromptOf text env s.messages s.greq.tokens)
  | .dispatching toolCalls _ => s.rounds.length = s.toolRound + 1 ∧ ∃ ids,
      s.rounds.flatten = ids ++ toolCalls.map (callId s.toolRound) ∧ Shows s.messages ids
  | .ended (.ok (.answer answer _)) => s.rounds ≠ [] →
      Seen text env s.rounds.flatten s.progress.uses answer
  | .ended _ => True

structure Inv (text : JsonText) (env : ChatEnv) (s : ToolLoop) : Prop where
  bounded : s.rounds.length ≤ max env.toolMaxRounds.toInt 0
  phase : PhaseInv text env s

section

variable {text : JsonText} {env : ChatEnv} {bridge : Option PluginBridge} {req : ChatRequest}
  {s t : ToolLoop}

theorem Inv.faithful (h : Inv text env s) : Faithful text env s := by
  refine ⟨h.bounded, ?_⟩
  intro answer toolCalls hphase
  have hinv := h.phase
  unfold PhaseInv at hinv
  rw [hphase] at hinv
  exact hinv

theorem decideRound_answer {result : GenerateResult} {answer : String} {toolCalls : List Json}
    (h : decideRound text bridge req result = .ok (.inl (.answer answer toolCalls))) :
    answer = ofBytes result.text := by
  unfold decideRound at h
  split at h
  · cases h
  · obtain ⟨calls, -, h⟩ := bind_eq_ok.mp h
    split at h
    · cases h
      rfl
    split at h
    · obtain ⟨canonical, -, h⟩ := bind_eq_ok.mp h
      cases h
      rfl
    split at h
    · cases h
      rfl
    split at h
    · cases h
      rfl
    · cases h

theorem tokenize_ok {prompt : String} {tokens : List Token} {p q : Progress}
    (h : tokenize env prompt p = (.ok tokens, q)) : tokens = env.tokenize prompt := by
  cases h
  rfl

theorem typed_ok {α : Type} {x : Except TypeError α} {a : α} {p q : Progress}
    (h : typed x p = (.ok a, q)) : x = .ok a := by
  cases x with
  | ok b =>
    cases h
    rfl
  | error e => cases h

theorem render_run (text : JsonText) (env : ChatEnv) (messages : Json) :
    ∃ r, ∀ p, render text env messages p = (r, p) := by
  have htyped : ∀ {α : Type} (x : Except TypeError α), ∃ r, ∀ p, typed x p = (r, p) := by
    intro α x
    cases x with
    | ok a => exact ⟨.ok a, fun _ => rfl⟩
    | error e => exact ⟨.error (.json e), fun _ => rfl⟩
  unfold render
  cases env.chatFormat with
  | none => exact htyped _
  | some format =>
    dsimp only
    cases text.dumps messages with
    | error e => exact ⟨.error (.json e), fun _ => rfl⟩
    | ok raw =>
      cases hformat : format messages "" with
      | some a =>
        refine ⟨.ok a.prompt, fun p => ?_⟩
        rw [bind_run]
        simp only [typed]
        rfl
      | none =>
        obtain ⟨r, hr⟩ := htyped (applyChatTemplate text messages (tmpl env))
        exact ⟨r, fun p => hr p⟩

/-- The prompt of a conversation is the same whenever it is asked for. -/
theorem PromptOf.render {messages : Json} {tokens : List Token}
    (h : PromptOf text env messages tokens) :
    ∃ prompt, tokens = env.tokenize prompt ∧
      ∀ p, Server.render text env messages p = (.ok prompt, p) := by
  obtain ⟨prompt, p, q, hprompt, rfl⟩ := h
  obtain ⟨r, hr⟩ := render_run text env messages
  rw [hr] at hprompt
  cases hprompt
  exact ⟨prompt, rfl, hr⟩

/-- The request of the pass for a conversation that is over the budget. -/
structure LastPass (text : JsonText) (env : ChatEnv) (messages : Json) (greq : GenerateRequest) :
    Prop where
  budget : 0 < env.tokenBudget
  exceeds : ∃ tokens, PromptOf text env messages tokens ∧ env.tokenBudget.toInt ≤ tokens.length
  omitted : ∃ shorter, omitLast messages.items.reverse = .ok shorter ∧
    PromptOf text env (messages.setItems shorter.reverse) greq.tokens

/-- A round over the budget ends in its pass. -/
theorem dispatchRound_inl {tools : ToolRegistry} {toolRound : Nat} {result : GenerateResult}
    {toolCalls : List Json} {messages : Json} {greq : GenerateRequest} {p q : Progress}
    {reply : ChatReply}
    (h : dispatchRound text env tools toolRound result toolCalls messages greq p =
      (.ok (.inl reply), q)) :
    ∃ behind q' greq' before,
      toolRoundMessages text env tools toolRound result toolCalls messages p = (.ok behind, q') ∧
      LastPass text env behind greq' ∧ q.uses = before ++ [.generates greq'] ∧
      reply = .answer (ofBytes (env.generate q.uses).text) [] := by
  obtain ⟨behind, q₁, hbehind, h⟩ := bind_ok h
  obtain ⟨prompt, q₂, hprompt, h⟩ := bind_ok h
  obtain ⟨tokens, q₃, htokens, h⟩ := bind_ok h
  split at h
  · rename_i hover
    rw [Bool.and_eq_true, decide_eq_true_eq, decide_eq_true_eq] at hover
    obtain ⟨shorter, q₄, hshorter, h⟩ := bind_ok h
    obtain ⟨prompt', q₅, hprompt', h⟩ := bind_ok h
    obtain ⟨tokens', q₆, htokens', h⟩ := bind_ok h
    obtain ⟨result', q₇, hresult, h⟩ := bind_ok h
    cases h
    cases hresult
    refine ⟨behind, q₁, _, q₆.uses, hbehind, ⟨hover.1, ⟨tokens, ?_, hover.2⟩, ?_⟩, rfl, rfl⟩
    · exact ⟨prompt, q₁, q₂, hprompt, tokenize_ok htokens⟩
    · exact ⟨shorter, typed_ok hshorter, prompt', q₄, q₅, hprompt', tokenize_ok htokens'⟩
  · cases h

/-- Behind a round that goes on the prompt is within the budget. -/
theorem dispatchRound_inr {tools : ToolRegistry} {toolRound : Nat} {result : GenerateResult}
    {toolCalls : List Json} {messages behind : Json} {greq greq' : GenerateRequest}
    {p q : Progress}
    (h : dispatchRound text env tools toolRound result toolCalls messages greq p =
      (.ok (.inr (behind, greq')), q)) :
    (∃ q', toolRoundMessages text env tools toolRound result toolCalls messages p =
        (.ok behind, q')) ∧
      PromptOf text env behind greq'.tokens ∧
      (0 < env.tokenBudget → (greq'.tokens.length : Int) < env.tokenBudget.toInt) := by
  obtain ⟨behind', q₁, hbehind, h⟩ := bind_ok h
  obtain ⟨prompt, q₂, hprompt, h⟩ := bind_ok h
  obtain ⟨tokens, q₃, htokens, h⟩ := bind_ok h
  split at h
  · obtain ⟨shorter, q₄, -, h⟩ := bind_ok h
    obtain ⟨prompt', q₅, -, h⟩ := bind_ok h
    obtain ⟨tokens', q₆, -, h⟩ := bind_ok h
    obtain ⟨result', q₇, -, h⟩ := bind_ok h
    cases h
  · rename_i hwithin
    cases h
    refine ⟨⟨q₁, hbehind⟩, ⟨prompt, q₁, q₂, hprompt, tokenize_ok htokens⟩, ?_⟩
    intro hbudget
    rw [Bool.and_eq_true, decide_eq_true_eq, decide_eq_true_eq] at hwithin
    exact Int.not_le.mp fun hover => hwithin ⟨hbudget, hover⟩

/-- A dispatched round shows its calls, to the next generation or to the answer. -/
theorem dispatchRound_spec {tools : ToolRegistry} {toolRound : Nat} {result : GenerateResult}
    {toolCalls : List Json} {messages : Json} {greq : GenerateRequest} {p q : Progress}
    {next : ChatReply ⊕ (Json × GenerateRequest)} {ids : List String} (hshows : Shows messages ids)
    (h : dispatchRound text env tools toolRound result toolCalls messages greq p = (.ok next, q)) :
    match next with
    | .inl reply => ∃ answer, reply = .answer answer [] ∧
        Seen text env (ids ++ toolCalls.map (callId toolRound)) q.uses answer
    | .inr (messages, greq) => Shows messages (ids ++ toolCalls.map (callId toolRound)) ∧
        PromptOf text env messages greq.tokens := by
  have hentries : ∀ behind q', toolRoundMessages text env tools toolRound result toolCalls messages
      p = (.ok behind, q') → ∃ ms, behind = .array ms ∧
        Shows behind (ids ++ toolCalls.map (callId toolRound)) := by
    intro behind q' hbehind
    obtain ⟨ms, hms, hentries⟩ := toolRoundMessages_entries text env _ _ _ _ _ _ _ _ hbehind
    obtain ⟨earlier, hearlier⟩ := hshows
    exact ⟨ms, hms, earlier, by rw [hentries, hearlier, List.append_assoc]⟩
  rcases next with reply | ⟨behind, greq'⟩
  · obtain ⟨behind, q', greq', before, hbehind, hpass, huses, hreply⟩ := dispatchRound_inl h
    obtain ⟨ms, rfl, earlier, hearlier⟩ := hentries behind q' hbehind
    obtain ⟨shorter, hshorter, hprompt⟩ := hpass.omitted
    have hsame : shorter.reverse.map toolEntry = ms.map toolEntry := by
      rw [List.map_reverse, omitLast_map (ignoresResults toolEntry_setContent) hshorter,
        ← List.map_reverse]
      exact congrArg (List.map toolEntry) (List.reverse_reverse ms)
    refine ⟨_, hreply, before, greq', _, huses, rfl, hprompt, earlier, ?_⟩
    exact (filterMap_toolEntry hsame).trans hearlier
  · obtain ⟨⟨q', hbehind⟩, hprompt, -⟩ := dispatchRound_inr h
    obtain ⟨ms, -, hbehind⟩ := hentries behind q' hbehind
    exact ⟨hbehind, hprompt⟩

theorem Inv.step (h : Inv text env s) (hok : AnswersInTime text env bridge req s ())
    (hstep : s.step text env bridge req () = some t) : Inv text env t := by
  have hinv := h.phase
  unfold PhaseInv at hinv
  cases step_cases hstep with
  | throws hphase hround hdecide => exact ⟨h.bounded, trivial⟩
  | replies hphase hround hdecide =>
    rename_i reply
    refine ⟨h.bounded, ?_⟩
    rw [hphase] at hinv
    obtain ⟨-, hshows, hprompt⟩ := hinv
    cases reply with
    | answer answer toolCalls =>
      intro hrounds
      exact ⟨_, s.greq, s.messages, rfl, decideRound_answer hdecide, hprompt hrounds, hshows⟩
    | streamed => trivial
    | failed status message => trivial
  | calls hphase hround hdecide =>
    rename_i toolCalls tools
    rw [hphase] at hinv
    obtain ⟨hcount, hshows, -⟩ := hinv
    have hne : (s.toolRound : Int) ≠ env.toolMaxRounds.toInt := by
      intro hlast
      exact hok hphase hlast toolCalls tools hdecide
    refine ⟨?_, ?_⟩
    · show ((s.rounds ++ [toolCalls.map (callId s.toolRound)]).length : Int) ≤ _
      rw [List.length_append, hcount, List.length_singleton]
      omega
    · refine ⟨?_, s.rounds.flatten, ?_, hshows⟩
      · show (s.rounds ++ [_]).length = _
        rw [List.length_append, hcount]
        rfl
      · show (s.rounds ++ [_]).flatten = _
        rw [List.flatten_append, List.flatten_singleton]
        rfl
  | stale hphase hround =>
    rw [hphase] at hinv
    refine ⟨h.bounded, ?_⟩
    intro hrounds
    have hcount := hinv.1
    have hpos : 0 < s.rounds.length := List.length_pos_iff.mpr hrounds
    have hbounded := h.bounded
    omega
  | fails hphase hdispatch => exact ⟨h.bounded, trivial⟩
  | overBudget hphase hdispatch =>
    rw [hphase] at hinv
    obtain ⟨-, ids, hids, hshows⟩ := hinv
    obtain ⟨answer, rfl, hseen⟩ := dispatchRound_spec hshows hdispatch
    refine ⟨h.bounded, ?_⟩
    intro _
    rw [← hids] at hseen
    exact hseen
  | goesOn hphase hdispatch =>
    rw [hphase] at hinv
    obtain ⟨hcount, ids, hids, hshows⟩ := hinv
    have hspec := dispatchRound_spec hshows hdispatch
    rw [← hids] at hspec
    exact ⟨h.bounded, hcount, hspec.1, fun _ => hspec.2⟩

/-- A dispatch in round `tool_max_rounds` is one too many. -/
theorem Inv.not_faithful (h : Inv text env s) (hok : ¬ AnswersInTime text env bridge req s ())
    (hstep : s.step text env bridge req () = some t) : ¬ Faithful text env t := by
  unfold AnswersInTime at hok
  push Not at hok
  obtain ⟨hphase, hlast, toolCalls, tools, hdecide⟩ := hok
  have hinv := h.phase
  unfold PhaseInv at hinv
  rw [hphase] at hinv
  intro hfaithful
  have hbounded := hfaithful.bounded
  unfold ToolLoop.step at hstep
  rw [hphase] at hstep
  dsimp only at hstep
  rw [if_pos (by omega), hdecide] at hstep
  cases hstep
  change ((s.rounds ++ [_]).length : Int) ≤ _ at hbounded
  rw [List.length_append, hinv.1, List.length_singleton] at hbounded
  omega

end

/-- From any messages and request, along every run of the loop. -/
theorem faithful_iff (text : JsonText) (env : ChatEnv) (bridge : Option PluginBridge)
    (req : ChatRequest) (progress : Progress) (messages : Json) (greq : GenerateRequest)
    (n : Nat) :
    AllStates (step text env bridge req) (Faithful text env)
        { progress := progress, messages := messages, greq := greq } (List.replicate n ()) ↔
      AllSteps (step text env bridge req) (AnswersInTime text env bridge req)
        { progress := progress, messages := messages, greq := greq } (List.replicate n ()) := by
  refine allStates_iff_allSteps (I := Inv text env) (fun _ => Inv.faithful)
    (fun _ _ _ => Inv.step) (fun _ _ _ => Inv.not_faithful) ?_ _
  refine ⟨?_, rfl, ⟨toolEntries messages, (List.append_nil _).symm⟩, fun h => absurd rfl h⟩
  exact Int.le_max_right _ _

/-- An engine that always asks for the tool `clock`, where one round is permitted. -/
def clockEnv : ChatEnv where
  chatFormat := some fun _ _ => some { prompt := "chat" }
  indented _ := ""
  tokenize _ := []
  generate _ := { text := bytes "\x7b\"name\":\"clock\"\x7d" }
  tokenBudget := 0
  toolMaxRounds := 1

def clockText : JsonText where
  parse raw :=
    if raw = bytes "\x7b\"name\":\"clock\"\x7d" then some (.object [("name", .string "clock")])
    else none
  dump _ := ""

def clockBridge : PluginBridge where
  tools := { entries := [{
    pluginId := "time"
    toolName := "clock"
    schemaJson := "\x7b\x7d"
    run := fun _ ctx => ({ payload := "noon" }, ctx) }] }

/-- Two rounds are dispatched, and the answer is the text of the second call. -/
theorem one_round_too_many :
    let step := step clockText clockEnv (some clockBridge) { messages := .array [] }
    let start : ToolLoop := { progress := { ctx := none }, messages := .array [], greq := {
      tokens := [] } }
    (run step start (List.replicate 5 ())).map (fun s => (s.rounds, s.result.text)) =
        some ([["call_0"], ["call_0"]], bytes "\x7b\"name\":\"clock\"\x7d") ∧
      ¬ AllStates step (Faithful clockText clockEnv) start (List.replicate 5 ()) := by
  have hrun : (run (step clockText clockEnv (some clockBridge) { messages := .array [] })
      { progress := { ctx := none }, messages := .array [], greq := { tokens := [] } }
      (List.replicate 5 ())).map (fun s => (s.rounds, s.result.text)) =
        some ([["call_0"], ["call_0"]], bytes "\x7b\"name\":\"clock\"\x7d") := by
    decide
  refine ⟨hrun, ?_⟩
  intro h
  obtain ⟨s, hs, hrounds⟩ := Option.map_eq_some_iff.mp hrun
  have hbounded := (h.last hs).bounded
  rw [(Prod.mk.inj hrounds).1] at hbounded
  exact absurd hbounded (by decide)

end ToolLoop

end TruellmEngine.Server
