/-
  The prompts of the tool loop behind a round, and the token budget of the engine. A prompt
  over the budget is made again with one tool result left out, the last; whether that is
  enough is not looked at.

  `prompts_fit_iff`: where a conversation would fit with all results left out, every prompt
  behind a round is within the budget along exactly the runs in which leaving out the last is
  enough.
  `LastPass.within_of_single`: with one result in the conversation it is.
  `second_result_left_in` is a run with two.
-/
import Mathlib.Data.List.Forall2
import TruellmEngine.Server.ToolRounds

namespace TruellmEngine.Server

open Lib Bridge
open Lib.Json (value getString)

/-! ## Results left out -/

/-- What stands for a result that is left out. -/
def omissionNotice : String :=
  "[Tool result omitted: response too large for context window. Please answer based on " ++
    "what you know about the requested URL.]"

/-- A message, with the notice if it is a tool result. -/
def omitResult (m : Json) : Except TypeError Json := do
  if (← value getString m "role" "") = "tool" then
    return m.setField "content" (.string omissionNotice)
  else
    return m

/-- The messages with every tool result left out. -/
def omitAll (ms : List Json) : Except TypeError (List Json) := ms.mapM omitResult

/-- A tool result. -/
def IsResult (m : Json) : Prop := value getString m "role" "" = .ok "tool"

theorem omitResult_eq {m m' : Json} (h : omitResult m = .ok m') :
    (IsResult m ∧ m' = m.setField "content" (.string omissionNotice)) ∨
      (¬ IsResult m ∧ m' = m) := by
  obtain ⟨role, hrole, h⟩ := bind_eq_ok.mp h
  split at h
  · rename_i htool
    cases h
    exact .inl ⟨hrole.trans (congrArg Except.ok htool), rfl⟩
  · rename_i htool
    cases h
    refine .inr ⟨?_, rfl⟩
    intro hresult
    exact htool (Except.ok.inj (hrole.symm.trans hresult))

theorem forall₂_of_omitAll {ms omitted : List Json} (h : omitAll ms = .ok omitted) :
    List.Forall₂ (fun m m' => omitResult m = .ok m') ms omitted := by
  induction ms generalizing omitted with
  | nil =>
    cases h
    exact .nil
  | cons m ms ih =>
    unfold omitAll at h
    rw [List.mapM_cons] at h
    obtain ⟨m', hm, h⟩ := bind_eq_ok.mp h
    obtain ⟨ms', hms, h⟩ := bind_eq_ok.mp h
    cases h
    exact .cons hm (ih hms)

/-- Among messages without a result, none is left out. -/
theorem omitted_eq_self {ms omitted : List Json} (hnone : ∀ m ∈ ms, ¬ IsResult m)
    (h : List.Forall₂ (fun m m' => omitResult m = .ok m') ms omitted) : omitted = ms := by
  induction h with
  | nil => rfl
  | cons hm _ ih =>
    rw [List.forall_mem_cons] at hnone
    rcases omitResult_eq hm with ⟨hresult, -⟩ | ⟨-, rfl⟩
    · exact absurd hresult hnone.1
    · rw [ih hnone.2]

/-- With no two results, to leave out the last is to leave out all. -/
theorem omitLast_eq_omitted {ms shorter omitted : List Json}
    (hsingle : ms.Pairwise fun m m' => IsResult m → ¬ IsResult m')
    (hlast : omitLast ms = .ok shorter)
    (h : List.Forall₂ (fun m m' => omitResult m = .ok m') ms omitted) : shorter = omitted := by
  induction h generalizing shorter with
  | nil =>
    cases hlast
    rfl
  | cons hm hms ih =>
    obtain ⟨hfirst, hrest⟩ := List.pairwise_cons.mp hsingle
    obtain ⟨role, hrole, hlast⟩ := bind_eq_ok.mp hlast
    split at hlast
    · rename_i htool
      cases hlast
      have hresult : IsResult _ := hrole.trans (congrArg Except.ok htool)
      rcases omitResult_eq hm with ⟨-, rfl⟩ | ⟨hnot, -⟩
      · rw [omitted_eq_self (fun m' hm' => hfirst m' hm' hresult) hms]
        rfl
      · exact absurd hresult hnot
    · rename_i htool
      obtain ⟨rest, hrest', hlast⟩ := bind_eq_ok.mp hlast
      cases hlast
      rcases omitResult_eq hm with ⟨hresult, -⟩ | ⟨-, rfl⟩
      · exact absurd (Except.ok.inj (hrole.symm.trans hresult)) htool
      · rw [ih hrest hrest']

namespace ToolLoop

/-- The conversation fits with every tool result left out. -/
def NoticesFit (text : JsonText) (env : ChatEnv) (messages : Json) : Prop :=
  ∃ omitted tokens, omitAll messages.items = .ok omitted ∧
    PromptOf text env (messages.setItems omitted) tokens ∧
    (tokens.length : Int) < env.tokenBudget.toInt

/-- The step asks for a generation from a conversation with the results of a round. -/
inductive Asks (text : JsonText) (env : ChatEnv) (s t : ToolLoop) :
    Json → GenerateRequest → Prop where
  | again (hphase : s.phase = .generating) (hround : s.toolRound ≤ env.toolMaxRounds.toInt)
    (hlater : s.toolRound ≠ 0) : Asks text env s t s.messages s.greq
  | lastPass {toolCalls : List Json} {tools : ToolRegistry} {messages : Json} {q : Progress}
    {reply : ChatReply} {before : List Use} {greq : GenerateRequest}
    (hphase : s.phase = .dispatching toolCalls tools)
    (hmessages : toolRoundMessages text env tools s.toolRound s.result toolCalls s.messages
      s.progress = (.ok messages, q))
    (hended : t.phase = .ended (.ok reply))
    (huses : t.progress.uses = before ++ [.generates greq]) : Asks text env s t messages greq

/-- What a step asks from a conversation that fits without its results is within the budget. -/
def Fits (text : JsonText) (env : ChatEnv) (bridge : Option PluginBridge) (req : ChatRequest)
    (s : ToolLoop) (_ : Unit) : Prop :=
  ∀ t messages greq, s.step text env bridge req () = some t → Asks text env s t messages greq →
    0 < env.tokenBudget → NoticesFit text env messages →
    (greq.tokens.length : Int) < env.tokenBudget.toInt

/-- If the round goes over the budget, though it would not without any result, then it does
    not without the last one. -/
def OmissionSuffices (text : JsonText) (env : ChatEnv) (s : ToolLoop) (_ : Unit) : Prop :=
  ∀ toolCalls tools messages q greq, s.phase = .dispatching toolCalls tools →
    toolRoundMessages text env tools s.toolRound s.result toolCalls s.messages s.progress =
      (.ok messages, q) →
    LastPass text env messages greq → NoticesFit text env messages →
    (greq.tokens.length : Int) < env.tokenBudget.toInt

/-- With one result in the conversation, leaving it out is enough. -/
theorem LastPass.within_of_single {text : JsonText} {env : ChatEnv} {messages : Json}
    {greq : GenerateRequest} (hpass : LastPass text env messages greq)
    (hnotices : NoticesFit text env messages)
    (hsingle : messages.items.Pairwise fun m m' => IsResult m → ¬ IsResult m') :
    (greq.tokens.length : Int) < env.tokenBudget.toInt := by
  obtain ⟨omitted, tokens, homitted, hprompt, hfits⟩ := hnotices
  obtain ⟨shorter, hshorter, hprompt'⟩ := hpass.omitted
  have hsame : shorter = omitted.reverse := by
    refine omitLast_eq_omitted ?_ hshorter ?_
    · rw [List.pairwise_reverse]
      exact hsingle.imp fun h hresult hresult' => h hresult' hresult
    · exact List.rel_reverse (forall₂_of_omitAll homitted)
  rw [hsame, List.reverse_reverse] at hprompt'
  obtain ⟨prompt, rfl, hrender⟩ := hprompt.render
  obtain ⟨prompt', hsecond, hrender'⟩ := hprompt'.render
  have hprompts := (hrender { ctx := none }).symm.trans (hrender' { ctx := none })
  rw [hsecond, ← Except.ok.inj (Prod.mk.inj hprompts).1]
  exact hfits

/-- A generation behind a round is within the budget. -/
def BudgetInv (env : ChatEnv) (s : ToolLoop) : Prop :=
  s.phase = .generating → s.toolRound ≠ 0 → 0 < env.tokenBudget →
    (s.greq.tokens.length : Int) < env.tokenBudget.toInt

section

variable {text : JsonText} {env : ChatEnv} {bridge : Option PluginBridge} {req : ChatRequest}
  {s t : ToolLoop}

theorem budgetInv_of_step (hstep : s.step text env bridge req () = some t) : BudgetInv env t := by
  cases step_cases hstep with
  | goesOn hphase hdispatch =>
    intro _ _ hbudget
    exact (dispatchRound_inr hdispatch).2.2 hbudget
  | _ =>
    intro hphase
    cases hphase

/-- A round over the budget is dispatched up to its pass. -/
theorem LastPass.dispatchRound {tools : ToolRegistry} {toolRound : Nat} {result : GenerateResult}
    {toolCalls : List Json} {messages behind : Json} {greq greq' : GenerateRequest}
    {p q : Progress}
    (hbehind : toolRoundMessages text env tools toolRound result toolCalls messages p =
      (.ok behind, q)) (hpass : LastPass text env behind greq') :
    ∃ before reply q', Server.dispatchRound text env tools toolRound result toolCalls messages greq
        p = (.ok (.inl reply), q') ∧
      q'.uses = before ++ [.generates { greq with tokens := greq'.tokens, onToken := false }] := by
  obtain ⟨hbudget, ⟨tokens, hprompt, hover⟩, shorter, hshorter, hprompt'⟩ := hpass
  obtain ⟨prompt, rfl, hrender⟩ := hprompt.render
  obtain ⟨prompt', htokens', hrender'⟩ := hprompt'.render
  have hif : (decide (0 < env.tokenBudget) &&
      decide (env.tokenBudget.toInt ≤ (env.tokenize prompt).length)) = true := by
    rw [Bool.and_eq_true, decide_eq_true_eq, decide_eq_true_eq]
    exact ⟨hbudget, hover⟩
  rw [htokens']
  let uses := q.uses ++ [.tokenizes prompt] ++ [.tokenizes prompt']
  let last : GenerateRequest := { greq with tokens := env.tokenize prompt', onToken := false }
  have hrun : Server.dispatchRound text env tools toolRound result toolCalls messages greq p =
      (.ok (.inl (.answer (ofBytes (env.generate (uses ++ [.generates last])).text) [])),
        { q with uses := uses ++ [.generates last] }) := by
    unfold Server.dispatchRound
    rw [bind_run, hbehind]
    dsimp only
    rw [bind_run, hrender]
    show (if _ then _ else _ : ChatM _) _ = _
    rw [if_pos hif, hshorter]
    show ((render text env _ >>= _) : ChatM _) _ = _
    rw [bind_run, hrender']
    rfl
  exact ⟨uses, _, _, hrun, rfl⟩

/-- A dispatch that ends in an answer asks for it by its pass. -/
theorem lastPass_of_step {toolCalls : List Json} {tools : ToolRegistry} {messages : Json}
    {q : Progress} {reply : ChatReply} {before : List Use} {greq : GenerateRequest}
    (hstep : s.step text env bridge req () = some t)
    (hphase : s.phase = .dispatching toolCalls tools)
    (hmessages : toolRoundMessages text env tools s.toolRound s.result toolCalls s.messages
      s.progress = (.ok messages, q))
    (hended : t.phase = .ended (.ok reply))
    (huses : t.progress.uses = before ++ [.generates greq]) : LastPass text env messages greq := by
  cases step_cases hstep with
  | overBudget hphase' hdispatch =>
    cases hphase.symm.trans hphase'
    obtain ⟨behind, q', greq', before, hbehind, hpass, huses', -⟩ := dispatchRound_inl hdispatch
    cases hmessages.symm.trans hbehind
    obtain ⟨-, hlast⟩ := List.append_inj' (huses.symm.trans huses') rfl
    cases hlast
    exact hpass
  | fails hphase' hdispatch => cases hended
  | goesOn hphase' hdispatch => cases hended
  | throws hphase' => cases hphase.symm.trans hphase'
  | replies hphase' => cases hphase.symm.trans hphase'
  | calls hphase' => cases hphase.symm.trans hphase'
  | stale hphase' => cases hphase.symm.trans hphase'

theorem fits_iff_of_inv (h : BudgetInv env s) :
    Fits text env bridge req s () ↔ OmissionSuffices text env s () := by
  constructor
  · intro hfits toolCalls tools messages q greq hphase hmessages hpass hnotices
    obtain ⟨before, reply, q', hdispatch, huses⟩ := hpass.dispatchRound hmessages
    refine hfits { s with progress := q', phase := .ended (.ok reply) } messages
      { s.greq with tokens := greq.tokens, onToken := false }
      (step_of_steps (.overBudget hphase hdispatch)) (.lastPass hphase hmessages rfl huses)
      hpass.budget hnotices
  · intro hsuffices t messages greq hstep hasks hbudget hnotices
    cases hasks with
    | again hphase hround hlater => exact h hphase hlater hbudget
    | lastPass hphase hmessages hended huses =>
      exact hsuffices _ _ _ _ _ hphase hmessages
        (lastPass_of_step hstep hphase hmessages hended huses) hnotices

end

/-- From any messages and request, along every run of the loop. -/
theorem prompts_fit_iff (text : JsonText) (env : ChatEnv) (bridge : Option PluginBridge)
    (req : ChatRequest) (progress : Progress) (messages : Json) (greq : GenerateRequest)
    (n : Nat) :
    AllSteps (step text env bridge req) (Fits text env bridge req)
        { progress := progress, messages := messages, greq := greq } (List.replicate n ()) ↔
      AllSteps (step text env bridge req) (OmissionSuffices text env)
        { progress := progress, messages := messages, greq := greq } (List.replicate n ()) := by
  refine allSteps_congr (I := BudgetInv env) (fun _ _ _ _ => budgetInv_of_step)
    (fun _ _ => fits_iff_of_inv) ?_ _
  intro _ hlater
  exact absurd rfl hlater

/-- A message that does not begin as the notice does is a long one. -/
def isShort (m : Json) : Bool :=
  match m.field? "role", m.field? "content" with
  | some (.string role), some (.string content) => role ≠ "tool" || content.toList.head? = some '['
  | _, _ => true

/-- An engine with a budget of three tokens, and the strategy to truncate, that asks for the
    tool `clock` twice. -/
def twiceEnv : ChatEnv where
  chatFormat := some fun messages _ =>
    some { prompt := if messages.items.all isShort then "" else "long" }
  indented _ := ""
  tokenize prompt := prompt.toList.map fun _ => 1
  generate _ := { text := bytes "twice" }
  tokenBudget := 3
  split := { strategy := "truncate" }

def twiceText : JsonText where
  parse raw :=
    if raw = bytes "twice" then
      some (.object [("tool_calls", .array [.object [("function", .object [("name",
        .string "clock")])], .object [("function", .object [("name", .string "clock")])]])])
    else none
  dump _ := ""

def clockResult (content : String) : Json :=
  .object [("content", .string content), ("role", .string "tool"),
    ("tool_call_id", .string "call_0")]

theorem truncate_noon (keepChars : Nat) :
    (truncate keepChars "noon".toList).head? ≠ some '[' := by
  match keepChars with
  | 0 => decide
  | 1 => decide
  | 2 => decide
  | 3 => decide
  | n + 4 =>
    unfold truncate
    rw [if_neg (by show ¬ (4 > n + 4); omega)]
    decide

/-- Cut or not, a result is no notice. -/
theorem splitMessage_noon (messages : List Json) (p : Progress) :
    ∃ content q, content.toList.head? ≠ some '[' ∧
      splitMessage twiceText twiceEnv messages (clockResult "noon") p =
        (.ok (clockResult content), q) := by
  let noted : Progress := { p with uses := p.uses ++ [.tokenizes "noon"] }
  have hsplit : splitMessage twiceText twiceEnv messages (clockResult "noon") p =
      (if ((4 : Nat) : Int) < (share 3 twiceEnv.split.triggerFraction).toInt64.toInt then
        (pure (clockResult "noon") : ChatM Json)
      else pure (clockResult (String.ofList (truncate
        (charsOf (share 3 twiceEnv.split.truncateFraction).toInt32) "noon".toList)))) noted := rfl
  rw [hsplit]
  split
  · exact ⟨"noon", noted, by decide, rfl⟩
  · refine ⟨_, noted, ?_, rfl⟩
    rw [String.toList_ofList]
    exact truncate_noon _

def clockCall : Json := .object [("function", .object [("name", .string "clock")])]

def twiceTurn : Json :=
  .object [("content", .string "twice"), ("role", .string "assistant"),
    ("tool_calls", .array [clockCall, clockCall])]

/-- The conversation behind the round. -/
def twiceMessages (first second : String) : Json :=
  .array [twiceTurn, clockResult first, clockResult second]

theorem splitContext_twice (p : Progress) : ∃ first second q,
    first.toList.head? ≠ some '[' ∧
      splitContext twiceText twiceEnv (twiceMessages "noon" "noon") p =
        (.ok (twiceMessages first second), q) := by
  let ms := [twiceTurn, clockResult "noon", clockResult "noon"]
  obtain ⟨first, q, hfirst, hsplit⟩ := splitMessage_noon ms p
  obtain ⟨second, q', -, hsplit'⟩ := splitMessage_noon ms q
  have hturn : splitMessage twiceText twiceEnv ms twiceTurn p = (.ok twiceTurn, p) := rfl
  have hmap : (ms.mapM (splitMessage twiceText twiceEnv ms)) p =
      (.ok [twiceTurn, clockResult first, clockResult second], q') := by
    show List.mapM (splitMessage twiceText twiceEnv ms) [_, _, _] p = _
    rw [List.mapM_cons, List.mapM_cons, List.mapM_cons, List.mapM_nil, bind_run, hturn]
    dsimp only
    rw [bind_run, bind_run, hsplit]
    dsimp only
    rw [bind_run, bind_run, hsplit']
    rfl
  refine ⟨first, second, q', hfirst, ?_⟩
  show ((ms.mapM (splitMessage twiceText twiceEnv ms) >>= _) : ChatM Json) p = _
  rw [bind_run, hmap]
  rfl

theorem toolRoundMessages_twice (uses : List Use) : ∃ first second q,
    first.toList.head? ≠ some '[' ∧
      toolRoundMessages twiceText twiceEnv clockBridge.tools 0 { text := bytes "twice" }
        [clockCall, clockCall] (.array []) { ctx := none, uses := uses } =
        (.ok (twiceMessages first second), q) := by
  have hcalls : [clockCall, clockCall].foldlM (runToolCall twiceText clockBridge.tools 0)
      (.array [twiceTurn]) { ctx := none, uses := uses } =
        (.ok (twiceMessages "noon" "noon"), { ctx := none, uses := uses }) := rfl
  have hturn : Json.pushBack (.array [])
      (callingTurn { text := bytes "twice" } [clockCall, clockCall]) = .ok (.array [twiceTurn]) :=
    rfl
  have hstripped : stripRequired (twiceMessages "noon" "noon").items =
    .ok (twiceMessages "noon" "noon").items := rfl
  rw [toolRoundMessages_run twiceText twiceEnv hturn hcalls hstripped]
  exact splitContext_twice _

theorem isShort_clockResult (content : String) :
    isShort (clockResult content) = decide (content.toList.head? = some '[') := by
  show (decide ("tool" ≠ "tool") || decide (content.toList.head? = some '[')) = _
  rw [decide_eq_false (by decide), Bool.false_or]

theorem promptOf_twice (messages : Json) : PromptOf twiceText twiceEnv messages
    (twiceEnv.tokenize (if messages.items.all isShort then "" else "long")) :=
  ⟨_, { ctx := none }, { ctx := none }, rfl, rfl⟩

/-- What is behind the round is over the budget with the first result, and not without any. -/
theorem lastPass_twice {first : String} (second : String) (hfirst : first.toList.head? ≠ some '[') :
    LastPass twiceText twiceEnv (twiceMessages first second) { tokens := [1, 1, 1, 1] } ∧
      NoticesFit twiceText twiceEnv (twiceMessages first second) := by
  have hlong : ∀ second, PromptOf twiceText twiceEnv (twiceMessages first second) [1, 1, 1, 1] := by
    intro second
    have hprompt := promptOf_twice (twiceMessages first second)
    have hshort : isShort (clockResult first) = false := by
      rw [isShort_clockResult, decide_eq_false hfirst]
    have hall : (twiceMessages first second).items.all isShort = false := by
      show (isShort twiceTurn && (isShort (clockResult first) && _)) = false
      rw [hshort, Bool.false_and, Bool.and_false]
    rw [hall] at hprompt
    exact hprompt
  have hnotices : PromptOf twiceText twiceEnv (twiceMessages omissionNotice omissionNotice) [] := by
    have hprompt := promptOf_twice (twiceMessages omissionNotice omissionNotice)
    have hshort : isShort (clockResult omissionNotice) = true := by
      rw [isShort_clockResult]
      decide +kernel
    have hall : (twiceMessages omissionNotice omissionNotice).items.all isShort = true := by
      show (isShort twiceTurn && (isShort (clockResult _) && (isShort (clockResult _) && true))) =
        true
      rw [hshort]
      rfl
    rw [hall] at hprompt
    exact hprompt
  refine ⟨⟨by decide, ⟨_, hlong second, by decide⟩, ?_⟩, ?_⟩
  · exact ⟨[clockResult omissionNotice, clockResult first, twiceTurn], rfl, hlong omissionNotice⟩
  · exact ⟨[twiceTurn, clockResult omissionNotice, clockResult omissionNotice], [], rfl, hnotices,
      by decide⟩

def twiceStart : ToolLoop where
  progress := { ctx := none }
  messages := .array []
  greq := { tokens := [1, 2] }

theorem step_twice : step twiceText twiceEnv (some clockBridge) { messages := .array [] } twiceStart
    () = some { twiceStart.generated twiceEnv with
      phase := .dispatching [clockCall, clockCall] clockBridge.tools
      rounds := [["call_0", "call_0"]] } := by
  have hround : twiceStart.toolRound ≤ twiceEnv.toolMaxRounds.toInt := by decide
  have hdecide : decideRound twiceText (some clockBridge) { messages := .array [] }
      (twiceEnv.generate twiceStart.nextUses) =
        .ok (.inr ([clockCall, clockCall], clockBridge.tools)) := rfl
  exact step_of_steps (.calls rfl hround hdecide)

/-- Leaving out the second result is not enough, though leaving out both would be. -/
theorem second_result_left_in :
    ¬ AllSteps (step twiceText twiceEnv (some clockBridge) { messages := .array [] })
      (Fits twiceText twiceEnv (some clockBridge) { messages := .array [] }) twiceStart
      (List.replicate 2 ()) := by
  intro hall
  obtain ⟨first, second, q, hfirst, hmessages⟩ :=
    toolRoundMessages_twice (twiceStart.generated twiceEnv).progress.uses
  obtain ⟨hpass, hnotices⟩ := lastPass_twice second hfirst
  obtain ⟨-, hrest⟩ := hall _ step_twice
  cases hstep : step twiceText twiceEnv (some clockBridge) { messages := .array [] }
      { twiceStart.generated twiceEnv with
        phase := .dispatching [clockCall, clockCall] clockBridge.tools
        rounds := [["call_0", "call_0"]] } () with
  | none =>
    obtain ⟨outcome, hended⟩ := ended_of_step hstep
    cases hended
  | some t =>
    have hfits := (hrest t hstep).1
    rw [fits_iff_of_inv fun hphase => by cases hphase] at hfits
    have hwithin := hfits _ _ _ q _ rfl hmessages hpass hnotices
    exact absurd hwithin (by decide)

end ToolLoop

end TruellmEngine.Server
