/-
  Errors of the engine in the tool loop. A generation that fails ends the loop with status
  503, but nothing looks at the result of the pass over the budget: it is answered with
  status 200, whatever it is.

  `honest_iff`: an error of the last generation is no answer, along exactly the runs in which
  no such pass fails. `failed_pass_answered` is a run in which one does.
-/
import TruellmEngine.Server.ToolRounds

namespace TruellmEngine.Server

open Lib Bridge

/-- The HTTP status of an outcome. -/
def httpStatus : Except Thrown ChatReply → Nat
  | .error _ => 500
  | .ok (.failed status _) => status
  | .ok _ => 200

namespace ToolLoop

/-- The variable `result`. At the end of a round that is dispatched and not counted it has the
    result of the pass. -/
def lastResult (env : ChatEnv) (s : ToolLoop) : GenerateResult :=
  if s.rounds.length = s.toolRound then s.result else env.generate s.progress.uses

/-- An answer is built from the last result, and not from an error. -/
structure Honest (env : ChatEnv) (s : ToolLoop) : Prop where
  built : ∀ answer toolCalls, s.phase = .ended (.ok (.answer answer toolCalls)) →
    answer = ofBytes (s.lastResult env).text
  refused : (s.lastResult env).error ≠ .ok → ∀ outcome, s.phase = .ended outcome →
    httpStatus outcome ≠ 200 ∧ ∀ answer toolCalls, outcome ≠ .ok (.answer answer toolCalls)

/-- If the round goes over the budget, the engine answers its pass without an error. -/
def PassSucceeds (text : JsonText) (env : ChatEnv) (s : ToolLoop) (_ : Unit) : Prop :=
  ∀ toolCalls tools reply progress, s.phase = .dispatching toolCalls tools →
    dispatchRound text env tools s.toolRound s.result toolCalls s.messages s.greq s.progress =
      (.ok (.inl reply), progress) →
    (env.generate progress.uses).error = .ok

/-- What is so in each phase. -/
def ErrorInv (env : ChatEnv) (s : ToolLoop) : Prop :=
  match s.phase with
  | .generating => s.rounds.length = s.toolRound ∧ s.result.error = .ok
  | .dispatching _ _ => s.rounds.length = s.toolRound + 1 ∧ s.result.error = .ok
  | .ended _ => Honest env s

section

variable {text : JsonText} {env : ChatEnv} {bridge : Option PluginBridge} {req : ChatRequest}
  {s t : ToolLoop}

theorem honest_of_going (h : ∀ outcome, s.phase ≠ .ended outcome) : Honest env s := by
  constructor
  · exact fun answer toolCalls hended => absurd hended (h _)
  · exact fun _ outcome hended => absurd hended (h _)

theorem ErrorInv.honest (h : ErrorInv env s) : Honest env s := by
  unfold ErrorInv at h
  split at h
  · rename_i hphase
    refine honest_of_going fun outcome hended => ?_
    rw [hphase] at hended
    cases hended
  · rename_i hphase
    refine honest_of_going fun outcome hended => ?_
    rw [hphase] at hended
    cases hended
  · exact h

theorem decideRound_of_error {result : GenerateResult} (h : result.error ≠ .ok) :
    decideRound text bridge req result =
      .ok (.inl (.failed 503 ("Inference engine error: " ++ result.errorMessage))) :=
  if_pos h

theorem lastResult_counted (h : s.rounds.length = s.toolRound) : s.lastResult env = s.result :=
  if_pos h

theorem lastResult_pass (h : s.rounds.length = s.toolRound + 1) :
    s.lastResult env = env.generate s.progress.uses :=
  if_neg (by omega)

theorem honest_of_reply {reply : ChatReply} {result : GenerateResult}
    (hphase : s.phase = .ended (.ok reply)) (hlast : s.lastResult env = result)
    (hbuilt : ∀ answer toolCalls, reply = .answer answer toolCalls → answer = ofBytes result.text)
    (hrefused : result.error ≠ .ok → httpStatus (.ok reply) ≠ 200) : Honest env s := by
  subst hlast
  constructor
  · intro answer toolCalls hended
    rw [hphase] at hended
    cases hended
    exact hbuilt answer toolCalls rfl
  · intro herror outcome hended
    rw [hphase] at hended
    cases hended
    refine ⟨hrefused herror, ?_⟩
    intro answer toolCalls hanswer
    cases hanswer
    exact hrefused herror rfl

theorem honest_of_thrown {e : Thrown} (hphase : s.phase = .ended (.error e)) : Honest env s := by
  constructor
  · intro answer toolCalls hended
    rw [hphase] at hended
    cases hended
  · intro _ outcome hended
    rw [hphase] at hended
    cases hended
    refine ⟨?_, ?_⟩
    · show (500 : Nat) ≠ 200
      decide
    · intro answer toolCalls hanswer
      cases hanswer

theorem ErrorInv.step (h : ErrorInv env s) (hok : PassSucceeds text env s ())
    (hstep : s.step text env bridge req () = some t) : ErrorInv env t := by
  unfold ErrorInv at h
  cases step_cases hstep with
  | throws hphase hround hdecide => exact honest_of_thrown rfl
  | replies hphase hround hdecide =>
    rename_i reply
    rw [hphase] at h
    refine honest_of_reply rfl (lastResult_counted h.1) ?_ ?_
    · intro answer toolCalls hreply
      rw [hreply] at hdecide
      exact decideRound_answer hdecide
    · intro herror
      change (env.generate s.nextUses).error ≠ .ok at herror
      rw [decideRound_of_error herror] at hdecide
      cases hdecide
      show (503 : Nat) ≠ 200
      decide
  | calls hphase hround hdecide =>
    rw [hphase] at h
    refine ⟨?_, ?_⟩
    · show (s.rounds ++ [_]).length = s.toolRound + 1
      rw [List.length_append, h.1]
      rfl
    · show (env.generate s.nextUses).error = .ok
      by_contra herror
      rw [decideRound_of_error herror] at hdecide
      cases hdecide
  | stale hphase hround =>
    -- no more rounds: the result is one that was looked at
    rw [hphase] at h
    refine honest_of_reply rfl (lastResult_counted h.1) ?_ ?_
    · intro answer toolCalls hreply
      cases hreply
      rfl
    · intro herror
      exact absurd h.2 herror
  | fails hphase hdispatch => exact honest_of_thrown rfl
  | overBudget hphase hdispatch =>
    rw [hphase] at h
    obtain ⟨-, -, -, -, -, -, -, hreply⟩ := dispatchRound_inl hdispatch
    refine honest_of_reply rfl (lastResult_pass h.1) ?_ ?_
    · intro answer toolCalls hanswer
      rw [hreply] at hanswer
      cases hanswer
      rfl
    · intro herror
      exact absurd (hok _ _ _ _ hphase hdispatch) herror
  | goesOn hphase hdispatch =>
    rw [hphase] at h
    exact h

/-- A pass that fails is answered all the same. -/
theorem ErrorInv.not_honest (h : ErrorInv env s) (hok : ¬ PassSucceeds text env s ())
    (hstep : s.step text env bridge req () = some t) : ¬ Honest env t := by
  unfold PassSucceeds at hok
  push Not at hok
  obtain ⟨toolCalls, tools, reply, progress, hphase, hdispatch, herror⟩ := hok
  unfold ErrorInv at h
  rw [hphase] at h
  obtain ⟨-, -, -, -, -, -, -, hreply⟩ := dispatchRound_inl hdispatch
  unfold ToolLoop.step at hstep
  rw [hphase] at hstep
  dsimp only at hstep
  rw [hdispatch] at hstep
  cases hstep
  intro hhonest
  refine (hhonest.refused ?_ _ rfl).2 _ _ (congrArg Except.ok hreply)
  intro hok
  apply herror
  rw [← hok]
  unfold lastResult
  rw [if_neg]
  show ¬ s.rounds.length = s.toolRound
  omega

end

/-- From any messages and request and for any engine, along every run of the loop. -/
theorem honest_iff (text : JsonText) (env : ChatEnv) (bridge : Option PluginBridge)
    (req : ChatRequest) (progress : Progress) (messages : Json) (greq : GenerateRequest)
    (n : Nat) :
    AllStates (step text env bridge req) (Honest env)
        { progress := progress, messages := messages, greq := greq } (List.replicate n ()) ↔
      AllSteps (step text env bridge req) (PassSucceeds text env)
        { progress := progress, messages := messages, greq := greq } (List.replicate n ()) := by
  refine allStates_iff_allSteps (I := ErrorInv env) (fun _ => ErrorInv.honest)
    (fun _ _ _ => ErrorInv.step) (fun _ _ _ => ErrorInv.not_honest) ?_ _
  exact ⟨rfl, rfl⟩

/-- An engine with a budget of three tokens that fails from the second generation on. -/
def failingEnv : ChatEnv where
  chatFormat := some fun _ _ => some { prompt := "chat" }
  indented _ := ""
  tokenize _ := [1, 2, 3]
  generate uses :=
    if uses.length = 1 then { text := bytes "\x7b\"name\":\"clock\"\x7d" }
    else { error := .outOfMemory, errorMessage := "out of memory" }
  tokenBudget := 3
  split := { enabled := false }

/-- The pass fails, and the request is answered with an empty text and status 200. -/
theorem failed_pass_answered :
    let step := step clockText failingEnv (some clockBridge) { messages := .array [] }
    let start : ToolLoop := { progress := { ctx := none }, messages := .array [], greq := {
      tokens := [1, 2] } }
    (run step start (List.replicate 2 ())).map
        (fun s => (s.phase, (s.lastResult failingEnv).error)) =
          some (.ended (.ok (.answer "" [])), .outOfMemory) ∧
      ¬ AllStates step (Honest failingEnv) start (List.replicate 2 ()) := by
  have hrun : (run (step clockText failingEnv (some clockBridge) { messages := .array [] })
      { progress := { ctx := none }, messages := .array [], greq := { tokens := [1, 2] } }
      (List.replicate 2 ())).map (fun s => (s.phase, (s.lastResult failingEnv).error)) =
        some (.ended (.ok (.answer "" [])), .outOfMemory) := by
    rfl
  refine ⟨hrun, ?_⟩
  intro h
  obtain ⟨s, hs, hend⟩ := Option.map_eq_some_iff.mp hrun
  obtain ⟨hphase, herror⟩ := Prod.mk.inj hend
  have hhonest := (h.last hs).refused (by rw [herror]; decide) _ hphase
  exact hhonest.1 rfl

end ToolLoop

end TruellmEngine.Server
