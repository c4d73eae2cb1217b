/-
  What the preprocessors' messages do to a chat.

  The first prompt of a chat stands in front of everything else (`chatFrom_head`).
  `takesEffect_iff`: the messages that a passing chain ends with take effect exactly when
  they are those of the request, for the handler goes on with these in any case
  (`handleChatCompletions_pass`). `replaced_messages_dropped` is a chain of one preprocessor
  that replaces them; a sub-call goes on with the replacement (`callEngine_pass`).
-/
import TruellmEngine.Server.ChatUses

namespace TruellmEngine.Server

open Lib Bridge
open Lib.Json (getString)

section

variable (text : JsonText) (env : ChatEnv) (bridge : Option PluginBridge) (req : ChatRequest)

/-! ## The handler behind its chain -/

/-- What a chat gives, and what it has used. -/
def outcome (x : ChatM ChatReply) (ctx : Option Context) : Except Thrown ChatReply × List Use :=
  ((x { ctx := ctx }).1, (x { ctx := ctx }).2.uses)

/-- The chain of the bridge. -/
def chainOf : PreprocessorChain := (bridge.map PluginBridge.preprocessors).getD {}

/-- The context of the request, with a bridge. -/
def contextOf : Option Context := bridge.map fun _ => req.context

/-- The chain on the messages of the request. -/
def chainRun : PreprocessResult × Option Context :=
  (chainOf bridge).run (text.dump req.messages) (contextOf bridge req)

variable {text env bridge req}

theorem firstRequest_ok {messages : Json} {a : ChatApplied}
    (h : firstPrompt text env req messages = .ok a) : ∃ greq, ∀ p,
      firstRequest text env req messages p =
        (.ok greq, { p with uses := p.uses ++ [.tokenizes a.prompt] }) := by
  unfold firstRequest
  rw [h]
  exact ⟨_, fun _ => rfl⟩

theorem firstRequest_error {messages : Json} {e : TypeError}
    (h : firstPrompt text env req messages = .error e) (p : Progress) :
    firstRequest text env req messages p = (.error (.json e), p) := by
  unfold firstRequest
  rw [h]
  rfl

theorem runPreprocessors_run (uses : List Use) :
    runPreprocessors text bridge req { ctx := contextOf bridge req, uses := uses } =
      (.ok (chainRun text bridge req).1,
        { ctx := (chainRun text bridge req).2, uses := uses }) := by
  unfold chainRun
  cases bridge with
  | none =>
    have hrun := (chainOf none).run_of_empty rfl
      (text.dump req.messages) (contextOf none req)
    rw [hrun]
    rfl
  | some b =>
    unfold runPreprocessors
    cases hhas : b.preprocessors.hasPreprocessors with
    | true =>
      dsimp only
      rw [if_pos hhas]
      rfl
    | false =>
      have hrun := (chainOf (some b)).run_of_empty hhas
        (text.dump req.messages) (contextOf (some b) req)
      dsimp only
      rw [hrun, if_neg (by simp [hhas])]
      rfl

/-- Behind a chain that passes, the handler goes on with the messages of the request. -/
theorem handleChatCompletions_pass (h : (chainRun text bridge req).1.decision = .pass) :
    outcome (handleChatCompletions text env bridge req) (contextOf bridge req) =
      outcome (chatFrom text env bridge req req.messages) (chainRun text bridge req).2 := by
  unfold outcome handleChatCompletions chatFrom
  rw [bind_run, bind_run]
  cases hfirst : firstPrompt text env req req.messages with
  | error e => rw [firstRequest_error hfirst, firstRequest_error hfirst]
  | ok a =>
    obtain ⟨greq, hgreq⟩ := firstRequest_ok hfirst
    rw [hgreq, hgreq]
    dsimp only
    rw [bind_run, runPreprocessors_run]
    dsimp only
    rw [h]

/-- The first prompt is used before anything else. -/
theorem chatFrom_head {messages : Json} {a : ChatApplied}
    (h : firstPrompt text env req messages = .ok a) (ctx : Option Context) :
    (outcome (chatFrom text env bridge req messages) ctx).2.head? =
      some (.tokenizes a.prompt) := by
  obtain ⟨greq, hgreq⟩ := firstRequest_ok h
  unfold outcome chatFrom
  rw [bind_run, hgreq]
  obtain ⟨rest, hrest⟩ := goOn_appends text env bridge req messages greq
    { ctx := ctx, uses := [.tokenizes a.prompt] }
  exact congrArg List.head? hrest.symm

/-! ## The messages of the chain -/

variable (text bridge req)

/-- The messages that the chain ends with. -/
def finalMessages : String :=
  (chainOf bridge).finalMessages (text.dump req.messages) (contextOf bridge req)

/-- These messages as a document: those of the request if the chain replaces nothing. -/
def modifiedMessages : Option Json :=
  if finalMessages text bridge req = text.dump req.messages then some req.messages
  else
    match text.parse (bytes (finalMessages text bridge req)) with
    | some (.array messages) => some (.array messages)
    | _ => none

/-- Behind a chain that passes, the handler does what a chat from the final messages does:
    all prompts and requests, and the messages for generators, come from these. (A text that
    is no array is itself the prompt, as for sub-calls.) -/
def TakesEffect : Prop :=
  (chainRun text bridge req).1.decision = .pass → ∀ env,
    match modifiedMessages text bridge req with
    | some messages =>
      outcome (handleChatCompletions text env bridge req) (contextOf bridge req) =
        outcome (chatFrom text env bridge req messages) (chainRun text bridge req).2
    | none =>
      (outcome (handleChatCompletions text env bridge req) (contextOf bridge req)).2.head? =
        some (.tokenizes (finalMessages text bridge req))

variable {text bridge req} in
/-- A chain without replacements takes effect. -/
theorem takesEffect_of_keeps
    (h : ∀ entry ∈ (chainOf bridge).entries, PreprocessorChain.Keeps entry) :
    TakesEffect text bridge req := by
  intro hpass env
  have hsame : modifiedMessages text bridge req = some req.messages :=
    if_pos (PreprocessorChain.finalMessages_of_keeps h _ _)
  rw [hsame]
  exact handleChatCompletions_pass hpass

/-- An environment whose formatter writes the prompts given. -/
def formatting (prompt : Json → String) : ChatEnv where
  chatFormat := some fun messages _ => some { prompt := prompt messages }
  indented _ := ""
  tokenize _ := []
  generate _ := {}
  tokenBudget := 0

variable {text bridge req}

theorem formatting_head {prompt : Json → String} {messages : Json} (h : prompt messages ≠ "")
    (ctx : Option Context) :
    (outcome (chatFrom text (formatting prompt) bridge req messages) ctx).2.head? =
      some (.tokenizes (prompt messages)) := by
  refine chatFrom_head (a := { prompt := prompt messages }) ?_ ctx
  simp only [firstPrompt, formatting, Option.bind_some, h, if_false]
  rfl

/-- The messages behind a chain that passes take effect exactly when they are those of the
    request. -/
theorem takesEffect_iff (text : JsonText) (bridge : Option PluginBridge) (req : ChatRequest) :
    TakesEffect text bridge req ↔
      ((chainRun text bridge req).1.decision = .pass →
        modifiedMessages text bridge req = some req.messages) := by
  constructor
  · intro h hpass
    by_contra hother
    have heffect := h hpass
    cases hmodified : modifiedMessages text bridge req with
    | none =>
      -- a prompt that is not the text
      have hhead := heffect (formatting fun _ => finalMessages text bridge req ++ "x")
      rw [hmodified] at hhead
      dsimp only at hhead
      rw [handleChatCompletions_pass hpass, formatting_head (by simp)] at hhead
      simp at hhead
    | some messages =>
      -- prompts that tell the messages from those of the request
      classical
      have hhead := heffect (formatting fun m => if m = messages then "final" else "request")
      rw [hmodified] at hhead
      dsimp only at hhead
      rw [handleChatCompletions_pass hpass] at hhead
      have hrequest := congrArg (fun o => o.2.head?) hhead
      have hne : req.messages ≠ messages := by
        rintro rfl
        exact hother hmodified
      rw [formatting_head (by simp [hne]), formatting_head (by simp), if_neg hne, if_pos rfl]
        at hrequest
      simp at hrequest
  · intro h hpass env
    rw [h hpass]
    exact handleChatCompletions_pass hpass

/-- A preprocessor that answers nothing and replaces the messages. -/
def replacing (messagesJson : String) : Preprocessor where
  pluginId := "replacing"
  priority := 0
  preprocess := some fun _ ctx =>
    ({ decision := .pass, modifiedMessagesJson := some messagesJson }, ctx)

def hi : Json := .array [roleMessage "user" "hi"]

def bye : Json := .array [roleMessage "user" "bye"]

def byeText : String := "[\x7b\"content\":\"bye\",\"role\":\"user\"\x7d]"

/-- The text of the messages in the example. -/
def exampleText : JsonText where
  parse _ := some bye
  dump _ := "[\x7b\"content\":\"hi\",\"role\":\"user\"\x7d]"

def replacingBridge : PluginBridge where
  preprocessors := { entries := [replacing byeText], sorted := List.pairwise_singleton _ _ }

/-- The content of the only message. -/
def onlyContent (messages : Json) : String :=
  match messages.items with
  | [m] => Json.valueAt getString m "content" ""
  | _ => ""

/-- The prompt says hi, where the messages of the chain say bye. -/
theorem replaced_messages_dropped :
    ¬ TakesEffect exampleText (some replacingBridge) { messages := hi } := by
  intro h
  have hmodified : modifiedMessages exampleText (some replacingBridge) { messages := hi } =
      some bye := by
    unfold modifiedMessages
    rw [if_neg (by decide)]
    rfl
  have heffect := h rfl (formatting onlyContent)
  rw [hmodified] at heffect
  have hhead := congrArg (fun o => o.2.head?) heffect
  rw [handleChatCompletions_pass rfl, formatting_head (by decide), formatting_head (by decide)]
    at hhead
  have hprompt := Use.tokenizes.inj (Option.some.inj hhead)
  exact absurd hprompt (by decide)

end

end TruellmEngine.Server
