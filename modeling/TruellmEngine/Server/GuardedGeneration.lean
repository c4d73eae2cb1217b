/-
  What the two handlers generate from, and the guardrails.

  `Ensures` is a rule for each way to compose computations: every request that is generated
  from satisfies `G`, and the result satisfies `Q`. With it, `chat_generates` and
  `completions_generates` say what a handler ever passes to the engine: the limit of the
  client, or that of the summaries, and the tokens of some prompt. No handler looks at the
  constraints of the preset.
-/
import Mathlib.Data.Option.Basic
import TruellmEngine.Lib.CanonicalJson
import TruellmEngine.Policy.Guardrails
import TruellmEngine.Server.ChatUses
import TruellmEngine.Server.CompletionsHandler

namespace TruellmEngine.Server

open Lib Bridge Policy

/-! ## Rules -/

section Ensures

variable {G : GenerateRequest → Prop} {α β : Type}

/-- Only such requests have been generated from. -/
def Only (G : GenerateRequest → Prop) (p : Progress) : Prop :=
  ∀ greq, Use.generates greq ∈ p.uses → G greq

def Ensures (G : GenerateRequest → Prop) (x : ChatM α) (Q : α → Prop) : Prop :=
  ∀ p, Only G p → Only G (x p).2 ∧ ∀ a, (x p).1 = .ok a → Q a

theorem ensures_pure {Q : α → Prop} {a : α} (h : Q a) : Ensures G (pure a) Q := by
  intro p hp
  refine ⟨hp, fun a' ha => ?_⟩
  cases ha
  exact h

theorem ensures_throw {Q : α → Prop} (e : Thrown) : Ensures G (throw e) Q := by
  intro p hp
  refine ⟨hp, fun a ha => ?_⟩
  cases ha

theorem ensures_typed {Q : α → Prop} {x : Except TypeError α} (h : ∀ a, x = .ok a → Q a) :
    Ensures G (typed x) Q := by
  cases x with
  | ok a => exact ensures_pure (h a rfl)
  | error e => exact ensures_throw _

theorem ensures_any (x : Except TypeError α) : Ensures G (typed x) fun _ => True :=
  ensures_typed fun _ _ => trivial

theorem ensures_bind {x : ChatM α} {f : α → ChatM β} {Q : α → Prop} {R : β → Prop}
    (hx : Ensures G x Q) (hf : ∀ a, Q a → Ensures G (f a) R) : Ensures G (x >>= f) R := by
  intro p hp
  obtain ⟨hkept, hresult⟩ := hx p hp
  rw [bind_run]
  generalize x p = y at hkept hresult
  obtain ⟨r, q⟩ := y
  cases r with
  | ok a => exact hf a (hresult a rfl) q hkept
  | error e =>
    refine ⟨hkept, fun b hb => ?_⟩
    cases hb

theorem ensures_ite {c : Prop} [Decidable c] {x y : ChatM α} {Q : α → Prop}
    (hx : Ensures G x Q) (hy : Ensures G y Q) : Ensures G (if c then x else y) Q := by
  split
  · exact hx
  · exact hy

theorem ensures_get : Ensures G (get : ChatM Progress) fun _ => True :=
  fun _ hp => ⟨hp, fun _ _ => trivial⟩

theorem ensures_modify {f : Progress → Progress} (h : ∀ p, (f p).uses = p.uses) :
    Ensures G (modify f : ChatM Unit) fun _ => True := by
  intro p hp
  refine ⟨?_, fun _ _ => trivial⟩
  show Only G (f p)
  unfold Only
  rw [h p]
  exact hp

theorem ensures_setCtx (ctx : Option Context) : Ensures G (setCtx ctx) fun _ => True :=
  ensures_modify fun _ => rfl

theorem ensures_note {u : Use} (h : ∀ greq, u = .generates greq → G greq) :
    Ensures G (note u) fun _ => True := by
  intro p hp
  refine ⟨fun greq hgreq => ?_, fun _ _ => trivial⟩
  rcases List.mem_append.mp hgreq with hold | hnew
  · exact hp greq hold
  · exact h greq (List.mem_singleton.mp hnew).symm

theorem ensures_mapM {f : α → ChatM β} (hf : ∀ a, Ensures G (f a) fun _ => True) (xs : List α) :
    Ensures G (xs.mapM f) fun _ => True := by
  induction xs with
  | nil => exact ensures_pure trivial
  | cons a xs ih =>
    rw [List.mapM_cons]
    apply ensures_bind (hf a)
    intro _ _
    exact ensures_bind ih fun _ _ => ensures_pure trivial

theorem ensures_foldlM {f : β → α → ChatM β} (hf : ∀ b a, Ensures G (f b a) fun _ => True)
    (xs : List α) (b : β) : Ensures G (xs.foldlM f b) fun _ => True := by
  induction xs generalizing b with
  | nil => exact ensures_pure trivial
  | cons a xs ih =>
    rw [List.foldlM_cons]
    exact ensures_bind (hf b a) fun b' _ => ih b'

end Ensures

section

variable {G : GenerateRequest → Prop} (text : JsonText) (env : ChatEnv)
  (bridge : Option PluginBridge) (req : ChatRequest)

theorem ensures_tokenize (prompt : String) :
    Ensures G (tokenize env prompt) fun tokens => tokens = env.tokenize prompt := by
  refine ensures_bind (ensures_note ?_) fun _ _ => ensures_pure rfl
  intro greq h
  cases h

theorem ensures_generate {greq : GenerateRequest} (h : G greq) :
    Ensures G (generate env greq) fun _ => True := by
  refine ensures_bind (ensures_note ?_) fun _ _ => ?_
  · intro greq' hgreq
    cases hgreq
    exact h
  · exact ensures_bind ensures_get fun _ _ => ensures_pure trivial

/-- The prompt that `render` gives. -/
def promptOf (messages : Json) : Except TypeError String := do
  match env.chatFormat with
  | none => applyChatTemplate text messages (tmpl env)
  | some format =>
    let _ ← text.dumps messages
    match format messages "" with
    | some a => return a.prompt
    | none => applyChatTemplate text messages (tmpl env)

theorem typed_bind {α β : Type} (x : Except TypeError α) (f : α → Except TypeError β) :
    typed (x >>= f) = typed x >>= fun a => typed (f a) := by
  cases x with
  | ok a => rfl
  | error e => rfl

theorem render_eq (messages : Json) :
    render text env messages = typed (promptOf text env messages) := by
  unfold render promptOf
  cases env.chatFormat with
  | none => rfl
  | some format =>
    dsimp only
    rw [typed_bind]
    cases format messages "" with
    | none => rfl
    | some a => rfl

/-- A request with the limit of the client and the tokens of some prompt. -/
def Clients (maxTokens : Int) (greq : GenerateRequest) : Prop :=
  greq.maxTokens = maxTokens ∧ ∃ prompt, greq.tokens = env.tokenize prompt

/-- The same, or with the limit of the summaries. -/
def ClientsOrSummary (maxTokens : Int) (greq : GenerateRequest) : Prop :=
  (greq.maxTokens = maxTokens ∨ greq.maxTokens = env.split.summaryTokens.toInt) ∧
    ∃ prompt, greq.tokens = env.tokenize prompt

theorem Clients.orSummary {maxTokens : Int} {greq : GenerateRequest}
    (h : Clients env maxTokens greq) : ClientsOrSummary env maxTokens greq :=
  ⟨.inl h.1, h.2⟩

/-! ## Chat completions -/

theorem firstRequest_ensures (messages : Json) :
    Ensures G (firstRequest text env req messages) (Clients env req.maxTokens.toInt) := by
  unfold firstRequest
  apply ensures_bind (ensures_any _)
  intro applied _
  apply ensures_bind (ensures_tokenize env _)
  intro tokens htokens
  exact ensures_pure ⟨rfl, applied.prompt, htokens⟩

theorem injectSchemas_ensures (messages : Json) {greq : GenerateRequest}
    (h : Clients env req.maxTokens.toInt greq) :
    Ensures G (injectSchemas text env bridge req messages greq) fun injected =>
      ∀ m ∈ injected, Clients env req.maxTokens.toInt m.2 := by
  unfold injectSchemas
  apply ensures_bind (ensures_any _)
  intro choice _
  apply ensures_bind (ensures_any _)
  intro schemas _
  apply ensures_ite
  · exact ensures_pure (by simp)
  · apply ensures_bind (ensures_any _)
    intro injected _
    rw [render_eq]
    apply ensures_bind (ensures_any _)
    intro prompt _
    apply ensures_bind (ensures_tokenize env _)
    intro tokens htokens
    apply ensures_pure
    intro m hm
    cases hm
    exact ⟨h.1, prompt, htokens⟩

theorem revertOverflow_ensures (messages : Json) {injected : Option (Json × GenerateRequest)}
    {greq : GenerateRequest} (h : Clients env req.maxTokens.toInt greq)
    (hinjected : ∀ m ∈ injected, Clients env req.maxTokens.toInt m.2) :
    Ensures G (revertOverflow text env bridge req messages injected greq) fun m =>
      Clients env req.maxTokens.toInt m.2 := by
  have hcurrent : Clients env req.maxTokens.toInt (injected.getD (messages, greq)).2 := by
    cases injected with
    | none => exact h
    | some m => exact hinjected m rfl
  unfold revertOverflow
  apply ensures_ite
  · refine ensures_bind (ensures_modify ?_) ?_
    · exact fun _ => rfl
    intro _ _
    apply ensures_ite
    · rw [render_eq]
      apply ensures_bind (ensures_any _)
      intro prompt _
      apply ensures_bind (ensures_tokenize env _)
      intro tokens htokens
      exact ensures_pure ⟨hcurrent.1, prompt, htokens⟩
    · exact ensures_pure hcurrent
  · exact ensures_pure hcurrent

theorem dispatchGenerator_ensures (generators : GeneratorRegistry) (messagesJson : String) :
    Ensures G (dispatchGenerator generators messagesJson) fun _ => True := by
  unfold dispatchGenerator
  apply ensures_bind (ensures_note fun _ h => by cases h)
  intro _ _
  apply ensures_bind ensures_get
  intro _ _
  exact ensures_bind (ensures_setCtx _) fun _ _ => ensures_pure trivial

theorem tryGenerators_ensures (messages : Json) :
    Ensures G (tryGenerators text env bridge req messages) fun _ => True := by
  unfold tryGenerators
  cases bridge with
  | none => exact ensures_pure trivial
  | some b =>
    dsimp only
    apply ensures_ite (ensures_pure trivial)
    apply ensures_bind (ensures_any _)
    intro messagesJson _
    apply ensures_ite
    · apply ensures_bind (ensures_note fun _ h => by cases h)
      intro _ _
      apply ensures_bind ensures_get
      intro _ _
      apply ensures_bind (ensures_setCtx _)
      intro _ _
      apply ensures_ite (ensures_pure trivial)
      exact ensures_bind (dispatchGenerator_ensures _ _) fun _ _ => ensures_pure trivial
    · apply ensures_bind (dispatchGenerator_ensures _ _)
      intro _ _
      apply ensures_ite (ensures_pure trivial)
      apply ensures_ite (ensures_pure trivial)
      apply ensures_ite
      · exact ensures_bind (ensures_tokenize env _) fun _ _ => ensures_pure trivial
      · exact ensures_pure trivial

theorem summarizeChunk_ensures (n : Nat) (chunk : String × Nat) :
    Ensures (ClientsOrSummary env req.maxTokens.toInt) (summarizeChunk text env n chunk)
      fun _ => True := by
  unfold summarizeChunk
  apply ensures_bind (ensures_any _)
  intro prompt _
  apply ensures_bind (ensures_tokenize env _)
  intro tokens htokens
  apply ensures_ite (ensures_pure trivial)
  apply ensures_bind (ensures_generate env ⟨.inr rfl, prompt, htokens⟩)
  intro _ _
  exact ensures_ite (ensures_pure trivial) (ensures_pure trivial)

theorem summarizeChunks_ensures (chunks : List String) :
    Ensures (ClientsOrSummary env req.maxTokens.toInt) (summarizeChunks text env chunks)
      fun _ => True :=
  ensures_bind (ensures_mapM (summarizeChunk_ensures text env req _) _) fun _ _ =>
    ensures_pure trivial

theorem splitMessage_ensures (messages : List Json) (m : Json) :
    Ensures (ClientsOrSummary env req.maxTokens.toInt) (splitMessage text env messages m)
      fun _ => True := by
  unfold splitMessage
  apply ensures_bind (ensures_any _)
  intro _ _
  apply ensures_ite (ensures_pure trivial)
  apply ensures_bind (ensures_any _)
  intro _ _
  apply ensures_bind (ensures_tokenize env _)
  intro _ _
  apply ensures_ite (ensures_pure trivial)
  apply ensures_ite (ensures_pure trivial)
  split
  · exact ensures_throw _
  · apply ensures_bind (ensures_any _)
    intro _ _
    exact ensures_bind (summarizeChunks_ensures text env req _) fun _ _ => ensures_pure trivial

theorem toolRoundMessages_ensures (tools : ToolRegistry) (toolRound : Nat)
    (result : GenerateResult) (toolCalls : List Json) (messages : Json) :
    Ensures (ClientsOrSummary env req.maxTokens.toInt)
      (toolRoundMessages text env tools toolRound result toolCalls messages) fun _ => True := by
  have hcall : ∀ messages call, Ensures (ClientsOrSummary env req.maxTokens.toInt)
      (runToolCall text tools toolRound messages call) fun _ => True := by
    intro messages call
    unfold runToolCall
    apply ensures_bind (ensures_any _)
    intro _ _
    apply ensures_bind (ensures_any _)
    intro _ _
    apply ensures_bind (ensures_any _)
    intro _ _
    apply ensures_bind (ensures_any _)
    intro _ _
    apply ensures_bind ensures_get
    intro _ _
    exact ensures_bind (ensures_setCtx _) fun _ _ => ensures_any _
  unfold toolRoundMessages
  apply ensures_bind (ensures_any _)
  intro _ _
  apply ensures_bind (ensures_foldlM hcall _ _)
  intro _ _
  apply ensures_bind (ensures_any _)
  intro _ _
  unfold splitContext
  apply ensures_ite
  · exact ensures_bind (ensures_mapM (splitMessage_ensures text env req _) _) fun _ _ =>
      ensures_pure trivial
  · exact ensures_pure trivial

/-- Every round of the loop generates from the request of the round before, with the tokens of
    its own prompt. -/
theorem toolLoop_ensures (rounds toolRound : Nat) (result : GenerateResult) (messages : Json)
    {greq : GenerateRequest} (h : Clients env req.maxTokens.toInt greq) :
    Ensures (ClientsOrSummary env req.maxTokens.toInt)
      (toolLoop text env bridge req rounds toolRound result messages greq) fun _ => True := by
  induction rounds generalizing toolRound result messages greq with
  | zero => exact ensures_pure trivial
  | succ rounds ih =>
    unfold toolLoop
    apply ensures_bind (ensures_generate env (h.orSummary env))
    intro result _
    apply ensures_ite (ensures_pure trivial)
    apply ensures_bind (ensures_any _)
    intro toolCalls _
    apply ensures_ite (ensures_pure trivial)
    apply ensures_ite
    · exact ensures_bind (ensures_any _) fun _ _ => ensures_pure trivial
    split
    · exact ensures_pure trivial
    · apply ensures_ite (ensures_pure trivial)
      apply ensures_bind (toolRoundMessages_ensures text env req _ _ _ _ _)
      intro messages _
      rw [render_eq]
      apply ensures_bind (ensures_any _)
      intro prompt _
      apply ensures_bind (ensures_tokenize env _)
      intro tokens htokens
      apply ensures_ite
      · apply ensures_bind (ensures_any _)
        intro shorter _
        rw [render_eq]
        apply ensures_bind (ensures_any _)
        intro prompt _
        apply ensures_bind (ensures_tokenize env _)
        intro tokens htokens
        refine ensures_bind (ensures_generate env ?_) fun _ _ => ensures_pure trivial
        exact ⟨.inl h.1, prompt, htokens⟩
      · exact ih _ _ _ ⟨h.1, prompt, htokens⟩

theorem goOn_ensures (messages : Json) {greq : GenerateRequest}
    (h : Clients env req.maxTokens.toInt greq) :
    Ensures (ClientsOrSummary env req.maxTokens.toInt) (goOn text env bridge req messages greq)
      fun _ => True := by
  unfold goOn
  apply ensures_bind (injectSchemas_ensures text env bridge req _ h)
  intro injected hinjected
  apply ensures_bind (revertOverflow_ensures text env bridge req _ h hinjected)
  intro m hm
  apply ensures_bind (tryGenerators_ensures text env bridge req _)
  intro reply _
  split
  · exact ensures_pure trivial
  · apply ensures_ite
    · refine ensures_bind (ensures_generate env ?_) fun _ _ => ensures_pure trivial
      exact hm.orSummary env
    · exact toolLoop_ensures text env bridge req _ _ _ _ hm

/-- All that chat completions pass to the engine. -/
theorem chat_generates :
    Ensures (ClientsOrSummary env req.maxTokens.toInt) (handleChatCompletions text env bridge req)
      fun _ => True := by
  unfold handleChatCompletions
  apply ensures_bind (firstRequest_ensures text env req _)
  intro greq hgreq
  have hchain : Ensures (ClientsOrSummary env req.maxTokens.toInt)
      (runPreprocessors text bridge req) fun _ => True := by
    unfold runPreprocessors
    cases bridge with
    | none => exact ensures_pure trivial
    | some b =>
      apply ensures_ite
      · apply ensures_bind ensures_get
        intro _ _
        exact ensures_bind (ensures_setCtx _) fun _ _ => ensures_pure trivial
      · exact ensures_pure trivial
  apply ensures_bind hchain
  intro pr _
  split
  · exact ensures_pure trivial
  · exact ensures_pure trivial
  · exact goOn_ensures text env bridge req _ hgreq

/-! ## Completions -/

theorem prependSchemas_ensures (prompt : String) {maxTokens : Int} {greq : GenerateRequest}
    (h : Clients env maxTokens greq) :
    Ensures G (prependSchemas env bridge prompt greq) fun m => Clients env maxTokens m.2 := by
  unfold prependSchemas
  cases bridge with
  | none => exact ensures_pure h
  | some b =>
    apply ensures_ite
    · apply ensures_bind (ensures_tokenize env _)
      intro tokens htokens
      exact ensures_pure ⟨h.1, _, htokens⟩
    · exact ensures_pure h

theorem completionsLoop_ensures {maxTokens : Int}
    (hown : ∀ greq, Clients env maxTokens greq → G greq) (rounds toolRound : Nat)
    (result : GenerateResult) (prompt : String) {greq : GenerateRequest}
    (h : Clients env maxTokens greq) :
    Ensures G (completionsLoop text env bridge rounds toolRound result prompt greq)
      fun _ => True := by
  induction rounds generalizing toolRound result prompt greq with
  | zero => exact ensures_pure trivial
  | succ rounds ih =>
    have hcall : ∀ (tools : ToolRegistry) (results : String) (call : Json),
        Ensures G (runCompletionsCall text tools toolRound results call) fun _ => True := by
      intro tools results call
      unfold runCompletionsCall
      apply ensures_bind (ensures_any _)
      intro _ _
      apply ensures_bind (ensures_any _)
      intro _ _
      apply ensures_bind (ensures_any _)
      intro _ _
      apply ensures_bind (ensures_any _)
      intro _ _
      apply ensures_bind ensures_get
      intro _ _
      exact ensures_bind (ensures_setCtx _) fun _ _ => ensures_pure trivial
    unfold completionsLoop
    apply ensures_bind (ensures_generate env (hown greq h))
    intro result _
    apply ensures_ite (ensures_pure trivial)
    split
    · exact ensures_pure trivial
    · apply ensures_ite (ensures_pure trivial)
      apply ensures_bind (ensures_any _)
      intro toolCalls _
      apply ensures_ite (ensures_pure trivial)
      apply ensures_bind (ensures_foldlM (hcall _) _ _)
      intro results _
      apply ensures_bind (ensures_tokenize env _)
      intro tokens htokens
      exact ih _ _ _ ⟨h.1, _, htokens⟩

theorem completeFrom_ensures {maxTokens : Int}
    (hown : ∀ greq, Clients env maxTokens greq → G greq)
    (stream : Bool) (prompt : String) {greq : GenerateRequest} (h : Clients env maxTokens greq) :
    Ensures G (completeFrom text env bridge stream prompt greq) fun _ => True := by
  have hchain : Ensures G (completionsPreprocessors text bridge prompt) fun _ => True := by
    unfold completionsPreprocessors
    cases bridge with
    | none => exact ensures_pure trivial
    | some b =>
      apply ensures_ite
      · apply ensures_bind (ensures_any _)
        intro _ _
        apply ensures_bind ensures_get
        intro _ _
        exact ensures_bind (ensures_setCtx _) fun _ _ => ensures_pure trivial
      · exact ensures_pure trivial
  unfold completeFrom
  apply ensures_bind hchain
  intro pr _
  split
  · exact ensures_pure trivial
  · exact ensures_pure trivial
  · apply ensures_bind (prependSchemas_ensures env bridge prompt h)
    intro m hm
    apply ensures_ite
    · refine ensures_bind (ensures_generate env ?_) fun _ _ => ensures_pure trivial
      exact hown _ hm
    · exact completionsLoop_ensures text env bridge hown _ _ _ _ hm

/-! ## What a request asks for -/

/-- The prompt of a chat request, with the schemas of the tools in it. -/
def chatPrompt : Except TypeError String := do
  let applied ← firstPrompt text env req req.messages
  let (toolChoice, forcedTool) ← toolChoiceOf req.toolChoice
  let schemas ← allSchemas text bridge req
  if schemas.isEmpty then return applied.prompt
  promptOf text env (← injectInto (toolInstr env schemas toolChoice forcedTool) req.messages)

/-- The limit and the prompt of a request, if it has them. -/
def chatAsked : Option (Int × String) :=
  (chatPrompt text env bridge req).toOption.map fun prompt => (req.maxTokens.toInt, prompt)

def completionsPrompt (prompt : String) : String :=
  match bridge with
  | none => prompt
  | some b =>
    if b.tools.hasTools && b.tools.schemasJson ≠ "" && b.tools.schemasJson ≠ "[]" then
      promptWithTools b.tools.schemasJson prompt
    else prompt

def completionsAsked (loaded : Bool) (cfgMaxTokens : Int32) (raw : List UInt8) :
    Option (Int × String) := do
  let body ← text.parse raw
  guard loaded
  let prompt ← (Json.value Json.getString body "prompt" "").toOption
  let maxTokens ← (Json.value Json.getInt body "max_tokens" cfgMaxTokens).toOption
  let _ ← (checkFloat body "temperature").toOption
  let _ ← (Json.value Json.getBoolean body "stream" false).toOption
  let _ ← (checkFloat body "top_p").toOption
  return (maxTokens.toInt, completionsPrompt bridge prompt)

/-- Every request that was passed to the engine is within the constraints, and a request that
    asks for more was refused. -/
structure Guarded (c : RequestConstraints) (asked : Option (Int × String))
    (outcome : Except Thrown ChatReply × Progress) : Prop where
  generated : ∀ greq, .generates greq ∈ outcome.2.uses →
    checkRequest c greq.maxTokens greq.tokens.length = none
  refused : ∀ a ∈ asked, checkRequest c a.1 (env.tokenize a.2).length ≠ none →
    ∃ status message, outcome.1 = .ok (.failed status message)

/-- The engine was asked for just what the request asks for. -/
def Serves (a : Int × String) (greq : GenerateRequest) : Prop :=
  greq.maxTokens = a.1 ∧ greq.tokens = env.tokenize a.2

/-- A run that passes the request to the engine as it is, or answers it without the engine. -/
theorem guarded_iff {c : RequestConstraints} {asked : Option (Int × String)}
    {outcome : Except Thrown ChatReply × Progress}
    (honly : Only (fun greq => ∃ a ∈ asked, Serves env a greq) outcome.2)
    (hreaches : ∀ a ∈ asked,
      (∃ greq, .generates greq ∈ outcome.2.uses ∧ Serves env a greq) ∨
        ∃ answer toolCalls, outcome.1 = .ok (.answer answer toolCalls)) :
    Guarded env c asked outcome ↔
      ∀ a ∈ asked, checkRequest c a.1 (env.tokenize a.2).length = none := by
  constructor
  · intro h a ha
    by_contra hviolates
    obtain ⟨status, message, hfailed⟩ := h.refused a ha hviolates
    rcases hreaches a ha with ⟨greq, hgreq, hmax, htokens⟩ | ⟨answer, toolCalls, hanswer⟩
    · have hwithin := h.generated greq hgreq
      rw [hmax, htokens] at hwithin
      exact hviolates hwithin
    · rw [hanswer] at hfailed
      cases hfailed
  · intro h
    constructor
    · intro greq hgreq
      obtain ⟨a, ha, hmax, htokens⟩ := honly greq hgreq
      rw [hmax, htokens]
      exact h a ha
    · intro a ha hviolates
      exact absurd (h a ha) hviolates

theorem mem_uses_generate {α : Type} (greq : GenerateRequest) {f : GenerateResult → ChatM α}
    (hf : ∀ result, Appends (f result)) (p : Progress) :
    .generates greq ∈ ((generate env greq >>= f) p).2.uses := by
  have hnoted : .generates greq ∈ p.uses ++ [.generates greq] :=
    List.mem_append_right _ (List.mem_singleton_self _)
  exact (hf (env.generate (p.uses ++ [.generates greq]))
    { p with uses := p.uses ++ [.generates greq] }).subset hnoted

/-! ## Completions on a server without plugins -/

theorem mem_completionsAsked {loaded : Bool} {cfgMaxTokens : Int32} {raw : List UInt8}
    {a : Int × String} :
    a ∈ completionsAsked text bridge loaded cfgMaxTokens raw ↔
      ∃ body prompt maxTokens stream, text.parse raw = some body ∧ loaded = true ∧
        Json.value Json.getString body "prompt" "" = .ok prompt ∧
        Json.value Json.getInt body "max_tokens" cfgMaxTokens = .ok maxTokens ∧
        checkFloat body "temperature" = .ok () ∧
        Json.value Json.getBoolean body "stream" false = .ok stream ∧
        checkFloat body "top_p" = .ok () ∧
        (maxTokens.toInt, completionsPrompt bridge prompt) = a := by
  unfold completionsAsked
  simp only [Option.mem_def, Option.bind_eq_bind, Option.bind_eq_some_iff, toOption_eq_some,
    Option.guard_eq_some', Option.pure_def, Option.some.injEq]
  constructor
  · rintro ⟨body, hbody, ⟨⟩, hloaded, prompt, hprompt, maxTokens, hmax, ⟨⟩, htemp, stream, hstream,
      ⟨⟩, htop, ha⟩
    exact ⟨body, prompt, maxTokens, stream, hbody, hloaded, hprompt, hmax, htemp, hstream, htop, ha⟩
  · rintro ⟨body, prompt, maxTokens, stream, hbody, hloaded, hprompt, hmax, htemp, hstream, htop,
      ha⟩
    exact ⟨body, hbody, (), hloaded, prompt, hprompt, maxTokens, hmax, (), htemp, stream, hstream,
      (), htop, ha⟩

/-- Without plugins the loop is over behind its first round. -/
theorem completionsLoopAlone_only (rounds : Nat) (result : GenerateResult) (prompt : String)
    {greq : GenerateRequest} (h : G greq) :
    Ensures G (completionsLoop text env none rounds 0 result prompt greq) fun _ => True := by
  cases rounds with
  | zero => exact ensures_pure trivial
  | succ rounds =>
    apply ensures_bind (ensures_generate env h)
    intro result _
    exact ensures_ite (ensures_pure trivial) (ensures_pure trivial)

theorem completionsLoopAlone_reaches (rounds : Nat) (prompt : String) (greq : GenerateRequest)
    (p : Progress) :
    .generates greq ∈ (completionsLoop text env none rounds 0 {} prompt greq p).2.uses ∨
      ∃ answer toolCalls, (completionsLoop text env none rounds 0 {} prompt greq p).1 =
        .ok (.answer answer toolCalls) := by
  cases rounds with
  | zero => exact .inr ⟨_, _, rfl⟩
  | succ rounds =>
    apply Or.inl
    unfold completionsLoop
    refine mem_uses_generate env greq ?_ p
    intro result
    exact appends_ite (appends_pure _) (appends_pure _)

theorem completeFrom_none (stream : Bool) (prompt : String) (greq : GenerateRequest) :
    completeFrom text env none stream prompt greq =
      if stream then do
        let _ ← generate env { greq with onToken := true }
        return .streamed
      else completionsLoop text env none (env.toolMaxRounds.toInt + 1).toNat 0 {} prompt greq :=
  rfl

/-- A rule for the handler: what is behind the body keeps `G`. -/
theorem handleCompletions_ensures {loaded : Bool} {cfgMaxTokens : Int32} {requestId : Bytes}
    {raw : List UInt8}
    (h : ∀ a ∈ completionsAsked text bridge loaded cfgMaxTokens raw, ∀ stream prompt greq,
      a.2 = completionsPrompt bridge prompt → greq.maxTokens = a.1 →
      greq.tokens = env.tokenize prompt →
      Ensures G (completeFrom text env bridge stream prompt greq) fun _ => True) :
    Ensures G (handleCompletions text env bridge loaded cfgMaxTokens requestId raw)
      fun _ => True := by
  unfold handleCompletions
  split
  · exact ensures_pure trivial
  · rename_i body hbody
    cases loaded with
    | false => exact ensures_pure trivial
    | true =>
      show Ensures _ (typed _ >>= _) _
      apply ensures_bind (ensures_typed fun _ h => h)
      intro prompt hprompt
      apply ensures_bind (ensures_typed fun _ h => h)
      intro maxTokens hmax
      apply ensures_bind (ensures_typed fun _ h => h)
      intro _ htemp
      apply ensures_bind (ensures_typed fun _ h => h)
      intro stream hstream
      apply ensures_bind (ensures_tokenize env prompt)
      intro tokens htokens
      apply ensures_bind (ensures_typed fun _ h => h)
      intro _ htop
      have hasked : (maxTokens.toInt, completionsPrompt bridge prompt) ∈
          completionsAsked text bridge true cfgMaxTokens raw :=
        (mem_completionsAsked text bridge).mpr ⟨body, prompt, maxTokens, stream, hbody, rfl,
          hprompt, hmax, htemp, hstream, htop, rfl⟩
      exact h _ hasked stream prompt _ rfl rfl htokens

/-- All that completions pass to the engine. -/
theorem completions_generates (loaded : Bool) (cfgMaxTokens : Int32) (requestId : Bytes)
    (raw : List UInt8) :
    Ensures (fun greq => ∃ a ∈ completionsAsked text bridge loaded cfgMaxTokens raw,
        Clients env a.1 greq)
      (handleCompletions text env bridge loaded cfgMaxTokens requestId raw) fun _ => True := by
  apply handleCompletions_ensures
  intro a ha stream prompt greq _ hmax htokens
  have hown : ∀ greq, Clients env a.1 greq →
      ∃ a ∈ completionsAsked text bridge loaded cfgMaxTokens raw, Clients env a.1 greq :=
    fun greq hgreq => ⟨a, ha, hgreq⟩
  exact completeFrom_ensures text env bridge hown stream prompt ⟨hmax, prompt, htokens⟩

/-- The engine is asked once for what the request asks for, if at all. -/
theorem completionsAlone_only (loaded : Bool) (cfgMaxTokens : Int32) (requestId : Bytes)
    (raw : List UInt8) :
    Ensures (fun greq => ∃ a ∈ completionsAsked text none loaded cfgMaxTokens raw,
        Serves env a greq)
      (handleCompletions text env none loaded cfgMaxTokens requestId raw) fun _ => True := by
  apply handleCompletions_ensures
  intro a ha stream prompt greq hprompt hmax htokens
  have hserves : Serves env a greq := ⟨hmax, by rw [htokens, hprompt]; rfl⟩
  rw [completeFrom_none]
  apply ensures_ite
  · exact ensures_bind (ensures_generate env ⟨a, ha, hserves⟩) fun _ _ => ensures_pure trivial
  · exact completionsLoopAlone_only text env _ _ _ ⟨a, ha, hserves⟩

/-- A request that can be read reaches the engine, or is answered without a round. -/
theorem completionsAlone_reaches (loaded : Bool) (cfgMaxTokens : Int32) (requestId : Bytes)
    (raw : List UInt8) (p : Progress) :
    ∀ a ∈ completionsAsked text none loaded cfgMaxTokens raw,
      (∃ greq, .generates greq ∈
          (handleCompletions text env none loaded cfgMaxTokens requestId raw p).2.uses ∧
        Serves env a greq) ∨
      ∃ answer toolCalls,
        (handleCompletions text env none loaded cfgMaxTokens requestId raw p).1 =
          .ok (.answer answer toolCalls) := by
  intro a ha
  obtain ⟨body, prompt, maxTokens, stream, hbody, rfl, hprompt, hmax, htemp, hstream, htop, rfl⟩ :=
    (mem_completionsAsked text none).mp ha
  have hrun : handleCompletions text env none true cfgMaxTokens requestId raw p =
      completeFrom text env none stream prompt {
        tokens := env.tokenize prompt
        maxTokens := maxTokens.toInt
        stop := stopsOf body
        requestId := requestId } { p with uses := p.uses ++ [.tokenizes prompt] } := by
    unfold handleCompletions
    rw [hbody]
    dsimp only
    rw [hprompt, hmax, htemp, hstream, htop]
    rfl
  rw [hrun]
  cases stream with
  | true => exact .inl ⟨_, mem_uses_generate env _ (fun _ => appends_pure _) _, rfl, rfl⟩
  | false =>
    rcases completionsLoopAlone_reaches text env _ prompt _ _ with h | h
    · exact .inl ⟨_, h, rfl, rfl⟩
    · exact .inr h

/-! ## Chat completions on a server without plugins -/

theorem revertOverflow_none (messages : Json) (injected : Option (Json × GenerateRequest))
    (greq : GenerateRequest) :
    revertOverflow text env none req messages injected greq =
      pure (injected.getD (messages, greq)) := by
  unfold revertOverflow
  have hnone : hasGenerators none = false := rfl
  rw [hnone]
  simp

/-- What follows the schemas when there are no plugins. -/
def answerAlone (messages : Json) (greq : GenerateRequest) : ChatM ChatReply :=
  if req.stream && !toolsInPlay none req then do
    let _ ← generate env { greq with onToken := true }
    return .streamed
  else toolLoop text env none req (env.toolMaxRounds.toInt + 1).toNat 0 {} messages greq

theorem goOn_none (messages : Json) (greq : GenerateRequest) :
    goOn text env none req messages greq =
      injectSchemas text env none req messages greq >>= fun injected =>
        answerAlone text env req (injected.getD (messages, greq)).1
          (injected.getD (messages, greq)).2 := by
  unfold goOn
  simp only [revertOverflow_none, pure_bind]
  rfl

theorem answerAlone_only (messages : Json) {greq : GenerateRequest} (h : G greq)
    (hstream : G { greq with onToken := true }) :
    Ensures G (answerAlone text env req messages greq) fun _ => True := by
  unfold answerAlone
  apply ensures_ite
  · exact ensures_bind (ensures_generate env hstream) fun _ _ => ensures_pure trivial
  · cases (env.toolMaxRounds.toInt + 1).toNat with
    | zero => exact ensures_pure trivial
    | succ rounds =>
      unfold toolLoop
      apply ensures_bind (ensures_generate env h)
      intro result _
      apply ensures_ite (ensures_pure trivial)
      apply ensures_bind (ensures_any _)
      intro toolCalls _
      apply ensures_ite (ensures_pure trivial)
      apply ensures_ite
      · exact ensures_bind (ensures_any _) fun _ _ => ensures_pure trivial
      · exact ensures_pure trivial

theorem answerAlone_reaches (messages : Json) (greq : GenerateRequest) (p : Progress) :
    (∃ greq', .generates greq' ∈ (answerAlone text env req messages greq p).2.uses ∧
        greq'.maxTokens = greq.maxTokens ∧ greq'.tokens = greq.tokens) ∨
      ∃ answer toolCalls, (answerAlone text env req messages greq p).1 =
        .ok (.answer answer toolCalls) := by
  unfold answerAlone
  split
  · exact .inl ⟨_, mem_uses_generate env _ (fun _ => appends_pure _) _, rfl, rfl⟩
  · cases (env.toolMaxRounds.toInt + 1).toNat with
    | zero => exact .inr ⟨_, _, rfl⟩
    | succ rounds =>
      refine .inl ⟨greq, ?_, rfl, rfl⟩
      unfold toolLoop
      refine mem_uses_generate env greq ?_ p
      intro result
      apply appends_ite (appends_pure _)
      apply appends_bind (appends_typed _)
      intro toolCalls
      apply appends_ite (appends_pure _)
      apply appends_ite
      · exact appends_bind (appends_typed _) fun _ => appends_pure _
      · exact appends_pure _

theorem mem_chatAsked {a : Int × String} :
    a ∈ chatAsked text env bridge req ↔
      ∃ prompt, chatPrompt text env bridge req = .ok prompt ∧
        (req.maxTokens.toInt, prompt) = a := by
  unfold chatAsked
  rw [Option.mem_def, Option.map_eq_some_iff]
  simp only [toOption_eq_some]

theorem chatAlone_only :
    Ensures (fun greq => ∃ a ∈ chatAsked text env none req, Serves env a greq)
      (handleChatCompletions text env none req) fun _ => True := by
  have hasked : ∀ {prompt greq}, chatPrompt text env none req = .ok prompt →
      greq.maxTokens = req.maxTokens.toInt → greq.tokens = env.tokenize prompt →
      ∃ a ∈ chatAsked text env none req, Serves env a greq := by
    intro prompt greq hprompt hmax htokens
    exact ⟨_, (mem_chatAsked text env none req).mpr ⟨prompt, hprompt, rfl⟩, hmax, htokens⟩
  show Ensures _ (firstRequest text env req req.messages >>= fun greq =>
    goOn text env none req req.messages greq) _
  have hfirst : Ensures (fun greq => ∃ a ∈ chatAsked text env none req, Serves env a greq)
      (firstRequest text env req req.messages) fun greq =>
        greq.maxTokens = req.maxTokens.toInt ∧ ∃ applied,
          firstPrompt text env req req.messages = .ok applied ∧
            greq.tokens = env.tokenize applied.prompt := by
    unfold firstRequest
    apply ensures_bind (ensures_typed fun _ h => h)
    intro applied happlied
    apply ensures_bind (ensures_tokenize env _)
    intro tokens htokens
    exact ensures_pure ⟨rfl, applied, happlied, htokens⟩
  apply ensures_bind hfirst
  rintro greq ⟨hmax, applied, happlied, htokens⟩
  rw [goOn_none]
  unfold injectSchemas
  rw [bind_assoc]
  apply ensures_bind (ensures_typed fun _ h => h)
  intro choice hchoice
  rw [bind_assoc]
  apply ensures_bind (ensures_typed fun _ h => h)
  intro schemas hschemas
  have hprompt : chatPrompt text env none req =
      if schemas.isEmpty then .ok applied.prompt
      else injectInto (toolInstr env schemas choice.1 choice.2) req.messages >>=
        promptOf text env := by
    unfold chatPrompt
    rw [happlied, hchoice, hschemas]
    rfl
  cases hempty : schemas.isEmpty with
  | true =>
    rw [hempty] at hprompt
    show Ensures _ (answerAlone text env req req.messages greq) _
    exact answerAlone_only text env req _ (hasked hprompt hmax htokens)
      (hasked hprompt hmax htokens)
  | false =>
    rw [hempty] at hprompt
    show Ensures _ ((typed _ >>= _) >>= _) _
    rw [bind_assoc]
    apply ensures_bind (ensures_typed fun _ h => h)
    intro injected hinjected
    rw [bind_assoc, render_eq]
    apply ensures_bind (ensures_typed fun _ h => h)
    intro prompt hrendered
    rw [bind_assoc]
    apply ensures_bind (ensures_tokenize env _)
    intro tokens htokens
    have hprompt : chatPrompt text env none req = .ok prompt :=
      hprompt.trans (bind_eq_ok.mpr ⟨injected, hinjected, hrendered⟩)
    exact answerAlone_only text env req _ (hasked hprompt hmax htokens)
      (hasked hprompt hmax htokens)

theorem injectSchemas_eq {choice : String × String} {schemas : List Json}
    (hchoice : toolChoiceOf req.toolChoice = .ok choice)
    (hschemas : allSchemas text bridge req = .ok schemas) (messages : Json)
    (greq : GenerateRequest) :
    injectSchemas text env bridge req messages greq =
      if schemas.isEmpty then pure none
      else do
        let injected ← typed (injectInto (toolInstr env schemas choice.1 choice.2) messages)
        let tokens ← tokenize env (← render text env injected)
        return some (injected, { greq with tokens := tokens }) := by
  unfold injectSchemas
  rw [hchoice]
  show (typed (allSchemas text bridge req) >>= _) = _
  rw [hschemas]
  rfl

/-- A request with a prompt reaches the engine, or is answered without a round. -/
theorem chatAlone_reaches (p : Progress) :
    ∀ a ∈ chatAsked text env none req,
      (∃ greq, .generates greq ∈ (handleChatCompletions text env none req p).2.uses ∧
        Serves env a greq) ∨
      ∃ answer toolCalls, (handleChatCompletions text env none req p).1 =
        .ok (.answer answer toolCalls) := by
  intro a ha
  obtain ⟨prompt, hprompt, rfl⟩ := (mem_chatAsked text env none req).mp ha
  obtain ⟨applied, happlied, hprompt⟩ := bind_eq_ok.mp hprompt
  obtain ⟨choice, hchoice, hprompt⟩ := bind_eq_ok.mp hprompt
  obtain ⟨schemas, hschemas, hprompt⟩ := bind_eq_ok.mp hprompt
  have hrun : ∃ messages greq q, handleChatCompletions text env none req p =
      answerAlone text env req messages greq q ∧ greq.maxTokens = req.maxTokens.toInt ∧
        greq.tokens = env.tokenize prompt := by
    have hfirst : ∃ greq q, handleChatCompletions text env none req p =
        goOn text env none req req.messages greq q ∧ greq.maxTokens = req.maxTokens.toInt ∧
          greq.tokens = env.tokenize applied.prompt := by
      refine ⟨{
          tokens := env.tokenize applied.prompt
          maxTokens := req.maxTokens.toInt
          stop := req.stop ++ applied.additionalStops.filter (· ≠ [])
          requestId := req.requestId
          sessionId := req.sessionId },
        { p with uses := p.uses ++ [.tokenizes applied.prompt] }, ?_, rfl, rfl⟩
      unfold handleChatCompletions firstRequest
      rw [happlied]
      rfl
    obtain ⟨greq, q, hfirst, hmax, htokens⟩ := hfirst
    rw [hfirst, goOn_none, injectSchemas_eq text env none req hchoice hschemas]
    cases hempty : schemas.isEmpty with
    | true =>
      rw [hempty] at hprompt
      cases hprompt
      exact ⟨req.messages, greq, q, rfl, hmax, htokens⟩
    | false =>
      rw [hempty] at hprompt
      obtain ⟨injected, hinjected, hrendered⟩ := bind_eq_ok.mp hprompt
      refine ⟨injected, { greq with tokens := env.tokenize prompt },
        { q with uses := q.uses ++ [.tokenizes prompt] }, ?_, hmax, rfl⟩
      rw [hinjected]
      show ((render text env injected >>= _) >>= _) q = _
      rw [render_eq, hrendered]
      rfl
  obtain ⟨messages, greq, q, hrun, hmax, htokens⟩ := hrun
  rw [hrun]
  rcases answerAlone_reaches text env req messages greq q with ⟨greq', hgreq, hmax', htokens'⟩ | h
  · exact .inl ⟨greq', hgreq, hmax'.trans hmax, htokens'.trans htokens⟩
  · exact .inr h

/-! ## The guardrails -/

theorem chatAlone_guarded_iff (c : RequestConstraints) (ctx : Option Context) :
    Guarded env c (chatAsked text env none req)
        (handleChatCompletions text env none req ⟨ctx, []⟩) ↔
      ∀ a ∈ chatAsked text env none req, checkRequest c a.1 (env.tokenize a.2).length = none :=
  guarded_iff env (chatAlone_only text env req ⟨ctx, []⟩ fun _ h => nomatch h).1
    (chatAlone_reaches text env req ⟨ctx, []⟩)

theorem completionsAlone_guarded_iff (c : RequestConstraints) (ctx : Option Context)
    (loaded : Bool) (cfgMaxTokens : Int32) (requestId : Bytes) (raw : List UInt8) :
    Guarded env c (completionsAsked text none loaded cfgMaxTokens raw)
        (handleCompletions text env none loaded cfgMaxTokens requestId raw ⟨ctx, []⟩) ↔
      ∀ a ∈ completionsAsked text none loaded cfgMaxTokens raw,
        checkRequest c a.1 (env.tokenize a.2).length = none :=
  guarded_iff env
    (completionsAlone_only text env loaded cfgMaxTokens requestId raw ⟨ctx, []⟩
      fun _ h => nomatch h).1
    (completionsAlone_reaches text env loaded cfgMaxTokens requestId raw ⟨ctx, []⟩)

/-- With plugins: limits that the client, the summaries and every prompt keep. -/
theorem chat_guarded_of_within {c : RequestConstraints}
    (hclient : Within c.maxTokens req.maxTokens.toInt)
    (hsummary : Within c.maxTokens env.split.summaryTokens.toInt)
    (hprompt : ∀ prompt, Within c.maxCtxTokens (env.tokenize prompt).length)
    (ctx : Option Context) :
    Guarded env c (chatAsked text env bridge req)
      (handleChatCompletions text env bridge req ⟨ctx, []⟩) := by
  constructor
  · intro greq hgreq
    obtain ⟨hmax, prompt, htokens⟩ :=
      (chat_generates text env bridge req ⟨ctx, []⟩ fun _ h => nomatch h).1 greq hgreq
    apply checkRequest_eq_none.mpr
    rw [htokens]
    rcases hmax with hmax | hmax
    · exact ⟨hmax ▸ hclient, hprompt prompt⟩
    · exact ⟨hmax ▸ hsummary, hprompt prompt⟩
  · intro a ha hviolates
    obtain ⟨prompt, -, rfl⟩ := (mem_chatAsked text env bridge req).mp ha
    exact absurd (checkRequest_eq_none.mpr ⟨hclient, hprompt prompt⟩) hviolates

theorem completions_guarded_of_within {c : RequestConstraints} {loaded : Bool}
    {cfgMaxTokens : Int32} {raw : List UInt8}
    (hclient : ∀ a ∈ completionsAsked text bridge loaded cfgMaxTokens raw, Within c.maxTokens a.1)
    (hprompt : ∀ prompt, Within c.maxCtxTokens (env.tokenize prompt).length)
    (requestId : Bytes) (ctx : Option Context) :
    Guarded env c (completionsAsked text bridge loaded cfgMaxTokens raw)
      (handleCompletions text env bridge loaded cfgMaxTokens requestId raw ⟨ctx, []⟩) := by
  constructor
  · intro greq hgreq
    obtain ⟨a, ha, hmax, prompt, htokens⟩ :=
      (completions_generates text env bridge loaded cfgMaxTokens requestId raw ⟨ctx, []⟩
        fun _ h => nomatch h).1 greq hgreq
    apply checkRequest_eq_none.mpr
    rw [htokens]
    exact ⟨hmax ▸ hclient a ha, hprompt prompt⟩
  · intro a ha hviolates
    exact absurd (checkRequest_eq_none.mpr ⟨hclient a ha, hprompt a.2⟩) hviolates

end

/-- All requests of the route, on any server, are kept within the constraints. -/
def ChatGuarded (c : RequestConstraints) : Prop :=
  ∀ text env bridge req ctx, Guarded env c (chatAsked text env bridge req)
    (handleChatCompletions text env bridge req ⟨ctx, []⟩)

def CompletionsGuarded (c : RequestConstraints) : Prop :=
  ∀ text env bridge loaded cfgMaxTokens requestId raw ctx,
    Guarded env c (completionsAsked text bridge loaded cfgMaxTokens raw)
      (handleCompletions text env bridge loaded cfgMaxTokens requestId raw ⟨ctx, []⟩)

theorem guarded_off {env : ChatEnv} {asked : Option (Int × String)}
    {outcome : Except Thrown ChatReply × Progress} :
    Guarded env (constraintsForPreset "off") asked outcome := by
  have hoff : ∀ maxTokens ctxTokens,
      checkRequest (constraintsForPreset "off") maxTokens ctxTokens = none :=
    fun _ _ => checkRequest_eq_none.mpr ⟨.inl (by decide), .inl (by decide)⟩
  constructor
  · intro greq _
    exact hoff _ _
  · intro a _ hviolates
    exact absurd (hoff _ _) hviolates

/-- An engine with one token for each character, which says nothing. -/
def plainEnv : ChatEnv where
  indented := CanonicalJson.canonical.dump
  tokenize s := s.toList.map fun c => c.toNat
  generate _ := {}
  tokenBudget := 4096

def greeting (maxTokens : Int32) : ChatRequest where
  messages := .array [roleMessage "user" "Hi"]
  maxTokens := maxTokens

theorem greeting_asked (maxTokens : Int32) :
    ∃ prompt, (maxTokens.toInt, prompt) ∈
      chatAsked CanonicalJson.canonical plainEnv none (greeting maxTokens) := by
  refine ⟨_, (mem_chatAsked _ _ _ _).mpr ⟨_, rfl, rfl⟩⟩

/-- A body with the largest limit that an `int` holds. -/
def endlessBody : Json :=
  .object [("max_tokens", .unsigned 2147483647), ("prompt", .string "Hi")]

theorem endless_asked :
    (2147483647, "Hi") ∈ completionsAsked CanonicalJson.canonical none true 2048
      (bytes (CanonicalJson.canonical.dump endlessBody)) := by
  have hparse := @CanonicalJson.canonical_reads endlessBody (by decide) (by decide)
  have hcanon : endlessBody.canon = endlessBody := rfl
  rw [hcanon] at hparse
  exact (mem_completionsAsked _ _).mpr
    ⟨_, "Hi", 2147483647, false, hparse, rfl, rfl, rfl, rfl, rfl, rfl, rfl⟩

/-- No preset with limits lets such a limit pass. -/
theorem endless_violates {preset : String} (h : preset ≠ "off") (ctxTokens : Int) :
    checkRequest (constraintsForPreset preset) 2147483647 ctxTokens ≠ none := by
  intro hnone
  obtain ⟨hpos, hlimit, -⟩ := limits_of_preset h
  have hwithin := (checkRequest_eq_none.mp hnone).1
  unfold Within at hwithin
  omega

theorem chatGuarded_iff (preset : String) :
    ChatGuarded (constraintsForPreset preset) ↔ preset = "off" := by
  constructor
  · intro h
    by_contra hpreset
    obtain ⟨prompt, hprompt⟩ := greeting_asked 2147483647
    have hguarded := h CanonicalJson.canonical plainEnv none (greeting 2147483647) none
    exact endless_violates hpreset _
      ((chatAlone_guarded_iff _ _ _ _ _).mp hguarded _ hprompt)
  · intro h
    subst h
    exact fun _ _ _ _ _ => guarded_off

theorem completionsGuarded_iff (preset : String) :
    CompletionsGuarded (constraintsForPreset preset) ↔ preset = "off" := by
  constructor
  · intro h
    by_contra hpreset
    have hguarded := h CanonicalJson.canonical plainEnv none true 2048 []
      (bytes (CanonicalJson.canonical.dump endlessBody)) none
    exact endless_violates hpreset _
      ((completionsAlone_guarded_iff _ _ _ _ _ _ _ _).mp hguarded _ endless_asked)
  · intro h
    subst h
    exact fun _ _ _ _ _ _ _ _ => guarded_off

/-- The requests of a route are kept within the constraints of a preset exactly when it has
    none. On a server without plugins a single request is handled as the constraints demand
    exactly when it asks for nothing that they forbid; with plugins, it is so if neither the
    limits of the client and of the summaries nor any prompt is beyond them. -/
theorem guardrails (preset : String) (text : JsonText) (env : ChatEnv)
    (bridge : Option PluginBridge) (req : ChatRequest) (ctx : Option Context) (loaded : Bool)
    (cfgMaxTokens : Int32) (requestId : Bytes) (raw : List UInt8) :
    let c := constraintsForPreset preset
    (ChatGuarded c ↔ preset = "off") ∧ (CompletionsGuarded c ↔ preset = "off") ∧
    (Guarded env c (chatAsked text env none req)
        (handleChatCompletions text env none req ⟨ctx, []⟩) ↔
      ∀ a ∈ chatAsked text env none req, checkRequest c a.1 (env.tokenize a.2).length = none) ∧
    (Guarded env c (completionsAsked text none loaded cfgMaxTokens raw)
        (handleCompletions text env none loaded cfgMaxTokens requestId raw ⟨ctx, []⟩) ↔
      ∀ a ∈ completionsAsked text none loaded cfgMaxTokens raw,
        checkRequest c a.1 (env.tokenize a.2).length = none) ∧
    (Within c.maxTokens req.maxTokens.toInt → Within c.maxTokens env.split.summaryTokens.toInt →
      (∀ prompt, Within c.maxCtxTokens (env.tokenize prompt).length) →
      Guarded env c (chatAsked text env bridge req)
        (handleChatCompletions text env bridge req ⟨ctx, []⟩)) ∧
    ((∀ a ∈ completionsAsked text bridge loaded cfgMaxTokens raw, Within c.maxTokens a.1) →
      (∀ prompt, Within c.maxCtxTokens (env.tokenize prompt).length) →
      Guarded env c (completionsAsked text bridge loaded cfgMaxTokens raw)
        (handleCompletions text env bridge loaded cfgMaxTokens requestId raw ⟨ctx, []⟩)) :=
  ⟨chatGuarded_iff preset, completionsGuarded_iff preset, chatAlone_guarded_iff text env req _ ctx,
    completionsAlone_guarded_iff text env _ ctx loaded cfgMaxTokens requestId raw,
    fun hclient hsummary hprompt =>
      chat_guarded_of_within text env bridge req hclient hsummary hprompt ctx,
    fun hclient hprompt =>
      completions_guarded_of_within text env bridge hclient hprompt requestId ctx⟩

/-- One token more than the preset `balanced` allows is generated from. -/
theorem balanced_exceeded :
    ¬ Guarded plainEnv (constraintsForPreset "balanced")
      (chatAsked CanonicalJson.canonical plainEnv none (greeting 4097))
      (handleChatCompletions CanonicalJson.canonical plainEnv none (greeting 4097)
        ⟨none, []⟩) := by
  intro h
  obtain ⟨prompt, hprompt⟩ := greeting_asked 4097
  have hnone := (chatAlone_guarded_iff _ _ _ _ _).mp h _ hprompt
  have hwithin : Within 4096 4097 := (checkRequest_eq_none.mp hnone).1
  unfold Within at hwithin
  omega

end TruellmEngine.Server
