/-
  `/v1/messages/count_tokens` (`AnthropicRouter::handle_count_tokens`) beside `/v1/messages`. The
  count is that of the translated messages under the template of the configuration.

  `count_tokens_prompt`: for a request with no schemas to be put into it, the engine generates
  from the first prompt of `/v1/messages`. Where the model has no formatter that is the prompt
  counted, so the count is exact. With a formatter the engine gets the formatter's prompt, and
  the count stays that of the template.
-/
import TruellmEngine.Server.MessagesHandler

namespace TruellmEngine.Server

open Lib Bridge
open Lib.Json (value getJson getBoolean)

/-! ## Model -/

inductive CountReply where
  | counted (inputTokens : Int32)
  /-- An error envelope. -/
  | failed (status : Nat) (type message : String)

section

variable (text : JsonText) (env : ChatEnv)

def countedPrompt (areq : Json) : Except TypeError String := do
  let obody ← translateRequest text areq
  applyChatTemplate text (← value getJson obody "messages" (.array [])) (tmpl env)

def handleCountTokens (w : Writing) (raw : List UInt8) : CountReply :=
  match text.parse raw with
  | none => .failed 400 "invalid_request_error" "Invalid JSON body"
  | some areq =>
    match countedPrompt text env areq with
    | .ok prompt => .counted (Int32.ofNat (env.tokenize prompt).length)
    | .error e => .failed 500 "api_error" ("Internal error: " ++ w.what (.json e))

end

/-! ## The prompt of a run -/

section

variable {text : JsonText} {env : ChatEnv} {bridge : Option PluginBridge} {req : ChatRequest}

/-- The tokens are those of the first prompt. -/
def FromFirst (text : JsonText) (env : ChatEnv) (req : ChatRequest) (greq : GenerateRequest) :
    Prop :=
  ∃ applied, firstPrompt text env req req.messages = .ok applied ∧
    greq.tokens = env.tokenize applied.prompt

theorem firstRequest_fromFirst {G : GenerateRequest → Prop} :
    Ensures G (firstRequest text env req req.messages) (FromFirst text env req) := by
  unfold firstRequest
  apply ensures_bind (ensures_typed fun _ h => h)
  intro applied happlied
  apply ensures_bind (ensures_tokenize env _)
  intro tokens htokens
  exact ensures_pure ⟨applied, happlied, htokens⟩

theorem runPreprocessors_ensures {G : GenerateRequest → Prop} :
    Ensures G (runPreprocessors text bridge req) fun _ => True := by
  unfold runPreprocessors
  split
  · exact ensures_pure trivial
  · apply ensures_ite
    · apply ensures_bind ensures_get
      intro _ _
      exact ensures_bind (ensures_setCtx _) fun _ _ => ensures_pure trivial
    · exact ensures_pure trivial

/-- Where there are no schemas, none are put in. -/
theorem injectSchemas_ensures_none {G : GenerateRequest → Prop}
    (h : allSchemas text bridge req = .ok []) (messages : Json) (greq : GenerateRequest) :
    Ensures G (injectSchemas text env bridge req messages greq) fun injected =>
      injected = none := by
  unfold injectSchemas
  rw [h]
  apply ensures_bind (ensures_any _)
  intro _ _
  apply ensures_bind (ensures_typed fun _ h => h)
  intro schemas hschemas
  cases hschemas
  exact ensures_pure rfl

/-- Without schemas there is nothing to revert. -/
theorem revertOverflow_ensures_same {G : GenerateRequest → Prop} (messages : Json)
    (greq : GenerateRequest) :
    Ensures G (revertOverflow text env bridge req messages none greq) fun current =>
      current.2 = greq := by
  unfold revertOverflow
  apply ensures_ite
  · refine ensures_bind (ensures_modify ?_) ?_
    · exact fun _ => rfl
    intro _ _
    exact ensures_pure rfl
  · exact ensures_pure rfl

theorem claimedBy_ensures {G : GenerateRequest → Prop} (messages : Json)
    (greq : GenerateRequest) :
    Ensures G (claimedBy text env bridge req messages greq) fun _ => True := by
  unfold claimedBy
  split
  · exact ensures_pure trivial
  · apply ensures_ite (ensures_pure trivial)
    apply ensures_bind (ensures_any _)
    intro _ _
    apply ensures_bind (dispatchGenerator_ensures _ _)
    intro _ _
    apply ensures_ite (ensures_pure trivial)
    apply ensures_ite (ensures_pure trivial)
    apply ensures_ite
    · exact ensures_bind (ensures_tokenize env _) fun _ _ => ensures_pure trivial
    · exact ensures_pure trivial

theorem onePass_ensures {G : GenerateRequest → Prop} {greq : GenerateRequest} (h : G greq) :
    Ensures G (onePass text env greq) fun _ => True := by
  unfold onePass
  apply ensures_ite (ensures_pure trivial)
  apply ensures_bind (ensures_generate env h)
  intro _ _
  apply ensures_ite (ensures_pure trivial)
  exact ensures_bind (ensures_any _) fun _ _ => ensures_pure trivial

/-- Whatever the preprocessors and the generators do. -/
theorem handleDelegated_fromFirst (h : allSchemas text bridge req = .ok []) :
    Ensures (FromFirst text env req) (handleDelegated text env bridge req) fun _ => True := by
  unfold handleDelegated
  apply ensures_bind firstRequest_fromFirst
  intro greq hgreq
  apply ensures_bind runPreprocessors_ensures
  intro pr _
  cases pr.decision with
  | respond => exact ensures_pure trivial
  | abort => exact ensures_pure trivial
  | pass =>
    apply ensures_bind (injectSchemas_ensures_none h _ _)
    rintro injected rfl
    apply ensures_bind (revertOverflow_ensures_same _ _)
    rintro ⟨messages, current⟩ rfl
    apply ensures_bind (claimedBy_ensures _ _)
    intro d? _
    cases d? with
    | none => exact onePass_ensures hgreq
    | some d => exact ensures_pure trivial

theorem readRequest_messages {dflt : ChatRequest} {body : Json}
    (h : readRequest text dflt body = .ok req) :
    value getJson body "messages" (.array []) = .ok req.messages := by
  obtain ⟨messages, hmessages, h⟩ := bind_eq_ok.mp h
  obtain ⟨maxTokens, -, h⟩ := bind_eq_ok.mp h
  obtain ⟨-, -, h⟩ := bind_eq_ok.mp h
  obtain ⟨stream, -, h⟩ := bind_eq_ok.mp h
  obtain ⟨-, -, h⟩ := bind_eq_ok.mp h
  obtain ⟨tools, -, h⟩ := bind_eq_ok.mp h
  cases h
  exact hmessages

theorem firstPrompt_template (hnone : env.chatFormat = none) {messages : Json}
    {applied : ChatApplied} (h : firstPrompt text env req messages = .ok applied) :
    applyChatTemplate text messages (tmpl env) = .ok applied.prompt := by
  unfold firstPrompt at h
  rw [hnone] at h
  obtain ⟨prompt, hprompt, h⟩ := bind_eq_ok.mp h
  cases h
  exact hprompt

theorem firstPrompt_formatted {format : Json → String → Option ChatApplied} {messages : Json}
    {applied a : ChatApplied} (hformat : env.chatFormat = some format)
    (ha : format messages req.responseSchema = some a) (hprompt : a.prompt ≠ "")
    (h : firstPrompt text env req messages = .ok applied) : applied = a := by
  unfold firstPrompt at h
  rw [hformat, Option.bind_some, ha] at h
  dsimp only at h
  rw [if_neg hprompt] at h
  exact (Except.ok.inj h).symm

/-! ## The count -/

/-- Whatever formatter the model has. -/
theorem handleCountTokens_template {w : Writing} {dflt : ChatRequest} {raw : List UInt8}
    {areq obody : Json} (hareq : text.parse raw = some areq)
    (htranslated : translateRequest text areq = .ok obody)
    (hreq : readRequest text dflt obody = .ok req) {prompt : String}
    (hprompt : applyChatTemplate text req.messages (tmpl env) = .ok prompt) :
    handleCountTokens text env w raw = .counted (Int32.ofNat (env.tokenize prompt).length) := by
  have hcounted : countedPrompt text env areq = .ok prompt := by
    unfold countedPrompt
    rw [htranslated]
    show (value getJson obody "messages" (.array []) >>= fun messages =>
      applyChatTemplate text messages (tmpl env)) = _
    rw [readRequest_messages hreq]
    exact hprompt
  unfold handleCountTokens
  rw [hareq]
  dsimp only
  rw [hcounted]

/-- What the count of a body says of a request that the engine generates from. -/
structure CountsPrompt (text : JsonText) (env : ChatEnv) (w : Writing) (raw : List UInt8)
    (req : ChatRequest) (greq : GenerateRequest) : Prop where
  exact : env.chatFormat = none →
    handleCountTokens text env w raw = .counted (Int32.ofNat greq.tokens.length)
  /-- The prompt of a formatter is not the one that is counted. -/
  formatted : ∀ format a, env.chatFormat = some format →
    format req.messages req.responseSchema = some a → a.prompt ≠ "" →
      greq.tokens = env.tokenize a.prompt ∧
        ∀ legacy, applyChatTemplate text req.messages (tmpl env) = .ok legacy →
          handleCountTokens text env w raw =
            .counted (Int32.ofNat (env.tokenize legacy).length)

theorem count_tokens_prompt {w : Writing} {dflt : ChatRequest} {raw : List UInt8}
    {areq obody : Json} (hareq : text.parse raw = some areq)
    (htranslated : translateRequest text areq = .ok obody)
    (hreq : readRequest text dflt obody = .ok req) (hschemas : allSchemas text bridge req = .ok [])
    (ctx : Option Context) (greq : GenerateRequest)
    (hgreq : .generates greq ∈ (handleMessages text env bridge dflt w raw { ctx := ctx }).2.uses) :
    CountsPrompt text env w raw req greq := by
  cases hstream : value getBoolean areq "stream" false with
  | error e =>
    have hthrown : (handleMessages text env bridge dflt w raw { ctx := ctx }).2 =
        { ctx := ctx } := by
      unfold handleMessages
      rw [hareq]
      dsimp only
      rw [hstream]
    rw [hthrown] at hgreq
    cases hgreq
  | ok wantStream =>
    rw [handleMessages_run hareq hstream htranslated hreq] at hgreq
    have hstart : Only (FromFirst text env req) { ctx := ctx } := by
      intro _ h
      cases h
    obtain ⟨applied, happlied, htokens⟩ :=
      (handleDelegated_fromFirst hschemas { ctx := ctx } hstart).1 greq hgreq
    constructor
    · intro hnone
      rw [htokens]
      exact handleCountTokens_template hareq htranslated hreq
        (firstPrompt_template hnone happlied)
    · intro format a hformat ha hprompt
      refine ⟨?_, fun legacy => handleCountTokens_template hareq htranslated hreq⟩
      rw [htokens, firstPrompt_formatted hformat ha hprompt happlied]

end

/-- The same engine for a model with a formatter, which says less than the template. -/
def formattedEnv : ChatEnv :=
  { noonEnv with chatFormat := some fun _ _ => some { prompt := "Hi" } }

/-- A run that generates names a request. -/
theorem exists_generates {text : JsonText} {env : ChatEnv} {bridge : Option PluginBridge}
    {req : ChatRequest} {dflt : ChatRequest} {w : Writing} {raw : List UInt8} {areq obody : Json}
    {wantStream : Bool} (hareq : text.parse raw = some areq)
    (hstream : value getBoolean areq "stream" false = .ok wantStream)
    (htranslated : translateRequest text areq = .ok obody)
    (hreq : readRequest text dflt obody = .ok req) {p : Progress}
    (hasked : 0 < (handleDelegated text env bridge req p).2.generations) :
    ∃ greq, .generates greq ∈ (handleMessages text env bridge dflt w raw p).2.uses := by
  obtain ⟨u, hu, hgeneration⟩ := List.countP_pos_iff.mp hasked
  cases u with
  | generates greq =>
    refine ⟨greq, ?_⟩
    rw [handleMessages_run hareq hstream htranslated hreq]
    exact hu
  | tokenizes | asks | dispatches => cases hgeneration

theorem plainQuestion_asked : ∃ obody req legacy,
    translateRequest CanonicalJson.canonical plainQuestion = .ok obody ∧
      readRequest CanonicalJson.canonical { messages := .null } obody = .ok req ∧
        allSchemas CanonicalJson.canonical none req = .ok [] ∧
          applyChatTemplate CanonicalJson.canonical req.messages (tmpl formattedEnv) =
              .ok legacy ∧ (formattedEnv.tokenize legacy).length = 52 ∧
            0 < (handleDelegated CanonicalJson.canonical noonEnv none req
              { ctx := none }).2.generations ∧
            0 < (handleDelegated CanonicalJson.canonical formattedEnv none req
              { ctx := none }).2.generations := by
  refine ⟨_, _, _, rfl, rfl, rfl, rfl, ?_, ?_, ?_⟩
  · decide +kernel
  · decide +kernel
  · decide +kernel

/-- Without a formatter the count is that of the request; with one the request is shorter. -/
theorem count_tokens_noon :
    (∃ greq : GenerateRequest,
      .generates greq ∈ (handleMessages CanonicalJson.canonical noonEnv none
        { messages := .null } plainWriting
        (bytes (CanonicalJson.canonical.dump plainQuestion)) { ctx := none }).2.uses ∧
      handleCountTokens CanonicalJson.canonical noonEnv plainWriting
        (bytes (CanonicalJson.canonical.dump plainQuestion)) =
          .counted (Int32.ofNat greq.tokens.length)) ∧
    ∃ greq : GenerateRequest,
      .generates greq ∈ (handleMessages CanonicalJson.canonical formattedEnv none
        { messages := .null } plainWriting
        (bytes (CanonicalJson.canonical.dump plainQuestion)) { ctx := none }).2.uses ∧
      greq.tokens = formattedEnv.tokenize "Hi" ∧
      handleCountTokens CanonicalJson.canonical formattedEnv plainWriting
        (bytes (CanonicalJson.canonical.dump plainQuestion)) = .counted 52 := by
  obtain ⟨obody, req, legacy, htranslated, hreq, hschemas, hlegacy, hlength, hasked, hasked'⟩ :=
    plainQuestion_asked
  have hparse := @CanonicalJson.canonical_reads plainQuestion (by decide) (by decide)
  have hcanon : plainQuestion.canon = plainQuestion := rfl
  rw [hcanon] at hparse
  have hstream : value getBoolean plainQuestion "stream" false = .ok true := rfl
  constructor
  · obtain ⟨greq, hgreq⟩ := exists_generates (w := plainWriting) hparse hstream htranslated hreq
      hasked
    exact ⟨greq, hgreq,
      (count_tokens_prompt hparse htranslated hreq hschemas none greq hgreq).exact rfl⟩
  · obtain ⟨greq, hgreq⟩ := exists_generates (w := plainWriting) hparse hstream htranslated hreq
      hasked'
    obtain ⟨htokens, hcount⟩ := (count_tokens_prompt hparse htranslated hreq hschemas none greq
      hgreq).formatted _ _ rfl rfl (by decide)
    refine ⟨greq, hgreq, htokens, ?_⟩
    rw [hcount legacy hlegacy, hlength]
    rfl

end TruellmEngine.Server
