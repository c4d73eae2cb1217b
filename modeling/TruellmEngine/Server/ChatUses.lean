/-
  The handler of chat completions only adds to what it has used: one rule for each way to
  compose computations, and with these one lemma for each part of the handler, up to all
  that follows the first prompt (`goOn_appends`).
-/
import TruellmEngine.Server.ChatHandler

namespace TruellmEngine.Server

open Lib Bridge

/-! ## What a computation adds -/

section Appends

variable {α β : Type}

theorem bind_run (x : ChatM α) (f : α → ChatM β) (p : Progress) :
    (x >>= f) p = match x p with
      | (.ok a, q) => f a q
      | (.error e, q) => (.error e, q) := by
  change (ExceptT.bindCont f (x p).1) (x p).2 = _
  obtain ⟨r, q⟩ := x p
  cases r with
  | ok a => rfl
  | error e => rfl

/-- What was used stays in front. -/
def Appends (x : ChatM α) : Prop := ∀ p : Progress, p.uses <+: (x p).2.uses

theorem appends_pure (a : α) : Appends (pure a) := fun _ => List.prefix_rfl

theorem appends_throw (e : Thrown) : Appends (throw e : ChatM α) := fun _ => List.prefix_rfl

theorem appends_get : Appends (get : ChatM Progress) := fun _ => List.prefix_rfl

theorem appends_typed (x : Except TypeError α) : Appends (typed x) := by
  cases x with
  | ok a => exact appends_pure a
  | error e => exact appends_throw _

theorem appends_note (u : Use) : Appends (note u) := fun p => List.prefix_append p.uses [u]

theorem appends_modify {f : Progress → Progress} (h : ∀ p, (f p).uses = p.uses) :
    Appends (modify f : ChatM Unit) := by
  intro p
  change p.uses <+: (f p).uses
  exact (h p).symm ▸ List.prefix_rfl

theorem appends_setCtx (ctx : Option Context) : Appends (setCtx ctx) :=
  appends_modify fun _ => rfl

theorem appends_bind {x : ChatM α} {f : α → ChatM β} (hx : Appends x) (hf : ∀ a, Appends (f a)) :
    Appends (x >>= f) := by
  intro p
  have hstep := hx p
  rw [bind_run]
  generalize x p = y at hstep
  obtain ⟨r, q⟩ := y
  cases r with
  | ok a => exact hstep.trans (hf a q)
  | error e => exact hstep

theorem appends_ite {c : Prop} [Decidable c] {x y : ChatM α} (hx : Appends x) (hy : Appends y) :
    Appends (if c then x else y) := by
  split
  · exact hx
  · exact hy

theorem appends_mapM {f : α → ChatM β} (hf : ∀ a, Appends (f a)) (xs : List α) :
    Appends (xs.mapM f) := by
  induction xs with
  | nil => exact appends_pure []
  | cons a xs ih =>
    rw [List.mapM_cons]
    exact appends_bind (hf a) fun _ => appends_bind ih fun _ => appends_pure _

theorem appends_foldlM {f : β → α → ChatM β} (hf : ∀ b a, Appends (f b a)) (xs : List α) (b : β) :
    Appends (xs.foldlM f b) := by
  induction xs generalizing b with
  | nil => exact appends_pure b
  | cons a xs ih =>
    rw [List.foldlM_cons]
    exact appends_bind (hf b a) ih

end Appends

section

variable (text : JsonText) (env : ChatEnv) (bridge : Option PluginBridge) (req : ChatRequest)

theorem tokenize_appends (prompt : String) : Appends (tokenize env prompt) :=
  appends_bind (appends_note _) fun _ => appends_pure _

theorem generate_appends (greq : GenerateRequest) : Appends (generate env greq) :=
  appends_bind (appends_note _) fun _ => appends_bind appends_get fun _ => appends_pure _

theorem render_appends (messages : Json) : Appends (render text env messages) := by
  unfold render
  split
  · exact appends_typed _
  · refine appends_bind (appends_typed _) ?_
    intro _
    split
    · exact appends_pure _
    · exact appends_typed _

theorem injectSchemas_appends (messages : Json) (greq : GenerateRequest) :
    Appends (injectSchemas text env bridge req messages greq) := by
  unfold injectSchemas
  refine appends_bind (appends_typed _) ?_
  intro _
  refine appends_bind (appends_typed _) ?_
  intro _
  refine appends_ite (appends_pure _) ?_
  refine appends_bind (appends_typed _) ?_
  intro _
  refine appends_bind (render_appends text env _) ?_
  intro _
  exact appends_bind (tokenize_appends env _) fun _ => appends_pure _

theorem revertOverflow_appends (messages : Json) (injected : Option (Json × GenerateRequest))
    (greq : GenerateRequest) :
    Appends (revertOverflow text env bridge req messages injected greq) := by
  unfold revertOverflow
  refine appends_ite ?_ (appends_pure _)
  refine appends_bind (appends_modify fun _ => rfl) ?_
  intro _
  refine appends_ite ?_ (appends_pure _)
  refine appends_bind (render_appends text env _) ?_
  intro _
  exact appends_bind (tokenize_appends env _) fun _ => appends_pure _

theorem dispatchGenerator_appends (generators : GeneratorRegistry) (messagesJson : String) :
    Appends (dispatchGenerator generators messagesJson) :=
  appends_bind (appends_note _) fun _ => appends_bind appends_get fun _ =>
    appends_bind (appends_setCtx _) fun _ => appends_pure _

theorem tryGenerators_appends (messages : Json) :
    Appends (tryGenerators text env bridge req messages) := by
  unfold tryGenerators
  split
  · exact appends_pure _
  · refine appends_ite (appends_pure _) (appends_bind (appends_typed _) ?_)
    intro _
    refine appends_ite ?_ ?_
    · refine appends_bind (appends_note _) ?_
      intro _
      refine appends_bind appends_get ?_
      intro _
      refine appends_bind (appends_setCtx _) ?_
      intro _
      refine appends_ite (appends_pure _) ?_
      exact appends_bind (dispatchGenerator_appends _ _) fun _ => appends_pure _
    · refine appends_bind (dispatchGenerator_appends _ _) ?_
      intro _
      refine appends_ite (appends_pure _) (appends_ite (appends_pure _) ?_)
      refine appends_ite ?_ (appends_pure _)
      exact appends_bind (tokenize_appends env _) fun _ => appends_pure _

theorem summarizeChunk_appends (n : Nat) (chunk : String × Nat) :
    Appends (summarizeChunk text env n chunk) := by
  unfold summarizeChunk
  refine appends_bind (appends_typed _) ?_
  intro _
  refine appends_bind (tokenize_appends env _) ?_
  intro _
  refine appends_ite (appends_pure _) ?_
  refine appends_bind (generate_appends env _) ?_
  intro _
  exact appends_ite (appends_pure _) (appends_pure _)

theorem splitMessage_appends (messages : List Json) (m : Json) :
    Appends (splitMessage text env messages m) := by
  unfold splitMessage
  refine appends_bind (appends_typed _) ?_
  intro _
  refine appends_ite (appends_pure _) (appends_bind (appends_typed _) ?_)
  intro _
  refine appends_bind (tokenize_appends env _) ?_
  intro _
  refine appends_ite (appends_pure _) (appends_ite (appends_pure _) ?_)
  split
  · exact appends_throw _
  · refine appends_bind (appends_typed _) ?_
    intro _
    refine appends_bind ?_ fun _ => appends_pure _
    exact appends_bind (appends_mapM (summarizeChunk_appends text env _) _) fun _ =>
      appends_pure _

theorem toolRoundMessages_appends (tools : ToolRegistry) (toolRound : Nat)
    (result : GenerateResult) (toolCalls : List Json) (messages : Json) :
    Appends (toolRoundMessages text env tools toolRound result toolCalls messages) := by
  have hcall : ∀ messages call, Appends (runToolCall text tools toolRound messages call) := by
    intro messages call
    unfold runToolCall
    refine appends_bind (appends_typed _) ?_
    intro _
    refine appends_bind (appends_typed _) ?_
    intro _
    refine appends_bind (appends_typed _) ?_
    intro _
    refine appends_bind (appends_typed _) ?_
    intro _
    refine appends_bind appends_get ?_
    intro _
    exact appends_bind (appends_setCtx _) fun _ => appends_typed _
  unfold toolRoundMessages
  refine appends_bind (appends_typed _) ?_
  intro _
  refine appends_bind (appends_foldlM hcall _ _) ?_
  intro _
  refine appends_bind (appends_typed _) ?_
  intro _
  unfold splitContext
  refine appends_ite ?_ (appends_pure _)
  exact appends_bind (appends_mapM (splitMessage_appends text env _) _) fun _ => appends_pure _

theorem toolLoop_appends (rounds toolRound : Nat) (result : GenerateResult) (messages : Json)
    (greq : GenerateRequest) :
    Appends (toolLoop text env bridge req rounds toolRound result messages greq) := by
  induction rounds generalizing toolRound result messages greq with
  | zero => exact appends_pure _
  | succ rounds ih =>
    unfold toolLoop
    refine appends_bind (generate_appends env _) ?_
    intro _
    refine appends_ite (appends_pure _) (appends_bind (appends_typed _) ?_)
    intro _
    refine appends_ite (appends_pure _) (appends_ite ?_ ?_)
    · exact appends_bind (appends_typed _) fun _ => appends_pure _
    split
    · exact appends_pure _
    · refine appends_ite (appends_pure _) ?_
      refine appends_bind (toolRoundMessages_appends text env _ _ _ _ _) ?_
      intro _
      refine appends_bind (render_appends text env _) ?_
      intro _
      refine appends_bind (tokenize_appends env _) ?_
      intro _
      refine appends_ite ?_ (ih _ _ _ _)
      refine appends_bind (appends_typed _) ?_
      intro _
      refine appends_bind (render_appends text env _) ?_
      intro _
      refine appends_bind (tokenize_appends env _) ?_
      intro _
      exact appends_bind (generate_appends env _) fun _ => appends_pure _

theorem goOn_appends (messages : Json) (greq : GenerateRequest) :
    Appends (goOn text env bridge req messages greq) := by
  unfold goOn
  refine appends_bind (injectSchemas_appends text env bridge req _ _) ?_
  intro _
  refine appends_bind (revertOverflow_appends text env bridge req _ _ _) ?_
  intro _
  refine appends_bind (tryGenerators_appends text env bridge req _) ?_
  intro _
  split
  · exact appends_pure _
  · refine appends_ite ?_ (toolLoop_appends text env bridge req _ _ _ _ _)
    exact appends_bind (generate_appends env _) fun _ => appends_pure _

end

end TruellmEngine.Server
