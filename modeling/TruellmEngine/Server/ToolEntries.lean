/-
  The entries of tool calls in a conversation: the ids of its messages of role `tool`, in
  order. A round of calls adds one for each call (`toolRoundMessages_entries`), and nothing
  that the handler does to the messages behind a round takes one away.

  What it does is to contents only: `toolRoundMessages_map` says what a round adds, for all that
  does not depend on the content of a message.
-/
import Mathlib.Data.List.Forall2
import TruellmEngine.Server.ChatUses

namespace TruellmEngine.Server

open Lib Bridge
open Lib.Json (value valueAt getString getJson)

/-! ## What a computation gives -/

section Gives

variable {α β : Type} {Q : α → Prop}

/-- What it gives, where it completes, has `Q`. -/
def Gives (Q : α → Prop) (x : ChatM α) : Prop := ∀ p a q, x p = (.ok a, q) → Q a

theorem gives_any (x : ChatM α) : Gives (fun _ => True) x := fun _ _ _ _ => trivial

theorem gives_pure {a : α} (h : Q a) : Gives Q (pure a) := by
  intro p b q hb
  cases hb
  exact h

theorem gives_throw (e : Thrown) : Gives Q (throw e) := by
  intro p b q hb
  cases hb

theorem gives_typed {x : Except TypeError α} (h : ∀ a, x = .ok a → Q a) : Gives Q (typed x) := by
  cases x with
  | ok a => exact gives_pure (h a rfl)
  | error e => exact gives_throw _

theorem bind_ok {x : ChatM β} {f : β → ChatM α} {p q : Progress} {a : α}
    (h : (x >>= f) p = (.ok a, q)) : ∃ b q', x p = (.ok b, q') ∧ f b q' = (.ok a, q) := by
  rw [bind_run] at h
  cases hb : x p with
  | mk r q' =>
    rw [hb] at h
    cases r with
    | ok b => exact ⟨b, q', rfl, h⟩
    | error e => cases h

theorem gives_bind {R : β → Prop} {x : ChatM β} {f : β → ChatM α} (hx : Gives R x)
    (hf : ∀ b, R b → Gives Q (f b)) : Gives Q (x >>= f) := by
  intro p a q ha
  obtain ⟨b, q', hb, ha⟩ := bind_ok ha
  exact hf b (hx p b q' hb) q' a q ha

theorem gives_ite {c : Prop} [Decidable c] {x y : ChatM α} (hx : Gives Q x) (hy : Gives Q y) :
    Gives Q (if c then x else y) := by
  split
  · exact hx
  · exact hy

theorem gives_mapM {γ : Type} {f : β → ChatM α} {g : α → γ} {h : β → γ}
    (hf : ∀ b, Gives (fun a => g a = h b) (f b)) (xs : List β) :
    Gives (fun ys => ys.map g = xs.map h) (xs.mapM f) := by
  induction xs with
  | nil => exact gives_pure rfl
  | cons x xs ih =>
    rw [List.mapM_cons]
    refine gives_bind (hf x) fun y hy => gives_bind ih fun ys hys => gives_pure ?_
    rw [List.map_cons, List.map_cons, hy, hys]

theorem gives_foldlM {f : α → β → ChatM α} {P : List β → α → Prop}
    (hf : ∀ done a b, P done a → Gives (P (done ++ [b])) (f a b)) (xs done : List β) {a : α}
    (ha : P done a) : Gives (P (done ++ xs)) (xs.foldlM f a) := by
  induction xs generalizing done a with
  | nil =>
    rw [List.append_nil]
    exact gives_pure ha
  | cons b xs ih =>
    rw [List.foldlM_cons, List.append_cons]
    exact gives_bind (hf done a b ha) fun a' ha' => ih _ ha'

end Gives

/-! ## Entries -/

/-- The id of a message of role `tool`. -/
def toolEntry (m : Json) : Option String :=
  match m.field? "role", m.field? "tool_call_id" with
  | some (.string role), some (.string id) => if role = "tool" then some id else none
  | _, _ => none

/-- The ids of the tool results in a conversation. -/
def toolEntries (messages : Json) : List String := messages.items.filterMap toolEntry

/-- The id of a call of a round. -/
def callId (toolRound : Nat) (call : Json) : String :=
  valueAt getString call "id" ("call_" ++ toString toolRound)

theorem toolEntry_setContent (m v : Json) : toolEntry (m.setField "content" v) = toolEntry m := by
  unfold toolEntry
  rw [Json.field?_setField_ne (by decide), Json.field?_setField_ne (by decide)]

theorem filterMap_toolEntry {ms ms' : List Json} (h : ms'.map toolEntry = ms.map toolEntry) :
    ms'.filterMap toolEntry = ms.filterMap toolEntry := by
  have hid : ∀ xs : List Json, xs.filterMap toolEntry = (xs.map toolEntry).filterMap id := by
    intro xs
    rw [List.filterMap_map]
    rfl
  rw [hid, hid, h]

/-- A message with the result of a call. -/
def resultMessage (callId body : String) : Json :=
  .object [("content", .string body), ("role", .string "tool"), ("tool_call_id", .string callId)]

/-- The turn of a model that calls tools. -/
def callingTurn (result : GenerateResult) (toolCalls : List Json) : Json :=
  .object [("content", .string (ofBytes result.text)), ("role", .string "assistant"),
    ("tool_calls", .array toolCalls)]

/-! ## What does not depend on the content -/

/-- What `f` takes from a message with a tool result is not its content. -/
def IgnoresResults {γ : Type} (f : Json → γ) : Prop :=
  ∀ m v, value getString m "role" "" = .ok "tool" → f (m.setField "content" v) = f m

section

variable {γ : Type} {f : Json → γ}

theorem ignoresResults (hf : ∀ m v, f (m.setField "content" v) = f m) : IgnoresResults f :=
  fun m v _ => hf m v

theorem stripRequired_map (hf : ∀ m v, f (m.setField "content" v) = f m) {ms ms' : List Json}
    (h : stripRequired ms = .ok ms') : ms'.map f = ms.map f := by
  induction ms generalizing ms' with
  | nil =>
    cases h
    rfl
  | cons m ms ih =>
    obtain ⟨role, -, h⟩ := bind_eq_ok.mp h
    split at h
    · obtain ⟨content, -, h⟩ := bind_eq_ok.mp h
      split at h
      · cases h
        rw [List.map_cons, List.map_cons, hf]
      · cases h
        rfl
    · obtain ⟨rest, hrest, h⟩ := bind_eq_ok.mp h
      cases h
      rw [List.map_cons, List.map_cons, ih hrest]

theorem omitLast_map (hf : IgnoresResults f) {ms ms' : List Json}
    (h : omitLast ms = .ok ms') : ms'.map f = ms.map f := by
  induction ms generalizing ms' with
  | nil =>
    cases h
    rfl
  | cons m ms ih =>
    obtain ⟨role, hrole, h⟩ := bind_eq_ok.mp h
    split at h
    · rename_i htool
      rw [htool] at hrole
      cases h
      rw [List.map_cons, List.map_cons, hf m _ hrole]
    · obtain ⟨rest, hrest, h⟩ := bind_eq_ok.mp h
      cases h
      rw [List.map_cons, List.map_cons, ih hrest]

variable (text : JsonText) (env : ChatEnv)

theorem splitMessage_map (hf : IgnoresResults f) (messages : List Json) (m : Json) :
    Gives (fun m' => f m' = f m) (splitMessage text env messages m) := by
  unfold splitMessage
  refine gives_bind (gives_typed (Q := fun role => value getString m "role" "" = .ok role)
    fun role hrole => hrole) fun role hrole => ?_
  split
  · exact gives_pure rfl
  · rename_i htool
    rw [not_not.mp htool] at hrole
    refine gives_bind (gives_any _) fun _ _ => gives_bind (gives_any _) fun _ _ => ?_
    refine gives_ite (gives_pure rfl) (gives_ite (gives_pure (hf m _ hrole)) ?_)
    split
    · exact gives_throw _
    · refine gives_bind (gives_any _) fun _ _ => gives_bind (gives_any _) fun _ _ => ?_
      exact gives_pure (hf m _ hrole)

theorem splitContext_map (hf : IgnoresResults f) (ms : List Json) :
    Gives (fun messages => ∃ ms', messages = .array ms' ∧ ms'.map f = ms.map f)
      (splitContext text env (.array ms)) := by
  unfold splitContext
  refine gives_ite ?_ (gives_pure ⟨ms, rfl, rfl⟩)
  refine gives_bind (gives_mapM (splitMessage_map text env hf ms) ms) fun ms' hms' => ?_
  exact gives_pure ⟨ms', rfl, hms'⟩

end

/-! ## A round -/

section

variable (text : JsonText) (env : ChatEnv)

theorem pushBack_ok {j x j' : Json} (h : j.pushBack x = .ok j') : j' = .array (j.items ++ [x]) := by
  cases j with
  | null =>
    cases h
    rfl
  | array xs =>
    cases h
    rfl
  | _ => cases h

theorem runToolCall_message (tools : ToolRegistry) (toolRound : Nat) (messages call : Json) :
    Gives (fun messages' => ∃ body,
        messages' = .array (messages.items ++ [resultMessage (callId toolRound call) body]))
      (runToolCall text tools toolRound messages call) := by
  unfold runToolCall
  refine gives_bind (gives_any _) fun _ _ => gives_bind (gives_any _) fun _ _ => ?_
  refine gives_bind (gives_any _) fun _ _ => ?_
  refine gives_bind (gives_typed (Q := fun id => id = callId toolRound call) ?_) ?_
  · intro id hid
    unfold callId valueAt
    rw [hid]
  · rintro _ rfl
    refine gives_bind (gives_any _) fun _ _ => gives_bind (gives_any _) fun _ _ => ?_
    exact gives_typed fun messages' h => ⟨_, pushBack_ok h⟩

/-- A round whose calls are run, and the demand taken out. -/
theorem toolRoundMessages_run {tools : ToolRegistry} {toolRound : Nat} {result : GenerateResult}
    {toolCalls stripped : List Json} {messages turned called : Json} {p q : Progress}
    (hturn : messages.pushBack (callingTurn result toolCalls) = .ok turned)
    (hcalls : toolCalls.foldlM (runToolCall text tools toolRound) turned p = (.ok called, q))
    (hstripped : stripRequired called.items = .ok stripped) :
    toolRoundMessages text env tools toolRound result toolCalls messages p =
      splitContext text env (called.setItems stripped) q := by
  unfold callingTurn at hturn
  unfold toolRoundMessages
  rw [bind_run, hturn]
  show ((List.foldlM _ _ _ >>= _) : ChatM Json) _ = _
  rw [bind_run, hcalls]
  dsimp only
  rw [bind_run, hstripped]
  rfl

/-- The messages are results of the calls, one for each. -/
def ResultsOf (toolRound : Nat) (toolCalls results : List Json) : Prop :=
  List.Forall₂ (fun call m => ∃ body, m = resultMessage (callId toolRound call) body)
    toolCalls results

/-- A round adds the turn of the model and the results of its calls, and takes the demand out
    of what there is then. -/
theorem toolRoundMessages_strips {γ : Type} {f : Json → γ} (hf : IgnoresResults f)
    (tools : ToolRegistry) (toolRound : Nat) (result : GenerateResult) (toolCalls : List Json)
    (messages : Json) :
    Gives (fun messages' => ∃ ms stripped results, messages' = .array ms ∧
        stripRequired (messages.items ++ callingTurn result toolCalls :: results) =
          .ok stripped ∧
        ms.map f = stripped.map f ∧ ResultsOf toolRound toolCalls results)
      (toolRoundMessages text env tools toolRound result toolCalls messages) := by
  unfold toolRoundMessages
  refine gives_bind (gives_typed fun messages' h => pushBack_ok h) ?_
  rintro _ rfl
  refine gives_bind (gives_foldlM (P := fun done messages' => ∃ results,
    messages' = .array (messages.items ++ callingTurn result toolCalls :: results) ∧
      ResultsOf toolRound done results) ?_ toolCalls [] ⟨[], rfl, .nil⟩) ?_
  · rintro done _ call ⟨results, rfl, hresults⟩ p messages₂ q h₂
    obtain ⟨body, rfl⟩ := runToolCall_message text tools toolRound _ call _ _ _ h₂
    refine ⟨results ++ [resultMessage (callId toolRound call) body], ?_, ?_⟩
    · show Json.array ((messages.items ++ callingTurn result toolCalls :: results) ++ [_]) = _
      rw [List.append_assoc, List.cons_append]
    · exact List.rel_append hresults (.cons ⟨body, rfl⟩ .nil)
  · rintro _ ⟨results, rfl, hresults⟩
    rw [List.nil_append] at hresults
    refine gives_bind (gives_typed (Q := fun stripped => _ = Except.ok stripped)
      fun _ hstripped => hstripped) fun stripped hstripped => ?_
    intro p messages₂ q h₂
    obtain ⟨ms, hms, hsame⟩ := splitContext_map text env hf stripped _ _ _ h₂
    exact ⟨ms, stripped, results, hms, hstripped, hsame, hresults⟩

theorem toolRoundMessages_map {γ : Type} {f : Json → γ}
    (hf : ∀ m v, f (m.setField "content" v) = f m) (tools : ToolRegistry) (toolRound : Nat)
    (result : GenerateResult) (toolCalls : List Json) (messages : Json) :
    Gives (fun messages' => ∃ ms results, messages' = .array ms ∧
        ms.map f = (messages.items ++ callingTurn result toolCalls :: results).map f ∧
        ResultsOf toolRound toolCalls results)
      (toolRoundMessages text env tools toolRound result toolCalls messages) := by
  intro p messages' q h
  obtain ⟨ms, stripped, results, hms, hstripped, hsame, hresults⟩ :=
    toolRoundMessages_strips text env (ignoresResults hf) _ _ _ _ _ _ _ _ h
  exact ⟨ms, results, hms, hsame.trans (stripRequired_map hf hstripped), hresults⟩

theorem ResultsOf.entries {toolRound : Nat} {toolCalls results : List Json}
    (h : ResultsOf toolRound toolCalls results) :
    results.filterMap toolEntry = toolCalls.map (callId toolRound) := by
  induction h with
  | nil => rfl
  | cons hm _ ih =>
    obtain ⟨body, rfl⟩ := hm
    rw [List.filterMap_cons_some (f := toolEntry) rfl, List.map_cons, ih]

/-- A round adds the entries of its calls. -/
theorem toolRoundMessages_entries (tools : ToolRegistry) (toolRound : Nat)
    (result : GenerateResult) (toolCalls : List Json) (messages : Json) :
    Gives (fun messages' => ∃ ms, messages' = .array ms ∧
        toolEntries messages' = toolEntries messages ++ toolCalls.map (callId toolRound))
      (toolRoundMessages text env tools toolRound result toolCalls messages) := by
  intro p messages' q h
  obtain ⟨ms, results, rfl, hsame, hresults⟩ :=
    toolRoundMessages_map text env toolEntry_setContent _ _ _ _ _ _ _ _ h
  refine ⟨ms, rfl, (filterMap_toolEntry hsame).trans ?_⟩
  rw [List.filterMap_append, List.filterMap_cons_none rfl, hresults.entries]
  rfl

end

end TruellmEngine.Server
