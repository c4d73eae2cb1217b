/-
  The preprocessor chain behind any registrations, and the calls of a run.

  `ran_in_order`: the entries are those that are registered, in the order of their priorities and
  then of their registrations. A run calls those with a function in this order, up to the first
  that does not pass, each with the messages that the ones before it leave.
-/
import TruellmEngine.Bridge.PreprocessorChain

namespace TruellmEngine.Bridge

open Lib

namespace PreprocessorChain

/-! ## Registrations -/

inductive Change where
  /-- Of none where the preprocessor or the id of its plugin is null. -/
  | register (prep : Option Preprocessor)
  | unregister (pluginId : String)

def change (chain : PreprocessorChain) : Change → PreprocessorChain
  | .register none => chain
  | .register (some prep) => chain.registerPreprocessor prep
  | .unregister pluginId => chain.unregisterPlugin pluginId

/-- The preprocessors that are registered behind a change, in the order of registration. -/
def registeredThen (preps : List Preprocessor) : Change → List Preprocessor
  | .register none => preps
  | .register (some prep) => preps ++ [prep]
  | .unregister pluginId => preps.filter fun prep => prep.pluginId ≠ pluginId

def registered (changes : List Change) : List Preprocessor := changes.foldl registeredThen []

theorem change_stable {preps : List Preprocessor} {chain : PreprocessorChain}
    (h : Stable Preprocessor.priority preps chain.entries) (c : Change) :
    Stable Preprocessor.priority (registeredThen preps c) (chain.change c).entries := by
  cases c with
  | register prep =>
    cases prep with
    | none => exact h
    | some prep => exact h.add prep
  | unregister pluginId => exact h.filter _

theorem changes_stable (changes : List Change) :
    Stable Preprocessor.priority (registered changes)
      (changes.foldl change ({} : PreprocessorChain)).entries := by
  have hrun : ∀ (preps : List Preprocessor) (chain : PreprocessorChain),
      Stable Preprocessor.priority preps chain.entries →
      Stable Preprocessor.priority (changes.foldl registeredThen preps)
        (changes.foldl change chain).entries := by
    induction changes with
    | nil => exact fun _ _ h => h
    | cons c changes ih => exact fun preps chain h => ih _ _ (change_stable h c)
  exact hrun [] {} stable_nil

/-! ## Calls -/

/-- A call of a preprocessor. -/
structure Call where
  entry : Preprocessor
  messages : String
  ctx : Option Context
  raw : PreprocResult

/-- The loop over the entries, with the calls it makes. -/
def runCallsFrom (messagesJson : String) : List Preprocessor → String → Option Context →
    List Call × (PreprocessResult × Option Context)
  | [], current, ctx =>
    ([], { decision := .pass
           modifiedMessagesJson := if current ≠ messagesJson then current else "" }, ctx)
  | entry :: entries, current, ctx =>
    match entry.preprocess with
    | none => runCallsFrom messagesJson entries current ctx
    | some preprocess =>
      let raw := (preprocess current ctx).1
      let call : Call := ⟨entry, current, ctx, raw⟩
      let ctx := (preprocess current ctx).2
      match raw.decision with
      | .respond =>
        ([call], { decision := .respond
                   modifiedMessagesJson := replaced raw current
                   responseText := raw.responseText.getD "" }, ctx)
      | .abort => ([call], { decision := .abort }, ctx)
      | .pass =>
        let behind := runCallsFrom messagesJson entries (replaced raw current) ctx
        (call :: behind.1, behind.2)

def runCalls (chain : PreprocessorChain) (messagesJson : String) (ctx : Option Context) :
    List Call × (PreprocessResult × Option Context) :=
  runCallsFrom messagesJson chain.entries messagesJson ctx

theorem runCallsFrom_run (messagesJson : String) (entries : List Preprocessor) (current : String)
    (ctx : Option Context) :
    (runCallsFrom messagesJson entries current ctx).2 =
      runFrom messagesJson entries current ctx := by
  induction entries generalizing current ctx with
  | nil => rfl
  | cons entry entries ih =>
    obtain ⟨id, priority, _ | preprocess⟩ := entry
    · exact ih current ctx
    · unfold runCallsFrom runFrom
      dsimp only
      cases (preprocess current ctx).1.decision with
      | pass => exact ih _ _
      | respond => rfl
      | abort => rfl

/-- It is the loop of `run`. -/
theorem runCalls_run (chain : PreprocessorChain) (messagesJson : String) (ctx : Option Context) :
    (chain.runCalls messagesJson ctx).2 = chain.run messagesJson ctx :=
  runCallsFrom_run messagesJson chain.entries messagesJson ctx

/-- The messages behind some calls. -/
def messagesBehind (current : String) (calls : List Call) : String :=
  calls.foldl (fun current call => replaced call.raw current) current

/-- The decision of the last call, if there is one. -/
def lastDecision (calls : List Call) : Decision :=
  (calls.getLast?.map (·.raw.decision)).getD .pass

/-- What a run from `current` does over these entries: its calls, and what it returns to a
    caller that has sent `messagesJson`. -/
structure Ran (messagesJson : String) (entries : List Preprocessor) (current : String)
    (calls : List Call) (result : PreprocessResult) : Prop where
  /-- The entries with a function, in their order; it ends before the last only by a stop. -/
  called : ∃ rest, (entries.filter fun entry => entry.preprocess.isSome) =
    calls.map Call.entry ++ rest ∧ (rest ≠ [] → lastDecision calls ≠ .pass)
  passed : ∀ call ∈ calls.dropLast, call.raw.decision = .pass
  answered : ∀ call ∈ calls, ∃ preprocess ∈ call.entry.preprocess,
    (preprocess call.messages call.ctx).1 = call.raw
  threaded : ∀ before call behind, calls = before ++ call :: behind →
    call.messages = messagesBehind current before
  decision : result.decision = lastDecision calls
  responds : result.decision = .respond →
    result.modifiedMessagesJson = messagesBehind current calls
  passes : result.decision = .pass →
    result.modifiedMessagesJson = if messagesBehind current calls ≠ messagesJson then
      messagesBehind current calls else ""

theorem lastDecision_cons {call : Call} (h : call.raw.decision = .pass) (calls : List Call) :
    lastDecision (call :: calls) = lastDecision calls := by
  cases calls with
  | nil => exact h
  | cons next calls =>
    unfold lastDecision
    rw [List.getLast?_cons_cons]

variable {messagesJson current : String} {entries : List Preprocessor} {entry : Preprocessor}
  {preprocess : String → Option Context → PreprocResult × Option Context} {ctx : Option Context}
  {calls : List Call} {result : PreprocessResult}

theorem Ran.skip (hnone : entry.preprocess = none)
    (h : Ran messagesJson entries current calls result) :
    Ran messagesJson (entry :: entries) current calls result where
  called := by
    rw [List.filter_cons_of_neg (by rw [hnone]; exact Bool.false_ne_true)]
    exact h.called
  passed := h.passed
  answered := h.answered
  threaded := h.threaded
  decision := h.decision
  responds := h.responds
  passes := h.passes

theorem filter_cons_some (hsome : entry.preprocess = some preprocess)
    (entries : List Preprocessor) :
    ((entry :: entries).filter fun entry => entry.preprocess.isSome) =
      entry :: entries.filter fun entry => entry.preprocess.isSome :=
  List.filter_cons_of_pos (by rw [hsome]; rfl)

/-- The first call passes, and the rest of the run is behind it. -/
theorem Ran.cons (hsome : entry.preprocess = some preprocess)
    (hpass : (preprocess current ctx).1.decision = .pass)
    (h : Ran messagesJson entries (replaced (preprocess current ctx).1 current) calls result) :
    Ran messagesJson (entry :: entries) current
      (⟨entry, current, ctx, (preprocess current ctx).1⟩ :: calls) result where
  called := by
    obtain ⟨rest, hrest, hstop⟩ := h.called
    refine ⟨rest, ?_, ?_⟩
    · rw [filter_cons_some hsome, hrest]
      rfl
    · intro hne heq
      refine hstop hne (Eq.trans ?_ heq)
      exact (lastDecision_cons hpass calls).symm
  passed := by
    cases calls with
    | nil => exact fun _ h => absurd h List.not_mem_nil
    | cons next calls => exact List.forall_mem_cons.mpr ⟨hpass, h.passed⟩
  answered := List.forall_mem_cons.mpr ⟨⟨preprocess, hsome, rfl⟩, h.answered⟩
  threaded := by
    intro before c behind heq
    cases before with
    | nil =>
      cases heq
      rfl
    | cons first before =>
      cases heq
      exact h.threaded before c behind rfl
  decision := by
    rw [h.decision]
    exact (lastDecision_cons hpass calls).symm
  responds := h.responds
  passes := h.passes

/-- The first call stops the run. -/
theorem Ran.stop (hsome : entry.preprocess = some preprocess)
    (hstop : (preprocess current ctx).1.decision ≠ .pass)
    (hdecision : result.decision = (preprocess current ctx).1.decision)
    (hresponds : result.decision = .respond →
      result.modifiedMessagesJson = replaced (preprocess current ctx).1 current) :
    Ran messagesJson (entry :: entries) current
      [⟨entry, current, ctx, (preprocess current ctx).1⟩] result where
  called := ⟨_, filter_cons_some hsome entries, fun _ => hstop⟩
  passed := fun _ h => absurd h List.not_mem_nil
  answered := List.forall_mem_singleton.mpr ⟨preprocess, hsome, rfl⟩
  threaded := by
    intro before c behind heq
    cases before with
    | nil =>
      cases heq
      rfl
    | cons first before =>
      have htail : [] = before ++ c :: behind := (List.cons.inj heq).2
      exact absurd htail.symm (List.append_ne_nil_of_right_ne_nil _ (List.cons_ne_nil _ _))
  decision := hdecision
  responds := hresponds
  passes := fun hpass => absurd (hdecision.symm.trans hpass) hstop

theorem runCallsFrom_ran (messagesJson : String) (entries : List Preprocessor) (current : String)
    (ctx : Option Context) :
    Ran messagesJson entries current (runCallsFrom messagesJson entries current ctx).1
      (runCallsFrom messagesJson entries current ctx).2.1 := by
  induction entries generalizing current ctx with
  | nil =>
    exact {
      called := ⟨[], rfl, fun h => absurd rfl h⟩
      passed := fun _ h => absurd h List.not_mem_nil
      answered := fun _ h => absurd h List.not_mem_nil
      threaded := fun before c behind heq =>
        absurd heq.symm (List.append_ne_nil_of_right_ne_nil _ (List.cons_ne_nil _ _))
      decision := rfl
      responds := fun h => nomatch h
      passes := fun _ => rfl }
  | cons entry entries ih =>
    unfold runCallsFrom
    cases hprep : entry.preprocess with
    | none => exact (ih current ctx).skip hprep
    | some preprocess =>
      dsimp only
      cases hdecision : (preprocess current ctx).1.decision with
      | pass => exact .cons hprep hdecision (ih _ _)
      | respond =>
        refine .stop hprep (hdecision.trans_ne ?_) hdecision.symm fun _ => rfl
        exact fun h => Decision.noConfusion h
      | abort =>
        refine .stop hprep (hdecision.trans_ne ?_) hdecision.symm fun h => Decision.noConfusion h
        exact fun h => Decision.noConfusion h

/-- The entries stand in the order of their priorities and registrations, the end of a plugin
    takes away its entries alone, and a run calls those with a function in their order, each
    behind the ones before it, up to the first that stops it. -/
theorem ran_in_order (changes : List Change) (messagesJson : String) (ctx : Option Context) :
    let chain := changes.foldl change ({} : PreprocessorChain)
    Stable Preprocessor.priority (registered changes) chain.entries ∧
      (∀ pluginId, (chain.unregisterPlugin pluginId).entries =
        chain.entries.filter fun entry => entry.pluginId ≠ pluginId) ∧
      (chain.runCalls messagesJson ctx).2 = chain.run messagesJson ctx ∧
      Ran messagesJson chain.entries messagesJson (chain.runCalls messagesJson ctx).1
        (chain.run messagesJson ctx).1 := by
  intro chain
  refine ⟨changes_stable changes, fun _ => rfl, runCalls_run chain messagesJson ctx, ?_⟩
  rw [← runCalls_run]
  exact runCallsFrom_ran messagesJson chain.entries messagesJson ctx

end PreprocessorChain

end TruellmEngine.Bridge
