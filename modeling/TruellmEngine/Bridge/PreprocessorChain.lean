/-
  The preprocessor chain: each preprocessor passes, answers or aborts, and may replace the
  messages for those behind it.

  `run_pass`: where the chain passes, its result has the last replacement, or nothing when
  that is the text it began with. `callEngine_pass`: a sub-call goes on with exactly the
  messages that the chain ends with.
-/
import TruellmEngine.Bridge.ToolRegistry
import TruellmEngine.Lib.StableSort
import TruellmEngine.Server.ChatTemplate

namespace TruellmEngine.Bridge

open Lib

inductive Decision where
  | pass
  | respond
  | abort
  deriving DecidableEq

/-- What a preprocessor returns; the texts may be null. -/
structure PreprocResult where
  decision : Decision
  modifiedMessagesJson : Option String := none
  responseText : Option String := none

/-- A registered preprocessor; its function may be null, and may change the context. -/
structure Preprocessor where
  pluginId : String
  priority : Int
  preprocess : Option (String → Option Context → PreprocResult × Option Context)

structure PreprocessResult where
  decision : Decision := .pass
  modifiedMessagesJson : String := ""
  responseText : String := ""

/-- The entries, lower priorities first. -/
structure PreprocessorChain where
  entries : List Preprocessor := []
  sorted : InOrder Preprocessor.priority entries := by exact inOrder_nil Preprocessor.priority

namespace PreprocessorChain

def registerPreprocessor (chain : PreprocessorChain) (prep : Preprocessor) :
    PreprocessorChain where
  entries := addSorted Preprocessor.priority prep chain.entries
  sorted := addSorted_inOrder Preprocessor.priority prep chain.entries

def unregisterPlugin (chain : PreprocessorChain) (pluginId : String) : PreprocessorChain where
  entries := chain.entries.filter fun e => e.pluginId ≠ pluginId
  sorted := chain.sorted.filter _

def hasPreprocessors (chain : PreprocessorChain) : Bool := !chain.entries.isEmpty

/-- The messages behind a preprocessor: only a text that is not empty replaces them. -/
def replaced (raw : PreprocResult) (current : String) : String :=
  let modMsgs := raw.modifiedMessagesJson.getD ""
  if modMsgs = "" then current else modMsgs

/-- The loop over the entries, with the messages so far. -/
def runFrom (messagesJson : String) : List Preprocessor → String → Option Context →
    PreprocessResult × Option Context
  | [], current, ctx =>
    ({ decision := .pass
       modifiedMessagesJson := if current ≠ messagesJson then current else "" }, ctx)
  | entry :: entries, current, ctx =>
    match entry.preprocess with
    | none => runFrom messagesJson entries current ctx
    | some preprocess =>
      let raw := (preprocess current ctx).1
      let ctx := (preprocess current ctx).2
      match raw.decision with
      | .respond =>
        ({ decision := .respond
           modifiedMessagesJson := replaced raw current
           responseText := raw.responseText.getD "" }, ctx)
      | .abort => ({ decision := .abort }, ctx)
      | .pass => runFrom messagesJson entries (replaced raw current) ctx

def run (chain : PreprocessorChain) (messagesJson : String) (ctx : Option Context) :
    PreprocessResult × Option Context :=
  runFrom messagesJson chain.entries messagesJson ctx

/-- The messages behind all entries, when each of them passes. -/
def finalFrom : List Preprocessor → String → Option Context → String
  | [], current, _ => current
  | entry :: entries, current, ctx =>
    match entry.preprocess with
    | none => finalFrom entries current ctx
    | some preprocess =>
      finalFrom entries (replaced (preprocess current ctx).1 current) (preprocess current ctx).2

/-- The messages that the chain ends with. -/
def finalMessages (chain : PreprocessorChain) (messagesJson : String) (ctx : Option Context) :
    String :=
  finalFrom chain.entries messagesJson ctx

theorem runFrom_pass {messagesJson current : String} {entries : List Preprocessor}
    {ctx : Option Context}
    (h : (runFrom messagesJson entries current ctx).1.decision = .pass) :
    (runFrom messagesJson entries current ctx).1.modifiedMessagesJson =
      if finalFrom entries current ctx ≠ messagesJson then finalFrom entries current ctx
      else "" := by
  induction entries generalizing current ctx with
  | nil => rfl
  | cons entry entries ih =>
    obtain ⟨id, priority, _ | preprocess⟩ := entry
    · exact ih h
    · cases hdecision : (preprocess current ctx).1.decision with
      | pass =>
        have hrun : runFrom messagesJson (⟨id, priority, some preprocess⟩ :: entries) current ctx =
            runFrom messagesJson entries (replaced (preprocess current ctx).1 current)
              (preprocess current ctx).2 := by
          simp only [runFrom, hdecision]
        rw [hrun] at h ⊢
        exact ih h
      | respond => simp [runFrom, hdecision] at h
      | abort => simp [runFrom, hdecision] at h

/-- No replacement is empty. -/
theorem finalFrom_ne_empty {current : String} {entries : List Preprocessor}
    {ctx : Option Context} (h : current ≠ "") : finalFrom entries current ctx ≠ "" := by
  induction entries generalizing current ctx with
  | nil => exact h
  | cons entry entries ih =>
    obtain ⟨id, priority, _ | preprocess⟩ := entry
    · exact ih h
    · refine @ih (replaced _ current) _ ?_
      unfold replaced
      dsimp only
      split
      · exact h
      · rename_i hne
        exact hne

/-- Where the chain passes, its result has the messages it ends with, if they are others. -/
theorem run_pass {chain : PreprocessorChain} {messagesJson : String} {ctx : Option Context}
    (h : (chain.run messagesJson ctx).1.decision = .pass) :
    (chain.run messagesJson ctx).1.modifiedMessagesJson =
      if chain.finalMessages messagesJson ctx ≠ messagesJson then
        chain.finalMessages messagesJson ctx
      else "" :=
  runFrom_pass h

theorem entries_of_empty {chain : PreprocessorChain} (h : chain.hasPreprocessors = false) :
    chain.entries = [] := by
  simpa [hasPreprocessors] using h

theorem run_of_empty (chain : PreprocessorChain) (h : chain.hasPreprocessors = false)
    (messagesJson : String) (ctx : Option Context) : chain.run messagesJson ctx = ({}, ctx) := by
  unfold run
  rw [entries_of_empty h]
  simp [runFrom]

theorem finalMessages_of_empty (chain : PreprocessorChain) (h : chain.hasPreprocessors = false)
    (messagesJson : String) (ctx : Option Context) :
    chain.finalMessages messagesJson ctx = messagesJson := by
  unfold finalMessages
  rw [entries_of_empty h]
  rfl

/-- An entry that replaces nothing. -/
def Keeps (entry : Preprocessor) : Prop :=
  ∀ preprocess ∈ entry.preprocess, ∀ current ctx, replaced (preprocess current ctx).1 current =
    current

theorem finalFrom_of_keeps {entries : List Preprocessor} (h : ∀ entry ∈ entries, Keeps entry)
    (current : String) (ctx : Option Context) : finalFrom entries current ctx = current := by
  induction entries generalizing ctx with
  | nil => rfl
  | cons entry entries ih =>
    obtain ⟨hentry, hrest⟩ := List.forall_mem_cons.mp h
    unfold finalFrom
    cases hprep : entry.preprocess with
    | none => exact ih hrest ctx
    | some preprocess =>
      dsimp only
      rw [hentry preprocess hprep]
      exact ih hrest _

/-- A chain whose entries replace nothing ends with the messages it began with. -/
theorem finalMessages_of_keeps {chain : PreprocessorChain}
    (h : ∀ entry ∈ chain.entries, Keeps entry) (messagesJson : String) (ctx : Option Context) :
    chain.finalMessages messagesJson ctx = messagesJson :=
  finalFrom_of_keeps h messagesJson ctx

end PreprocessorChain

/-! ## Sub-calls -/

/-- How a sub-call goes on behind the chain. -/
inductive SubCall where
  | invalid
  | responded (text : String)
  /-- With this prompt. -/
  | generates (prompt : String)

/-- The prompt of a sub-call; what is no array of messages is itself the prompt. -/
def subCallPrompt (text : JsonText) (tmpl effectiveMessages : String) :
    Except TypeError SubCall := do
  let formatted ← Server.applyChatTemplateStr text effectiveMessages tmpl
  return .generates (if formatted = "" then effectiveMessages else formatted)

/-- The messages of `vtable_call_engine`, behind the chain if it is asked for. -/
def callEngine (text : JsonText) (tmpl : String) (chain : PreprocessorChain)
    (runPreprocessors : Bool) (messagesJson : String) (ctx : Option Context) :
    Except TypeError SubCall :=
  if runPreprocessors && chain.hasPreprocessors then
    let pr := (chain.run messagesJson ctx).1
    match pr.decision with
    | .abort => .ok .invalid
    | .respond => .ok (.responded pr.responseText)
    | .pass =>
      subCallPrompt text tmpl
        (if pr.modifiedMessagesJson = "" then messagesJson else pr.modifiedMessagesJson)
  else
    subCallPrompt text tmpl messagesJson

/-- Behind a chain that passes, a sub-call goes on with the messages the chain ends with. -/
theorem callEngine_pass (text : JsonText) (tmpl : String) {chain : PreprocessorChain}
    {messagesJson : String} {ctx : Option Context} (hmessages : messagesJson ≠ "")
    (h : (chain.run messagesJson ctx).1.decision = .pass) :
    callEngine text tmpl chain true messagesJson ctx =
      subCallPrompt text tmpl (chain.finalMessages messagesJson ctx) := by
  have hfinal : chain.finalMessages messagesJson ctx ≠ "" :=
    PreprocessorChain.finalFrom_ne_empty hmessages
  have heffective : (if (chain.run messagesJson ctx).1.modifiedMessagesJson = "" then messagesJson
      else (chain.run messagesJson ctx).1.modifiedMessagesJson) =
        chain.finalMessages messagesJson ctx := by
    rw [PreprocessorChain.run_pass h]
    by_cases hsame : chain.finalMessages messagesJson ctx = messagesJson
    · simp [hsame]
    · simp [hsame, hfinal]
  unfold callEngine
  split
  · dsimp only
    rw [h]
    dsimp only
    rw [heffective]
  · rename_i hnone
    rw [chain.finalMessages_of_empty (by simpa using hnone)]

end TruellmEngine.Bridge
