/-
  The tool registry: native and remote tools, and how a name finds its tool.

  `Dispatch.ran` is the tool that a call has run. `tool?_eq` says what a name can be of the
  tool it finds: its qualified name, or its short name.
-/
import Mathlib.Data.List.Basic

namespace TruellmEngine.Bridge

/-- `truellm_error_t`, by its codes from 0. -/
inductive PluginError where
  | ok
  | invalid
  | notFound
  | internal
  | timeout
  | permission
  | abort
  deriving DecidableEq

def PluginError.code : PluginError → Nat
  | .ok => 0
  | .invalid => 1
  | .notFound => 2
  | .internal => 3
  | .timeout => 4
  | .permission => 5
  | .abort => 6

structure ToolCallResult where
  payload : String := ""
  error : PluginError := .ok
  errorMsg : String := ""

/-- The context of a request, as plugins see it. -/
structure Context where
  metadata : String → Option String := fun _ => none

/-- A tool of a plugin. `run` is the plugin's code, which may change the context. -/
structure Tool where
  pluginId : String
  toolName : String
  schemaJson : String
  run : String → Option Context → ToolCallResult × Option Context

def Tool.qualifiedName (t : Tool) : String := t.pluginId ++ "." ++ t.toolName

structure ToolRegistry where
  entries : List Tool := []
  remoteEntries : List Tool := []

/-- A tool with how to call it. -/
inductive Target where
  | native (t : Tool)
  | remote (t : Tool)

def Target.tool : Target → Tool
  | .native t => t
  | .remote t => t

/-- What a dispatch has run, and its result. -/
structure Dispatch where
  ran : Option Tool
  result : ToolCallResult
  ctx : Option Context

namespace ToolRegistry

/-- The tools under a name: those with this qualified name come before those with this short
    name, and native ones before remote ones. -/
def resolve (r : ToolRegistry) (qualifiedName : String) : Option Target :=
  ((r.entries.find? fun t => t.qualifiedName = qualifiedName).map Target.native).or <|
  ((r.remoteEntries.find? fun t => t.qualifiedName = qualifiedName).map Target.remote).or <|
  ((r.entries.find? fun t => t.toolName = qualifiedName).map Target.native).or <|
  (r.remoteEntries.find? fun t => t.toolName = qualifiedName).map Target.remote

/-- The tool that `dispatch` finds. -/
def tool? (r : ToolRegistry) (qualifiedName : String) : Option Tool :=
  (r.resolve qualifiedName).map Target.tool

def dispatch (r : ToolRegistry) (qualifiedName argsJson : String) (ctx : Option Context) :
    Dispatch :=
  match r.resolve qualifiedName with
  | none =>
    { ran := none
      result := { error := .notFound, errorMsg := "Tool not found: " ++ qualifiedName }
      ctx := ctx }
  | some (.remote t) =>
    { ran := some t
      result := (t.run argsJson ctx).1
      ctx := (t.run argsJson ctx).2 }
  | some (.native t) =>
    let raw := (t.run argsJson ctx).1
    { ran := some t
      result :=
        if raw.error = .ok then { payload := raw.payload }
        else {
          payload := raw.payload
          error := raw.error
          errorMsg := "Tool call failed (err=" ++ raw.error.code.repr ++ ")" }
      ctx := (t.run argsJson ctx).2 }

def hasTools (r : ToolRegistry) : Bool := !r.entries.isEmpty || !r.remoteEntries.isEmpty

/-- The schemas of all tools, as one array. -/
def schemasJson (r : ToolRegistry) : String :=
  "[" ++ ",".intercalate ((r.entries ++ r.remoteEntries).map Tool.schemaJson) ++ "]"

variable {r : ToolRegistry} {q : String} {t : Tool}

theorem dispatch_ran (r : ToolRegistry) (q args : String) (ctx : Option Context) :
    (r.dispatch q args ctx).ran = r.tool? q := by
  unfold dispatch tool?
  cases r.resolve q with
  | none => rfl
  | some target =>
    cases target with
    | native t => rfl
    | remote t => rfl

theorem of_find {p : Tool → Bool} {ts : List Tool} {f : Tool → Target} {target : Target}
    (h : (ts.find? p).map f = some target) : ∃ t, p t = true ∧ f t = target := by
  obtain ⟨t, ht, hf⟩ := Option.map_eq_some_iff.mp h
  exact ⟨t, List.find?_some ht, hf⟩

/-- A name is the qualified or the short name of the tool it finds. -/
theorem tool?_eq (h : r.tool? q = some t) : q = t.qualifiedName ∨ q = t.toolName := by
  obtain ⟨target, htarget, rfl⟩ := Option.map_eq_some_iff.mp h
  unfold resolve at htarget
  rcases Option.or_eq_some_iff.mp htarget with h1 | ⟨-, hrest⟩
  · obtain ⟨t, ht, rfl⟩ := of_find h1
    exact Or.inl (of_decide_eq_true ht).symm
  rcases Option.or_eq_some_iff.mp hrest with h2 | ⟨-, hrest⟩
  · obtain ⟨t, ht, rfl⟩ := of_find h2
    exact Or.inl (of_decide_eq_true ht).symm
  rcases Option.or_eq_some_iff.mp hrest with h3 | ⟨-, h4⟩
  · obtain ⟨t, ht, rfl⟩ := of_find h3
    exact Or.inr (of_decide_eq_true ht).symm
  · obtain ⟨t, ht, rfl⟩ := of_find h4
    exact Or.inr (of_decide_eq_true ht).symm

end ToolRegistry

end TruellmEngine.Bridge
