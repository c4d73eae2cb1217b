/-
  How tools come into the registry and leave it: `register_provider` for a native plugin,
  `register_remote` for what a sidecar announces, and the two ways to unregister.

  A text that is not UTF-8, or a field of an announce with the wrong type, ends the process,
  so no registry follows it.
-/
import TruellmEngine.Bridge.SidecarTools
import TruellmEngine.Bridge.ToolRegistry

namespace TruellmEngine.Bridge

open Lib Json

/-- `truellm_tool_def_t`; a null pointer is `none`. -/
structure ToolDef where
  name : Option String
  description : Option String := none
  parametersJson : Option String := none

/-- `truellm_tool_provider_t`. `tools` is what `get_tools` gives; `callTool` is the plugin's
    code, by the name of the tool. -/
structure ToolProvider where
  pluginId : Option String
  tools : Option (List ToolDef)
  callTool : String → String → Option Context → ToolCallResult × Option Context

def ToolDef.parameters (text : JsonText) (td : ToolDef) : Json :=
  match td.parametersJson with
  | some params => (text.parse (bytes params)).getD (.object [])
  | none => .object []

/-- The entry of a definition; there is none without a name. -/
def ToolDef.entry (text : JsonText) (p : ToolProvider) (pluginId : String) (td : ToolDef) :
    Except TypeError (Option Tool) :=
  match td.name with
  | none => .ok none
  | some name => do
    let obj := schemaObject (pluginId ++ "." ++ name) (td.description.getD "") (td.parameters text)
    let schemaJson ← text.dumps obj
    return some {
      pluginId := pluginId
      toolName := name
      schemaJson := schemaJson
      run := p.callTool name }

/-- The code of the sidecars, by client and by the name a call is sent under. -/
abbrev SidecarCode :=
  Option Nat → String → String → Option Context → ToolCallResult × Option Context

def RemoteEntry.tool (code : SidecarCode) (e : RemoteEntry) : Tool where
  pluginId := e.pluginId
  toolName := e.toolName
  schemaJson := e.schemaJson
  run := code e.client e.qname

namespace ToolRegistry

def registerProvider (text : JsonText) (r : ToolRegistry) (p : ToolProvider) :
    Except TypeError ToolRegistry :=
  match p.pluginId, p.tools with
  | some pluginId, some tools => do
    let entries ← tools.mapM (ToolDef.entry text p pluginId)
    return { r with entries := r.entries ++ entries.filterMap id }
  | _, _ => .ok r

/-- `register_remote` of all that a session announces. -/
def registerAnnounced (code : SidecarCode) (r : ToolRegistry) (client : Option Nat)
    (plugins : List LoadedPlugin) : ToolRegistry :=
  { r with
    remoteEntries := r.remoteEntries ++
      (announcedEntries client plugins).map (RemoteEntry.tool code) }

def unregisterPlugin (r : ToolRegistry) (pluginId : String) : ToolRegistry :=
  { r with entries := r.entries.filter fun t => t.pluginId ≠ pluginId }

def unregisterRemotePlugin (r : ToolRegistry) (pluginId : String) : ToolRegistry :=
  { r with remoteEntries := r.remoteEntries.filter fun t => t.pluginId ≠ pluginId }

inductive Move where
  | register (p : ToolProvider)
  | announce (client : Option Nat) (message : Json)
  | unregister (pluginId : String)
  | unregisterRemote (pluginId : String)

def step (text : JsonText) (code : SidecarCode) (r : ToolRegistry) : Move → Option ToolRegistry
  | .register p => (r.registerProvider text p).toOption
  | .announce client message =>
    (onSidecarAnnounce text message).toOption.map (r.registerAnnounced code client)
  | .unregister pluginId => some (r.unregisterPlugin pluginId)
  | .unregisterRemote pluginId => some (r.unregisterRemotePlugin pluginId)

/-- All tools, in the order of their schemas. -/
def tools (r : ToolRegistry) : List Tool := r.entries ++ r.remoteEntries

variable {r : ToolRegistry} {q : String}

theorem find?_qualifiedName {ts : List Tool} (hq : '.' ∉ q.toList) :
    (ts.find? fun t => t.qualifiedName = q) = none := by
  refine List.find?_eq_none.mpr ?_
  intro t _ ht
  apply hq
  rw [← of_decide_eq_true ht]
  simp [Tool.qualifiedName]

/-- A name without a dot finds the first tool of this short name. -/
theorem tool?_of_bare (hq : '.' ∉ q.toList) :
    r.tool? q = r.tools.find? fun t => t.toolName = q := by
  unfold tool? resolve tools
  rw [find?_qualifiedName hq, find?_qualifiedName hq, List.find?_append, Option.map_none,
    Option.map_none, Option.none_or, Option.none_or, Option.map_or, Option.map_map,
    Option.map_map]
  have hid : ∀ o : Option Tool, Option.map id o = o := fun o => congrFun Option.map_id o
  exact congrArg₂ Option.or (hid _) (hid _)

end ToolRegistry

end TruellmEngine.Bridge
