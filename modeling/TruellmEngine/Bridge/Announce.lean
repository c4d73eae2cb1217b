/-
  What a sidecar announces: the plugins of a `plugin_announce` message and the tools that
  `on_sidecar_announce` registers for them.

  `onSidecarAnnounce_isOk`: it completes exactly on the messages with `AnnounceReadable`,
  which looks at the types of the fields it reads.
-/
import TruellmEngine.Lib.Json

namespace TruellmEngine.Bridge

open Lib Json

/-- What `register_remote` gets; calls are sent to the sidecar under `qname`. -/
structure RemoteTool where
  toolName : String
  schemaJson : String
  qname : String

structure LoadedPlugin where
  pluginId : String
  pluginVersion : String
  runtime : String
  state : String := "SERVING"
  tools : List RemoteTool

/-- What is behind the last dot. -/
def bareToolName (qname : String) : String :=
  String.ofList (qname.toList.reverse.takeWhile (· ≠ '.')).reverse

/-- The `parameters` of a tool: some sidecars send them as text. -/
def parametersOf (text : JsonText) (td : Json) : Json :=
  match td.field? "parameters" with
  | none => .object []
  | some (.string s) => (text.parse (bytes s)).getD (.object [])
  | some j => j

def schemaObject (qname description : String) (params : Json) : Json :=
  .object [("function", .object [("description", .string description), ("name", .string qname),
    ("parameters", params)]), ("type", .string "function")]

/-- The name of a tool definition: `name` stands in for an empty `qualified_name`. -/
def toolQname (td : Json) : Except TypeError String := do
  let qname ← value getString td "qualified_name" ""
  if qname = "" then value getString td "name" "" else return qname

/-- `schema_json`, or the schema built from the other fields. -/
def toolSchema (text : JsonText) (td : Json) (qname : String) : Except TypeError String := do
  let schemaStr ← value getString td "schema_json" ""
  if schemaStr = "" then
    let description ← value getString td "description" ""
    return text.dump (schemaObject qname description (parametersOf text td))
  else
    return schemaStr

def announceTool (text : JsonText) (td : Json) : Except TypeError (Option RemoteTool) := do
  let qname ← toolQname td
  if qname = "" then
    return none
  else
    let schemaStr ← toolSchema text td qname
    return some ⟨bareToolName qname, schemaStr, qname⟩

def toolDefs (p : Json) : Json := (p.field? "tool_defs").getD (.array [])

def announcePlugin (text : JsonText) (p : Json) : Except TypeError (Option LoadedPlugin) := do
  let pluginId ← value getString p "plugin_id" ""
  let pluginVersion ← value getString p "plugin_version" "unknown"
  let runtime ← value getString p "runtime" "unknown"
  if pluginId = "" then
    return none
  else
    let tools ← (toolDefs p).items.mapM (announceTool text)
    return some {
      pluginId := pluginId
      pluginVersion := pluginVersion
      runtime := runtime
      tools := tools.filterMap id }

/-- The plugins of the message, with their tools; a message without the array is dropped. -/
def onSidecarAnnounce (text : JsonText) (announce : Json) :
    Except TypeError (List LoadedPlugin) :=
  match announce.field? "plugins" with
  | some (.array ps) => do
    let plugins ← ps.mapM (announcePlugin text)
    return plugins.filterMap id
  | _ => .ok []

/-! ## When it completes -/

/-- The name of a tool definition whose fields are strings. -/
def announcedName (td : Json) : String :=
  if valueAt getString td "qualified_name" "" = "" then valueAt getString td "name" ""
  else valueAt getString td "qualified_name" ""

/-- The fields of a tool definition that are read are strings. -/
structure ToolReadable (td : Json) : Prop where
  qualifiedName : Field isString td "qualified_name"
  name : valueAt getString td "qualified_name" "" = "" → Field isString td "name"
  schemaJson : announcedName td ≠ "" → Field isString td "schema_json"
  description : announcedName td ≠ "" → valueAt getString td "schema_json" "" = "" →
    Field isString td "description"

/-- The fields of a plugin that are read are strings, and its tools are readable. -/
structure PluginReadable (p : Json) : Prop where
  pluginId : Field isString p "plugin_id"
  pluginVersion : Field isString p "plugin_version"
  runtime : Field isString p "runtime"
  tools : valueAt getString p "plugin_id" "" ≠ "" → ∀ td ∈ (toolDefs p).items, ToolReadable td

/-- The plugins are readable, or they are no array. -/
def AnnounceReadable (announce : Json) : Prop :=
  match announce.field? "plugins" with
  | some (.array ps) => ∀ p ∈ ps, PluginReadable p
  | _ => True

theorem toolQname_isOk (td : Json) :
    (toolQname td).isOk = true ↔ Field isString td "qualified_name" ∧
      (valueAt getString td "qualified_name" "" = "" → Field isString td "name") := by
  unfold toolQname
  rw [isOk_value_bind getString_isOk]
  refine and_congr_right fun _ => ?_
  split
  · rename_i hempty
    rw [valueString_isOk]
    exact ⟨fun h _ => h, fun h => h hempty⟩
  · rename_i hempty
    exact iff_of_true rfl fun h => absurd h hempty

theorem toolQname_eq {td : Json} (h : (toolQname td).isOk = true) :
    toolQname td = .ok (announcedName td) := by
  obtain ⟨hqualified, hname⟩ := (toolQname_isOk td).mp h
  unfold toolQname announcedName
  rw [value_eq ((valueString_isOk _ _ _).mpr hqualified)]
  show (if _ then _ else _) = _
  split
  · rename_i hempty
    exact value_eq ((valueString_isOk _ _ _).mpr (hname hempty))
  · rfl

theorem toolSchema_isOk (text : JsonText) (td : Json) (qname : String) :
    (toolSchema text td qname).isOk = true ↔ Field isString td "schema_json" ∧
      (valueAt getString td "schema_json" "" = "" → Field isString td "description") := by
  unfold toolSchema
  rw [isOk_value_bind getString_isOk]
  refine and_congr_right fun _ => ?_
  split
  · rename_i hempty
    rw [isOk_value_bind getString_isOk]
    exact ⟨fun h _ => h.1, fun h => ⟨h hempty, rfl⟩⟩
  · rename_i hempty
    exact iff_of_true rfl fun h => absurd h hempty

theorem announceTool_isOk (text : JsonText) (td : Json) :
    (announceTool text td).isOk = true ↔ ToolReadable td := by
  unfold announceTool
  rw [isOk_bind]
  constructor
  · rintro ⟨qname, hqname, h⟩
    have hok := isOk_iff.mpr ⟨qname, hqname⟩
    have hsame : announcedName td = qname :=
      Except.ok.inj ((toolQname_eq hok).symm.trans hqname)
    subst hsame
    have hschema : announcedName td ≠ "" → Field isString td "schema_json" ∧
        (valueAt getString td "schema_json" "" = "" → Field isString td "description") := by
      intro hne
      rw [if_neg hne, isOk_bind] at h
      obtain ⟨schemaStr, hschemaStr, -⟩ := h
      exact (toolSchema_isOk text td _).mp (isOk_iff.mpr ⟨schemaStr, hschemaStr⟩)
    obtain ⟨hqualified, hname⟩ := (toolQname_isOk td).mp hok
    exact ⟨hqualified, hname, fun hne => (hschema hne).1, fun hne => (hschema hne).2⟩
  · intro h
    have hok := (toolQname_isOk td).mpr ⟨h.qualifiedName, h.name⟩
    refine ⟨announcedName td, toolQname_eq hok, ?_⟩
    split
    · rfl
    · rename_i hne
      have hschema := (toolSchema_isOk text td (announcedName td)).mpr
        ⟨h.schemaJson hne, h.description hne⟩
      obtain ⟨schemaStr, hschemaStr⟩ := isOk_iff.mp hschema
      exact isOk_bind.mpr ⟨schemaStr, hschemaStr, rfl⟩

theorem announcePlugin_isOk (text : JsonText) (p : Json) :
    (announcePlugin text p).isOk = true ↔ PluginReadable p := by
  have htools : (if valueAt getString p "plugin_id" "" = "" then
        (pure none : Except TypeError (Option LoadedPlugin)) else do
      let tools ← (toolDefs p).items.mapM (announceTool text)
      return some {
        pluginId := valueAt getString p "plugin_id" ""
        pluginVersion := valueAt getString p "plugin_version" "unknown"
        runtime := valueAt getString p "runtime" "unknown"
        tools := tools.filterMap id }).isOk = true ↔
      (valueAt getString p "plugin_id" "" ≠ "" →
        ∀ td ∈ (toolDefs p).items, ToolReadable td) := by
    split
    · rename_i hempty
      exact iff_of_true rfl fun hne => absurd hempty hne
    · rename_i hne
      rw [isOk_bind, forall_prop_of_true hne]
      simp only [← announceTool_isOk text]
      rw [← isOk_mapM, isOk_iff]
      exact exists_congr fun tools => and_iff_left rfl
  unfold announcePlugin
  rw [isOk_value_bind getString_isOk, isOk_value_bind getString_isOk,
    isOk_value_bind getString_isOk, htools]
  exact ⟨fun ⟨h1, h2, h3, h4⟩ => ⟨h1, h2, h3, h4⟩, fun ⟨h1, h2, h3, h4⟩ => ⟨h1, h2, h3, h4⟩⟩

theorem onSidecarAnnounce_isOk (text : JsonText) (announce : Json) :
    (onSidecarAnnounce text announce).isOk = true ↔ AnnounceReadable announce := by
  unfold onSidecarAnnounce AnnounceReadable
  split
  · simp only [← announcePlugin_isOk text]
    rw [isOk_bind, ← isOk_mapM, isOk_iff]
    exact exists_congr fun plugins => and_iff_left rfl
  · exact iff_of_true rfl trivial

end TruellmEngine.Bridge
