/-
  The tools that the handler shows the model, and what a call of one of them runs.

  A schema is shown under the part of its name behind the last dot, and a call comes back
  with that name, so the registry finds the first tool of this short name. `own_iff`: each
  schema shown is called by its own name, and runs its own tool, exactly in the registries
  where each schema names its tool and no two tools have one short name (`Named`), unless
  nothing is shown. `own_along_iff` is the same along every run of registrations;
  `second_search_runs_the_first` is a run where two plugins have a tool of one short name.
-/
import Mathlib.Data.List.Nodup
import TruellmEngine.Bridge.Registration
import TruellmEngine.Lib.Run
import TruellmEngine.Server.ChatHandler

namespace TruellmEngine.Server

open Lib Bridge
open Lib.Json (value getString)

/-- The function name of a schema, if it is a string. -/
def functionName (schema : Json) : Option String :=
  match (schema.field? "function").bind (Json.field? "name") with
  | some (.string name) => some name
  | _ => none

section

variable (text : JsonText) (r : ToolRegistry)

/-- The schemas shown to the model where the request has no tools of its own. A name of the
    wrong type ends the request, so none are shown. -/
def advertised : List Json :=
  match allSchemas text (some { tools := r }) { messages := .null } with
  | .ok schemas => schemas
  | .error _ => []

/-- The `i`-th schema is the one of the `i`-th tool: it has a name, a call of this name runs
    this tool, and no other schema has it. -/
structure Own : Prop where
  runs : ∀ (i : Nat) schema, (advertised text r)[i]? = some schema → ∃ name t,
    functionName schema = some name ∧ r.tools[i]? = some t ∧
      ∀ args ctx, (r.dispatch name args ctx).ran = some t
  distinct : ((advertised text r).map functionName).Nodup

/-- The schemas as they are in the registry; none where its text is no array. -/
def registered : List Json :=
  if r.hasTools && r.schemasJson ≠ "" && r.schemasJson ≠ "[]" then
    match text.parse (bytes r.schemasJson) with
    | some (.array schemas) => schemas
    | _ => []
  else []

/-- The function name of the schema, if it has one, is a string. -/
def NameReadable (schema : Json) : Prop :=
  match schema.field? "function" with
  | some (.object fn) => Json.Field Json.isString (.object fn) "name"
  | _ => True

/-- Each schema has the name of its tool behind the last dot, and no tool before it has this
    name. -/
structure Named : Prop where
  name : ∀ (i : Nat) schema, (registered text r)[i]? = some schema → ∃ qn t,
    functionName schema = some qn ∧ r.tools[i]? = some t ∧ bareToolName qn = t.toolName
  first : ∀ (i j : Nat) t u, i < j → j < (registered text r).length →
    r.tools[i]? = some t → r.tools[j]? = some u → t.toolName ≠ u.toolName

end

/-! ## The name behind the last dot -/

theorem takeWhile_ne_of_idxOf? {c : Char} {l : List Char} {i : Nat} (h : l.idxOf? c = some i) :
    i < l.length ∧ l.takeWhile (· ≠ c) = l.take i := by
  induction l generalizing i with
  | nil => cases h
  | cons x l ih =>
    rw [List.idxOf?_cons] at h
    split at h
    · rename_i hx
      cases h
      exact ⟨Nat.succ_pos _, List.takeWhile_cons_of_neg (by simpa using beq_iff_eq.mp hx)⟩
    · rename_i hx
      obtain ⟨k, hk, rfl⟩ := Option.map_eq_some_iff.mp h
      obtain ⟨hlt, htake⟩ := ih hk
      refine ⟨Nat.succ_lt_succ hlt, ?_⟩
      rw [List.takeWhile_cons_of_pos (by simpa using hx), htake]
      rfl

theorem bareToolName_of_lastIndex {qn : String} {dot : Nat}
    (h : lastIndex '.' qn.toList = some dot) :
    bareToolName qn = String.ofList (qn.toList.drop (dot + 1)) := by
  obtain ⟨i, hi, rfl⟩ := Option.map_eq_some_iff.mp h
  obtain ⟨hlt, htake⟩ := takeWhile_ne_of_idxOf? hi
  rw [List.length_reverse] at hlt
  unfold bareToolName
  rw [htake, List.reverse_take, List.reverse_reverse, List.length_reverse]
  congr 2
  omega

theorem bareToolName_of_no_dot {qn : String} (h : lastIndex '.' qn.toList = none) :
    bareToolName qn = qn := by
  have hdot : '.' ∉ qn.toList.reverse := List.idxOf?_eq_none_iff.mp (Option.map_eq_none_iff.mp h)
  unfold bareToolName
  rw [List.takeWhile_eq_self_iff.mpr, List.reverse_reverse, String.ofList_toList]
  intro c hc
  exact decide_eq_true fun heq => hdot (heq ▸ hc)

theorem bareToolName_bare (qn : String) : '.' ∉ (bareToolName qn).toList := by
  unfold bareToolName
  rw [String.toList_ofList, List.mem_reverse]
  intro hdot
  have hne := List.mem_takeWhile_imp (p := fun c => decide (c ≠ '.')) hdot
  exact of_decide_eq_true hne rfl

/-! ## What is shown of a registered schema -/

variable {text : JsonText} {r : ToolRegistry}

theorem shortSchema_isOk (schema : Json) :
    (shortSchema schema).isOk = true ↔ NameReadable schema := by
  unfold shortSchema NameReadable
  cases schema.field? "function" with
  | none => exact iff_of_true rfl trivial
  | some fn =>
    cases fn with
    | object fields =>
      dsimp only
      rw [← Json.valueString_isOk _ "name" "", isOk_bind, isOk_iff]
      constructor
      · rintro ⟨qn, hqn, -⟩
        exact ⟨qn, hqn⟩
      · rintro ⟨qn, hqn⟩
        refine ⟨qn, hqn, ?_⟩
        split <;> rfl
    | _ => exact iff_of_true rfl trivial

theorem functionName_of_name {schema : Json} {fn : Json} {name : String}
    (hfn : schema.field? "function" = some fn) (hname : fn.field? "name" = some (.string name)) :
    functionName schema = some name := by
  unfold functionName
  rw [hfn, Option.bind_some, hname]

theorem isObject_of_field? {j v : Json} {key : String} (h : j.field? key = some v) :
    j.isObject = true := by
  cases j with
  | object fields => rfl
  | _ => cases h

/-- The name of a function, as it is read. -/
theorem value_name {fields : List (String × Json)} {qn : String}
    (h : value getString (.object fields) "name" "" = .ok qn) :
    fields.lookup "name" = some (.string qn) ∨ fields.lookup "name" = none ∧ qn = "" := by
  unfold value at h
  dsimp only at h
  cases hname : fields.lookup "name" with
  | none =>
    rw [hname] at h
    cases h
    exact Or.inr ⟨rfl, rfl⟩
  | some v =>
    rw [hname] at h
    cases v with
    | string name =>
      cases h
      exact Or.inl rfl
    | _ => cases h

theorem functionName_of_no_name {schema fn : Json} (hfn : schema.field? "function" = some fn)
    (hname : fn.field? "name" = none) : functionName schema = none := by
  unfold functionName
  rw [hfn, Option.bind_some, hname]

theorem functionName_shortSchema {schema shown : Json} (h : shortSchema schema = .ok shown) :
    functionName shown = (functionName schema).map bareToolName := by
  unfold shortSchema at h
  split at h
  · rename_i fields hfn
    obtain ⟨qn, hqn, h⟩ := bind_eq_ok.mp h
    rcases value_name hqn with hname | ⟨hname, rfl⟩
    · rw [functionName_of_name hfn hname, Option.map_some]
      split at h
      · rename_i dot hdot
        cases h
        rw [bareToolName_of_lastIndex hdot]
        exact functionName_of_name (Json.field?_setField_self (isObject_of_field? hfn) _ _)
          (Json.field?_setField_self rfl _ _)
      · rename_i hdot
        cases h
        rw [bareToolName_of_no_dot hdot]
        exact functionName_of_name hfn hname
    · cases h
      rw [functionName_of_no_name hfn hname, Option.map_none]
  · rename_i hno
    cases h
    have hnone : functionName schema = none := by
      unfold functionName
      cases hfn : schema.field? "function" with
      | none => rfl
      | some fn =>
        cases fn with
        | object fields => exact absurd hfn (hno fields)
        | _ => rfl
    rw [hnone, Option.map_none]

theorem allSchemas_registered (b : PluginBridge) {req : ChatRequest}
    (hreq : req.tools.isEmpty = true) :
    allSchemas text (some b) req = (registered text b.tools).mapM shortSchema := by
  unfold allSchemas registered
  rw [if_neg (by rw [hreq]; decide)]
  dsimp only
  split
  · cases text.parse (bytes b.tools.schemasJson) with
    | none => rfl
    | some parsed => cases parsed <;> rfl
  · rfl

theorem advertised_eq (text : JsonText) (r : ToolRegistry) : advertised text r =
    match (registered text r).mapM shortSchema with
    | .ok schemas => schemas
    | .error _ => [] := by
  unfold advertised
  rw [allSchemas_registered _ rfl]

/-- What is shown where all names are readable: each schema under its bare name. -/
theorem advertised_names (hread : ∀ schema ∈ registered text r, NameReadable schema) :
    (advertised text r).map functionName =
      (registered text r).map fun schema => (functionName schema).map bareToolName := by
  rw [advertised_eq]
  obtain ⟨shown, hshown⟩ := isOk_iff.mp
    (isOk_mapM.mpr fun schema hs => (shortSchema_isOk schema).mpr (hread schema hs))
  rw [hshown]
  exact map_of_mapM (fun _ _ => functionName_shortSchema) hshown

theorem advertised_of_unreadable (hread : ¬ ∀ schema ∈ registered text r, NameReadable schema) :
    advertised text r = [] := by
  rw [advertised_eq]
  cases hshown : (registered text r).mapM shortSchema with
  | error e => rfl
  | ok shown =>
    exfalso
    apply hread
    intro schema hs
    exact (shortSchema_isOk schema).mp (isOk_mapM.mp (isOk_iff.mpr ⟨shown, hshown⟩) schema hs)

theorem advertised_getElem? (hread : ∀ schema ∈ registered text r, NameReadable schema) (i : Nat) :
    (advertised text r)[i]?.map functionName =
      (registered text r)[i]?.map fun schema => (functionName schema).map bareToolName := by
  rw [← List.getElem?_map, ← List.getElem?_map, advertised_names hread]

theorem Own.named (h : Own text r)
    (hread : ∀ schema ∈ registered text r, NameReadable schema) : Named text r := by
  have hname : ∀ (i : Nat) schema, (registered text r)[i]? = some schema → ∃ qn t,
      functionName schema = some qn ∧ r.tools[i]? = some t ∧ bareToolName qn = t.toolName := by
    intro i schema hi
    have hshown := advertised_getElem? hread i
    rw [hi, Option.map_some] at hshown
    obtain ⟨shown, hi', hfn⟩ := Option.map_eq_some_iff.mp hshown
    obtain ⟨name, t, hname, ht, hran⟩ := h.runs i shown hi'
    rw [hname] at hfn
    obtain ⟨qn, hqn, hbare⟩ := Option.map_eq_some_iff.mp hfn.symm
    refine ⟨qn, t, hqn, ht, ?_⟩
    have htool := (ToolRegistry.dispatch_ran r name "" none).symm.trans (hran "" none)
    rw [← hbare, ToolRegistry.tool?_of_bare (bareToolName_bare qn)] at htool
    have hfound := List.find?_some htool
    exact (of_decide_eq_true hfound).symm
  refine ⟨hname, ?_⟩
  intro i j t u hij hj ht hu heq
  obtain ⟨qn, t', hqn, ht', hbare⟩ := hname i _ (List.getElem?_eq_getElem (hij.trans hj))
  obtain ⟨qn', u', hqn', hu', hbare'⟩ := hname j _ (List.getElem?_eq_getElem hj)
  obtain rfl : t = t' := Option.some.inj (ht.symm.trans ht')
  obtain rfl : u = u' := Option.some.inj (hu.symm.trans hu')
  have hlen : (advertised text r).length = (registered text r).length := by
    rw [← List.length_map functionName, advertised_names hread, List.length_map]
  refine List.nodup_iff_getElem?_ne_getElem?.mp h.distinct i j hij
    (by rw [List.length_map, hlen]; exact hj) ?_
  rw [advertised_names hread, List.getElem?_map, List.getElem?_map,
    List.getElem?_eq_getElem (hij.trans hj), List.getElem?_eq_getElem hj, Option.map_some,
    Option.map_some, hqn, hqn', Option.map_some, Option.map_some, hbare, hbare', heq]

theorem Named.own (h : Named text r)
    (hread : ∀ schema ∈ registered text r, NameReadable schema) : Own text r := by
  constructor
  · intro i shown hi
    have hshown := advertised_getElem? hread i
    rw [hi, Option.map_some] at hshown
    obtain ⟨schema, hschema, hfn⟩ := Option.map_eq_some_iff.mp hshown.symm
    obtain ⟨qn, t, hqn, ht, hbare⟩ := h.name i schema hschema
    rw [hqn, Option.map_some, hbare] at hfn
    refine ⟨t.toolName, t, hfn.symm, ht, ?_⟩
    intro args ctx
    rw [ToolRegistry.dispatch_ran, ToolRegistry.tool?_of_bare (hbare ▸ bareToolName_bare qn),
      List.find?_eq_some_iff_getElem]
    obtain ⟨hlt, hget⟩ := List.getElem?_eq_some_iff.mp ht
    refine ⟨decide_eq_true rfl, i, hlt, hget, ?_⟩
    intro j hj
    have hother := h.first j i _ t hj (List.getElem?_eq_some_iff.mp hschema).1
      (List.getElem?_eq_getElem (hj.trans hlt)) ht
    rw [decide_eq_false hother]
    rfl
  · rw [List.nodup_iff_getElem?_ne_getElem?, advertised_names hread]
    intro i j hij hj heq
    rw [List.length_map] at hj
    obtain ⟨qn, t, hqn, ht, hbare⟩ := h.name i _ (List.getElem?_eq_getElem (hij.trans hj))
    obtain ⟨qn', u, hqn', hu, hbare'⟩ := h.name j _ (List.getElem?_eq_getElem hj)
    rw [List.getElem?_map, List.getElem?_map, List.getElem?_eq_getElem (hij.trans hj),
      List.getElem?_eq_getElem hj, Option.map_some, Option.map_some, hqn, hqn', Option.map_some,
      Option.map_some, hbare, hbare'] at heq
    exact h.first i j t u hij hj ht hu (Option.some.inj (Option.some.inj heq))

/-- The schemas shown are called by their own names and run their own tools exactly where the
    registry names them so. -/
theorem own_iff (text : JsonText) (r : ToolRegistry) :
    Own text r ↔ ((∀ schema ∈ registered text r, NameReadable schema) → Named text r) := by
  constructor
  · exact Own.named
  · intro h
    by_cases hread : ∀ schema ∈ registered text r, NameReadable schema
    · exact (h hread).own hread
    · have hnone := advertised_of_unreadable hread
      refine ⟨fun i shown hi => ?_, by rw [hnone]; exact List.nodup_nil⟩
      rw [hnone] at hi
      cases hi

/-- Along every run of registrations and unregistrations. -/
theorem own_along_iff (text : JsonText) (code : SidecarCode) (moves : List ToolRegistry.Move) :
    AllStates (ToolRegistry.step text code) (Own text) {} moves ↔
      AllStates (ToolRegistry.step text code)
        (fun r => (∀ schema ∈ registered text r, NameReadable schema) → Named text r) {} moves :=
  ⟨AllStates.mono fun r => (own_iff text r).mp, AllStates.mono fun r => (own_iff text r).mpr⟩

/-- The announce of two plugins, each with a tool `search`. -/
def announceTwoSearches : Json :=
  let plugin (pluginId schemaJson : String) : Json := .object [
    ("plugin_id", .string pluginId),
    ("tool_defs", .array [.object [("name", .string (pluginId ++ ".search")),
      ("schema_json", .string schemaJson)]])]
  .object [("plugins", .array [
    plugin "files" "\x7b\"function\":\x7b\"name\":\"files.search\"\x7d\x7d",
    plugin "web" "\x7b\"function\":\x7b\"name\":\"web.search\"\x7d\x7d"])]

/-- Reads the text of these two schemas. -/
def twoSearches : JsonText where
  parse raw :=
    let schema (name : String) : Json :=
      .object [("function", .object [("name", .string name)])]
    if raw = bytes ("[\x7b\"function\":\x7b\"name\":\"files.search\"\x7d\x7d," ++
        "\x7b\"function\":\x7b\"name\":\"web.search\"\x7d\x7d]") then
      some (.array [schema "files.search", schema "web.search"])
    else none
  dump _ := ""

/-- Sidecars that answer nothing. -/
def idleSidecars : SidecarCode := fun _ _ _ ctx => ({}, ctx)

/-- Both are shown as `search`, and a call of it runs the first. -/
theorem second_search_runs_the_first :
    let step := ToolRegistry.step twoSearches idleSidecars
    let moves : List ToolRegistry.Move := [.announce (some 0) announceTwoSearches]
    (run step {} moves).map (fun r => ((advertised twoSearches r).map functionName,
        (r.dispatch "search" "" none).ran.map Tool.qualifiedName)) =
        some ([some "search", some "search"], some "files.search") ∧
      ¬ AllStates step (Own twoSearches) {} moves := by
  have hshown : (run (ToolRegistry.step twoSearches idleSidecars) {}
      [.announce (some 0) announceTwoSearches]).map (fun r =>
        ((advertised twoSearches r).map functionName,
          (r.dispatch "search" "" none).ran.map Tool.qualifiedName)) =
      some ([some "search", some "search"], some "files.search") := by
    decide +kernel
  refine ⟨hshown, ?_⟩
  intro h
  obtain ⟨r, hr, hnames⟩ := Option.map_eq_some_iff.mp hshown
  have hdistinct := (h.last hr).distinct
  rw [(Prod.mk.inj hnames).1] at hdistinct
  exact absurd hdistinct (by decide)

end TruellmEngine.Server
