/-
  The text of the schemas that the tool registry keeps, and what holds of the registry along any
  run of registrations and their removal.

  A native schema is a document that the registry writes; a remote one is taken as it is, and
  no name is looked up before it is registered. `invariants_iff`: in every state the qualified
  names are unique and the text is the array of the schemas, and no step touches what the names
  of other plugins find, exactly along the runs whose registrations are `Admissible`: their
  names are new and their schemas documents.
-/
import TruellmEngine.Bridge.Registration
import TruellmEngine.Lib.ArrayText
import TruellmEngine.Lib.Run

namespace TruellmEngine.Bridge

open Lib

/-- The registry with its `schemas_cache_`. -/
structure CachedRegistry extends ToolRegistry where
  schemasCache : String := "[]"

/-- The names that a provider registers. -/
def ToolProvider.qualifiedNames (p : ToolProvider) : List String :=
  match p.pluginId, p.tools with
  | some pluginId, some tools =>
    (tools.filterMap ToolDef.name).map fun name => pluginId ++ "." ++ name
  | _, _ => []

namespace CachedRegistry

/-- The text so far, and whether there is no schema in it yet. -/
def appendSchema (out : String × Bool) (t : Tool) : String × Bool :=
  ((if out.2 then out.1 else out.1 ++ ",") ++ t.schemaJson, false)

def rebuildCache (r : ToolRegistry) : CachedRegistry :=
  if r.entries.isEmpty && r.remoteEntries.isEmpty then
    { toToolRegistry := r, schemasCache := "[]" }
  else
    let native := r.entries.foldl appendSchema ("[", true)
    { toToolRegistry := r
      schemasCache := (r.remoteEntries.foldl appendSchema native).1 ++ "]" }

def registerProvider (text : JsonText) (s : CachedRegistry) (p : ToolProvider) :
    Except TypeError CachedRegistry :=
  match p.pluginId, p.tools with
  | some _, some _ => do
    let r ← s.toToolRegistry.registerProvider text p
    return rebuildCache r
  | _, _ => .ok s

def registerRemote (s : CachedRegistry) (pluginId toolName schemaJson : String)
    (dispatchFn : Option (String → Option Context → ToolCallResult × Option Context)) :
    CachedRegistry :=
  if pluginId = "" ∨ toolName = "" then s
  else
    match dispatchFn with
    | none => s
    | some run =>
      let e : Tool := {
        pluginId := pluginId
        toolName := toolName
        schemaJson := if schemaJson = "" then "\x7b\x7d" else schemaJson
        run := run }
      rebuildCache { s.toToolRegistry with remoteEntries := s.remoteEntries ++ [e] }

def unregisterRemotePlugin (s : CachedRegistry) (pluginId : String) : CachedRegistry :=
  rebuildCache (s.toToolRegistry.unregisterRemotePlugin pluginId)

def unregisterPlugin (s : CachedRegistry) (pluginId : String) : CachedRegistry :=
  rebuildCache (s.toToolRegistry.unregisterPlugin pluginId)

inductive Move where
  | registerProvider (p : ToolProvider)
  | registerRemote (pluginId toolName schemaJson : String)
      (dispatchFn : Option (String → Option Context → ToolCallResult × Option Context))
  | unregisterRemotePlugin (pluginId : String)
  | unregisterPlugin (pluginId : String)

/-- The plugin that is registered or unregistered. -/
def Move.pluginId : Move → Option String
  | .registerProvider p => p.pluginId
  | .registerRemote pluginId _ _ _ => some pluginId
  | .unregisterRemotePlugin pluginId => some pluginId
  | .unregisterPlugin pluginId => some pluginId

def step (text : JsonText) (s : CachedRegistry) : Move → Option CachedRegistry
  | .registerProvider p => (s.registerProvider text p).toOption
  | .registerRemote pluginId toolName schemaJson dispatchFn =>
    some (s.registerRemote pluginId toolName schemaJson dispatchFn)
  | .unregisterRemotePlugin pluginId => some (s.unregisterRemotePlugin pluginId)
  | .unregisterPlugin pluginId => some (s.unregisterPlugin pluginId)

def names (s : CachedRegistry) : List String := s.tools.map Tool.qualifiedName

/-- The names are unique, and the text is an array of the schemas of the tools, in their order. -/
structure Consistent (text : JsonText) (s : CachedRegistry) : Prop where
  unique : s.names.Nodup
  cache : ∃ schemas, text.parse (bytes s.schemasCache) = some (.array schemas) ∧
    List.Forall₂ (fun t schema => text.parse (bytes t.schemaJson) = some schema) s.tools schemas

/-- No name finds a tool of the plugin and of the kind that a step has removed. -/
def Gone (t : CachedRegistry) : Move → Prop
  | .unregisterPlugin pluginId => ∀ q u, t.resolve q = some (.native u) → u.pluginId ≠ pluginId
  | .unregisterRemotePlugin pluginId =>
    ∀ q u, t.resolve q = some (.remote u) → u.pluginId ≠ pluginId
  | _ => True

/-- A step removes what it is to remove, and the names of other plugins find what they did. -/
structure Apart (s t : CachedRegistry) (m : Move) : Prop where
  gone : t.Gone m
  others : ∀ u ∈ s.tools, some u.pluginId ≠ m.pluginId →
    t.resolve u.qualifiedName = s.resolve u.qualifiedName

/-- What is registered has names of its own, and a schema that is a document. -/
def Admissible (text : JsonText) (s : CachedRegistry) : Move → Prop
  | .registerProvider p => p.qualifiedNames.Nodup ∧ ∀ q ∈ p.qualifiedNames, q ∉ s.names
  | .registerRemote pluginId toolName schemaJson dispatchFn =>
    pluginId ≠ "" → toolName ≠ "" → dispatchFn.isSome = true →
      pluginId ++ "." ++ toolName ∉ s.names ∧ (schemaJson ≠ "" → text.Item schemaJson)
  | _ => True

variable {text : JsonText} {s t : CachedRegistry} {m : Move}

/-! ## The text -/

theorem foldl_appendSchema (out : String) (t : Tool) (ts : List Tool) :
    (ts.foldl appendSchema (out ++ t.schemaJson, false)).1 =
      out ++ ",".intercalate ((t :: ts).map Tool.schemaJson) := by
  induction ts generalizing out t with
  | nil => rw [List.map_singleton, String.intercalate_singleton, List.foldl_nil]
  | cons u ts ih =>
    have hstep : appendSchema (out ++ t.schemaJson, false) u =
        (out ++ t.schemaJson ++ "," ++ u.schemaJson, false) := rfl
    rw [List.foldl_cons, hstep, ih, List.map_cons, List.map_cons, List.map_cons,
      String.intercalate_cons_cons]
    simp only [String.append_assoc]

/-- The loops write the array of all schemas. -/
theorem rebuildCache_cache (r : ToolRegistry) : (rebuildCache r).schemasCache = r.schemasJson := by
  unfold rebuildCache ToolRegistry.schemasJson
  split
  · rename_i hempty
    rw [Bool.and_eq_true, List.isEmpty_iff, List.isEmpty_iff] at hempty
    rw [hempty.1, hempty.2]
    rfl
  · rename_i hsome
    show (r.remoteEntries.foldl appendSchema
      (r.entries.foldl appendSchema ("[", true))).1 ++ "]" = _
    rw [← List.foldl_append]
    cases htools : r.entries ++ r.remoteEntries with
    | nil =>
      rw [List.append_eq_nil_iff] at htools
      rw [htools.1, htools.2] at hsome
      exact absurd rfl hsome
    | cons t ts =>
      have hfirst : appendSchema ("[", true) t = ("[" ++ t.schemaJson, false) := rfl
      rw [List.foldl_cons, hfirst, foldl_appendSchema]

theorem rebuildCache_registry (r : ToolRegistry) : (rebuildCache r).toToolRegistry = r := by
  unfold rebuildCache
  split
  · rfl
  · rfl

theorem rebuildCache_cached (r : ToolRegistry) :
    (rebuildCache r).schemasCache = (rebuildCache r).schemasJson := by
  rw [rebuildCache_cache, rebuildCache_registry]

/-! ## What is registered -/

theorem written_parameters (td : ToolDef) : text.Written (td.parameters text) := by
  have hempty : text.Written (.object []) :=
    .object List.Pairwise.nil fun f hf => absurd hf List.not_mem_nil
  unfold ToolDef.parameters
  split
  · rename_i params _
    cases hparse : text.parse (bytes params) with
    | none => exact hempty
    | some j => exact .parsed hparse
  · exact hempty

theorem written_schemaObject (qname description : String) {params : Json}
    (h : text.Written params) : text.Written (schemaObject qname description params) := by
  have houter : List.Pairwise (· < ·) ["function", "type"] := by decide
  have hinner : List.Pairwise (· < ·) ["description", "name", "parameters"] := by decide
  refine .object houter ?_
  intro f hf
  rcases List.mem_pair.mp hf with rfl | rfl
  · refine .object hinner ?_
    intro f hf
    simp only [List.mem_cons, List.not_mem_nil, or_false] at hf
    rcases hf with rfl | rfl | rfl
    · exact .string _
    · exact .string _
    · exact h
  · exact .string _

/-- The entry of a definition has its name, and a document for its schema. -/
theorem entry_spec {p : ToolProvider} {pluginId : String} {td : ToolDef} {o : Option Tool}
    (h : td.entry text p pluginId = .ok o) :
    o.map Tool.qualifiedName = td.name.map (pluginId ++ "." ++ ·) ∧ ∀ u ∈ o,
      ∃ obj, text.Written obj ∧ text.encodes obj = true ∧ u.schemaJson = text.dump obj := by
  unfold ToolDef.entry at h
  split at h
  · rename_i hname
    cases h
    rw [hname]
    exact ⟨rfl, fun u hu => by cases hu⟩
  · rename_i name hname
    obtain ⟨schemaJson, hdump, h⟩ := bind_eq_ok.mp h
    cases h
    rw [hname]
    refine ⟨rfl, fun u hu => ?_⟩
    cases hu
    unfold JsonText.dumps at hdump
    split at hdump
    · rename_i hencodes
      cases hdump
      exact ⟨_, written_schemaObject _ _ (written_parameters td), hencodes, rfl⟩
    · cases hdump

theorem entries_spec {p : ToolProvider} {pluginId : String} {tools : List ToolDef}
    {entries : List (Option Tool)} (h : tools.mapM (ToolDef.entry text p pluginId) = .ok entries) :
    (entries.filterMap id).map Tool.qualifiedName =
        (tools.filterMap ToolDef.name).map (fun name => pluginId ++ "." ++ name) ∧
      ∀ u ∈ entries.filterMap id,
        ∃ obj, text.Written obj ∧ text.encodes obj = true ∧ u.schemaJson = text.dump obj := by
  have hone : ∀ td ∈ tools, ∀ o, ToolDef.entry text p pluginId td = .ok o → _ :=
    fun td _ o ho => entry_spec ho
  have hspec := forall₂_of_mapM hone h
  clear h hone
  induction hspec with
  | nil => exact ⟨rfl, fun u hu => absurd hu List.not_mem_nil⟩
  | @cons td o _ _ hentry _ ih =>
    obtain ⟨hname, hschema⟩ := hentry
    cases o with
    | none =>
      have hnone : td.name = none := Option.map_eq_none_iff.mp hname.symm
      rw [List.filterMap_cons_none rfl, List.filterMap_cons_none hnone]
      exact ih
    | some u =>
      obtain ⟨name, hsome, hq⟩ := Option.map_eq_some_iff.mp hname.symm
      rw [List.filterMap_cons_some (f := id) rfl, List.filterMap_cons_some hsome, List.map_cons,
        List.map_cons, hq, ih.1]
      exact ⟨rfl, List.forall_mem_cons.mpr ⟨hschema u rfl, ih.2⟩⟩

/-- What a provider adds: native tools of its names, whose schemas are written here. -/
theorem registerProvider_spec {p : ToolProvider} (hs : s.schemasCache = s.schemasJson)
    (h : s.registerProvider text p = .ok t) :
    ∃ new, t.entries = s.entries ++ new ∧ t.remoteEntries = s.remoteEntries ∧
      t.schemasCache = t.schemasJson ∧ new.map Tool.qualifiedName = p.qualifiedNames ∧
      ∀ u ∈ new, ∃ obj, text.Written obj ∧ text.encodes obj = true ∧
        u.schemaJson = text.dump obj := by
  unfold registerProvider at h
  split at h
  · rename_i pluginId tools hid htools
    obtain ⟨r, hr, h⟩ := bind_eq_ok.mp h
    cases h
    unfold ToolRegistry.registerProvider at hr
    rw [hid, htools] at hr
    obtain ⟨entries, hentries, hr⟩ := bind_eq_ok.mp hr
    cases hr
    obtain ⟨hnames, hschemas⟩ := entries_spec hentries
    refine ⟨entries.filterMap id, ?_, ?_, ?_, ?_, hschemas⟩
    · rw [rebuildCache_registry]
    · rw [rebuildCache_registry]
    · exact rebuildCache_cached _
    · unfold ToolProvider.qualifiedNames
      rw [hid, htools]
      exact hnames
  · rename_i hmissing
    cases h
    refine ⟨[], (List.append_nil _).symm, rfl, hs, ?_, fun u hu => absurd hu List.not_mem_nil⟩
    unfold ToolProvider.qualifiedNames
    split
    · rename_i hid htools
      exact absurd htools (hmissing _ _ hid)
    · rfl

/-- What a sidecar's tool adds: nothing, or the tool. -/
theorem registerRemote_spec {pluginId toolName schemaJson : String}
    {dispatchFn : Option (String → Option Context → ToolCallResult × Option Context)}
    (hs : s.schemasCache = s.schemasJson)
    (ht : s.registerRemote pluginId toolName schemaJson dispatchFn = t) :
    ∃ new, t.entries = s.entries ∧ t.remoteEntries = s.remoteEntries ++ new ∧
      t.schemasCache = t.schemasJson ∧
      ((pluginId ≠ "" ∧ toolName ≠ "" ∧ dispatchFn.isSome = true ∧
          new.map Tool.qualifiedName = [pluginId ++ "." ++ toolName] ∧
          new.map Tool.schemaJson = [if schemaJson = "" then "{}" else schemaJson]) ∨
        ¬ (pluginId ≠ "" ∧ toolName ≠ "" ∧ dispatchFn.isSome = true) ∧ new = []) := by
  unfold registerRemote at ht
  split at ht
  · rename_i hempty
    subst ht
    refine ⟨[], rfl, (List.append_nil _).symm, hs, .inr ⟨?_, rfl⟩⟩
    rintro ⟨hid, hname, -⟩
    exact hempty.elim hid hname
  · rename_i hsome
    rw [not_or] at hsome
    cases dispatchFn with
    | none =>
      subst ht
      refine ⟨[], rfl, (List.append_nil _).symm, hs, .inr ⟨?_, rfl⟩⟩
      rintro ⟨-, -, hfn⟩
      cases hfn
    | some run =>
      subst ht
      dsimp only
      rw [rebuildCache_cache, rebuildCache_registry]
      exact ⟨[_], rfl, rfl, rfl, .inl ⟨hsome.1, hsome.2, rfl, rfl, rfl⟩⟩

/-! ## Unique names -/

theorem find?_of_nodup {ts : List Tool} (h : (ts.map Tool.qualifiedName).Nodup) {u : Tool}
    (hu : u ∈ ts) : (ts.find? fun t => t.qualifiedName = u.qualifiedName) = some u := by
  induction ts with
  | nil => cases hu
  | cons t ts ih =>
    obtain ⟨hnew, hrest⟩ := List.nodup_cons.mp h
    rcases List.mem_cons.mp hu with rfl | hu
    · exact List.find?_cons_of_pos (decide_eq_true rfl)
    · have hne : t.qualifiedName ≠ u.qualifiedName :=
        fun heq => hnew (heq ▸ List.mem_map_of_mem hu)
      rw [List.find?_cons_of_neg (by simpa using hne)]
      exact ih hrest hu

/-- With unique names, each finds its own tool. -/
theorem resolve_native (h : s.names.Nodup) {u : Tool} (hu : u ∈ s.entries) :
    s.resolve u.qualifiedName = some (.native u) := by
  unfold names ToolRegistry.tools at h
  rw [List.map_append] at h
  unfold ToolRegistry.resolve
  rw [find?_of_nodup (List.nodup_append.mp h).1 hu]
  rfl

theorem resolve_remote (h : s.names.Nodup) {u : Tool} (hu : u ∈ s.remoteEntries) :
    s.resolve u.qualifiedName = some (.remote u) := by
  unfold names ToolRegistry.tools at h
  rw [List.map_append] at h
  obtain ⟨-, hremote, hdisjoint⟩ := List.nodup_append.mp h
  have hnative : (s.entries.find? fun t => t.qualifiedName = u.qualifiedName) = none := by
    refine List.find?_eq_none.mpr fun t ht heq => ?_
    exact hdisjoint _ (List.mem_map_of_mem ht) _ (List.mem_map_of_mem hu) (of_decide_eq_true heq)
  unfold ToolRegistry.resolve
  rw [hnative, find?_of_nodup hremote hu]
  rfl

/-- A name finds a tool that is there, of the kind it is there as. -/
theorem mem_of_resolve {q : String} {target : Target} (h : s.resolve q = some target) :
    match target with
    | .native u => u ∈ s.entries
    | .remote u => u ∈ s.remoteEntries := by
  have hmem : ∀ {ts : List Tool} {p : Tool → Bool} {f : Tool → Target},
      (ts.find? p).map f = some target → ∃ u ∈ ts, f u = target := by
    intro ts p f hfind
    obtain ⟨u, hu, hf⟩ := Option.map_eq_some_iff.mp hfind
    exact ⟨u, List.mem_of_find?_eq_some hu, hf⟩
  unfold ToolRegistry.resolve at h
  rcases Option.or_eq_some_iff.mp h with h | ⟨-, h⟩
  · obtain ⟨u, hu, rfl⟩ := hmem h
    exact hu
  rcases Option.or_eq_some_iff.mp h with h | ⟨-, h⟩
  · obtain ⟨u, hu, rfl⟩ := hmem h
    exact hu
  rcases Option.or_eq_some_iff.mp h with h | ⟨-, h⟩
  · obtain ⟨u, hu, rfl⟩ := hmem h
    exact hu
  · obtain ⟨u, hu, rfl⟩ := hmem h
    exact hu

/-! ## One step -/

structure Inv (text : JsonText) (s : CachedRegistry) : Prop where
  consistent : s.Consistent text
  cached : s.schemasCache = s.schemasJson

theorem consistent_iff (ha : text.Arrays) (hs : s.schemasCache = s.schemasJson) :
    s.Consistent text ↔ s.names.Nodup ∧ ∀ u ∈ s.tools, text.Item u.schemaJson := by
  have hitems := ha.items_iff (s.tools.map Tool.schemaJson)
  rw [List.forall_mem_map] at hitems
  simp only [List.forall₂_map_left_iff] at hitems
  have hcache : s.schemasCache = arrayText (s.tools.map Tool.schemaJson) := hs
  rw [← hitems, ← hcache]
  exact ⟨fun h => ⟨h.unique, h.cache⟩, fun h => ⟨h.1, h.2⟩⟩

/-- Tools may be added just if their names are new and their schemas documents. -/
theorem Inv.add_iff (ha : text.Arrays) (hs : s.Inv text) {new : List Tool}
    (htools : t.tools.Perm (s.tools ++ new)) (hcached : t.schemasCache = t.schemasJson) :
    t.Consistent text ↔ (new.map Tool.qualifiedName).Nodup ∧
      (∀ q ∈ new.map Tool.qualifiedName, q ∉ s.names) ∧ ∀ u ∈ new, text.Item u.schemaJson := by
  obtain ⟨hunique, hitems⟩ := (consistent_iff ha hs.cached).mp hs.consistent
  have hnames : t.names.Perm (s.names ++ new.map Tool.qualifiedName) := by
    unfold names
    rw [← List.map_append]
    exact htools.map _
  have hmem : (∀ u ∈ t.tools, text.Item u.schemaJson) ↔ ∀ u ∈ new, text.Item u.schemaJson := by
    constructor
    · exact fun h u hu => h u (htools.mem_iff.mpr (List.mem_append_right _ hu))
    · intro h u hu
      exact (List.mem_append.mp (htools.mem_iff.mp hu)).elim (hitems u) (h u)
  rw [consistent_iff ha hcached, hnames.nodup_iff, List.nodup_append, hmem]
  constructor
  · rintro ⟨⟨-, hnew, hdisjoint⟩, hschemas⟩
    exact ⟨hnew, fun q hq hold => hdisjoint q hold q hq rfl, hschemas⟩
  · rintro ⟨hnew, hdisjoint, hschemas⟩
    exact ⟨⟨hunique, hnew, fun q hq q' hq' heq => hdisjoint q' hq' (heq ▸ hq)⟩, hschemas⟩

theorem Inv.remove (ha : text.Arrays) (hs : s.Inv text) (htools : t.tools.Sublist s.tools)
    (hcached : t.schemasCache = t.schemasJson) : t.Consistent text := by
  obtain ⟨hunique, hitems⟩ := (consistent_iff ha hs.cached).mp hs.consistent
  exact (consistent_iff ha hcached).mpr
    ⟨hunique.sublist (htools.map _), fun u hu => hitems u (htools.subset hu)⟩

theorem item_braces (ha : text.Arrays) : text.Item "\x7b\x7d" :=
  ⟨⟨_, ha.parse_braces⟩, ⟨by decide, by decide⟩⟩

/-- A step is admissible just if it leaves a consistent registry. -/
theorem step_consistent_iff (hf : text.Faithful) (ha : text.Arrays) (hs : s.Inv text)
    (hstep : s.step text m = some t) :
    t.schemasCache = t.schemasJson ∧ (t.Consistent text ↔ s.Admissible text m) := by
  cases m with
  | registerProvider p =>
    obtain ⟨new, hentries, hremote, hcached, hnames, hschemas⟩ :=
      registerProvider_spec hs.cached (toOption_eq_some.mp hstep)
    have htools : t.tools.Perm (s.tools ++ new) := by
      unfold ToolRegistry.tools
      rw [hentries, hremote, List.append_assoc, List.append_assoc]
      exact List.perm_append_comm.append_left _
    have hitems : ∀ u ∈ new, text.Item u.schemaJson := by
      intro u hu
      obtain ⟨obj, hwritten, hencodes, hdump⟩ := hschemas u hu
      rw [hdump]
      exact ha.item_dump hf hwritten hencodes
    refine ⟨hcached, ?_⟩
    rw [hs.add_iff ha htools hcached, hnames]
    exact ⟨fun h => ⟨h.1, h.2.1⟩, fun h => ⟨h.1, h.2, hitems⟩⟩
  | registerRemote pluginId toolName schemaJson dispatchFn =>
    obtain ⟨new, hentries, hremote, hcached, hnew⟩ :=
      registerRemote_spec hs.cached (Option.some.inj hstep)
    have htools : t.tools.Perm (s.tools ++ new) := by
      unfold ToolRegistry.tools
      rw [hentries, hremote, List.append_assoc]
    refine ⟨hcached, ?_⟩
    rw [hs.add_iff ha htools hcached]
    rcases hnew with ⟨hid, hname, hfn, hnames, hschemas⟩ | ⟨hdropped, rfl⟩
    · have hitems : (∀ u ∈ new, text.Item u.schemaJson) ↔
          (schemaJson ≠ "" → text.Item schemaJson) := by
        rw [← List.forall_mem_map, hschemas, List.forall_mem_singleton]
        split
        · rename_i hempty
          exact iff_of_true (item_braces ha) fun h => absurd hempty h
        · rename_i hsome
          exact ⟨fun h _ => h, fun h => h hsome⟩
      rw [hnames, hitems, List.forall_mem_singleton]
      exact ⟨fun h _ _ _ => h.2, fun h => ⟨List.pairwise_singleton _ _, h hid hname hfn⟩⟩
    · refine iff_of_true ⟨List.nodup_nil, ?_, ?_⟩ ?_
      · exact fun q hq => absurd hq List.not_mem_nil
      · exact fun u hu => absurd hu List.not_mem_nil
      · exact fun hid hname hfn => absurd ⟨hid, hname, hfn⟩ hdropped
  | unregisterRemotePlugin pluginId =>
    cases hstep
    refine ⟨rebuildCache_cached _, iff_of_true (hs.remove ha ?_ (rebuildCache_cached _)) trivial⟩
    show (rebuildCache _).tools.Sublist s.tools
    rw [rebuildCache_registry]
    exact List.filter_sublist.append_left _
  | unregisterPlugin pluginId =>
    cases hstep
    refine ⟨rebuildCache_cached _, iff_of_true (hs.remove ha ?_ (rebuildCache_cached _)) trivial⟩
    show (rebuildCache _).tools.Sublist s.tools
    rw [rebuildCache_registry]
    exact List.filter_sublist.append_right _

/-- The tools of other plugins stay where they are. -/
theorem step_keeps (hs : s.schemasCache = s.schemasJson) (hstep : s.step text m = some t) :
    (∀ u ∈ s.entries, some u.pluginId ≠ m.pluginId → u ∈ t.entries) ∧
      ∀ u ∈ s.remoteEntries, some u.pluginId ≠ m.pluginId → u ∈ t.remoteEntries := by
  cases m with
  | registerProvider p =>
    obtain ⟨new, hentries, hremote, -⟩ := registerProvider_spec hs (toOption_eq_some.mp hstep)
    rw [hentries, hremote]
    exact ⟨fun u hu _ => List.mem_append_left _ hu, fun u hu _ => hu⟩
  | registerRemote pluginId toolName schemaJson dispatchFn =>
    obtain ⟨new, hentries, hremote, -⟩ := registerRemote_spec hs (Option.some.inj hstep)
    rw [hentries, hremote]
    exact ⟨fun u hu _ => hu, fun u hu _ => List.mem_append_left _ hu⟩
  | unregisterRemotePlugin pluginId =>
    cases hstep
    unfold unregisterRemotePlugin
    rw [rebuildCache_registry]
    refine ⟨fun u hu _ => hu, fun u hu hother => List.mem_filter.mpr ⟨hu, ?_⟩⟩
    exact decide_eq_true fun heq => hother (congrArg some heq)
  | unregisterPlugin pluginId =>
    cases hstep
    unfold unregisterPlugin
    rw [rebuildCache_registry]
    refine ⟨fun u hu hother => List.mem_filter.mpr ⟨hu, ?_⟩, fun u hu _ => hu⟩
    exact decide_eq_true fun heq => hother (congrArg some heq)

theorem step_gone (hstep : s.step text m = some t) : t.Gone m := by
  cases m with
  | registerProvider p => trivial
  | registerRemote pluginId toolName schemaJson dispatchFn => trivial
  | unregisterRemotePlugin pluginId =>
    cases hstep
    intro q u hu
    have hmem : u ∈ (s.unregisterRemotePlugin pluginId).remoteEntries := mem_of_resolve hu
    unfold unregisterRemotePlugin at hmem
    rw [rebuildCache_registry] at hmem
    exact of_decide_eq_true (List.mem_filter.mp hmem).2
  | unregisterPlugin pluginId =>
    cases hstep
    intro q u hu
    have hmem : u ∈ (s.unregisterPlugin pluginId).entries := mem_of_resolve hu
    unfold unregisterPlugin at hmem
    rw [rebuildCache_registry] at hmem
    exact of_decide_eq_true (List.mem_filter.mp hmem).2

/-- Where the names are unique before and behind a step, it keeps to its plugin. -/
theorem Inv.apart (hs : s.Inv text) (ht : t.Inv text) (hstep : s.step text m = some t) :
    Apart s t m := by
  refine ⟨step_gone hstep, fun u hu hother => ?_⟩
  obtain ⟨hentries, hremote⟩ := step_keeps hs.cached hstep
  rcases List.mem_append.mp hu with hu | hu
  · rw [resolve_native ht.consistent.unique (hentries u hu hother),
      resolve_native hs.consistent.unique hu]
  · rw [resolve_remote ht.consistent.unique (hremote u hu hother),
      resolve_remote hs.consistent.unique hu]

theorem Inv.step (hf : text.Faithful) (ha : text.Arrays) (hs : s.Inv text)
    (hm : s.Admissible text m) (hstep : s.step text m = some t) : t.Inv text := by
  obtain ⟨hcached, hiff⟩ := step_consistent_iff hf ha hs hstep
  exact ⟨hiff.mpr hm, hcached⟩

theorem inv_init (ha : text.Arrays) : Inv text {} :=
  ⟨(consistent_iff ha rfl).mpr ⟨List.nodup_nil, fun _ hu => absurd hu List.not_mem_nil⟩, rfl⟩

/-! ## Runs -/

/-- Along a run the registry stays consistent and its steps keep apart exactly when every
    registration is admissible. -/
theorem invariants_iff (hf : text.Faithful) (ha : text.Arrays) (moves : List Move) :
    (AllStates (step text) (Consistent text) {} moves ∧
      AllSteps (step text) (fun s m => ∀ t, s.step text m = some t → Apart s t m) {} moves) ↔
    AllSteps (step text) (Admissible text) {} moves := by
  have hstates : AllStates (step text) (Consistent text) {} moves ↔
      AllSteps (step text) (Admissible text) {} moves := by
    refine allStates_iff_allSteps (I := Inv text) (fun _ => Inv.consistent) ?_ ?_
      (inv_init ha) moves
    · exact fun s m t hs hm hstep => hs.step hf ha hm hstep
    · exact fun s m t hs hm hstep ht => hm ((step_consistent_iff hf ha hs hstep).2.mp ht)
  constructor
  · exact fun h => hstates.mp h.1
  · intro h
    refine ⟨hstates.mpr h, ?_⟩
    refine allSteps_of_invariant (I := Inv text) (fun s m t hs hm hstep => hs.step hf ha hm hstep)
      ?_ (inv_init ha) h
    intro s m t hs hm hstep t' hstep'
    exact hs.apart (hs.step hf ha hm hstep') hstep'

def answer : String → Option Context → ToolCallResult × Option Context := fun _ ctx => ({}, ctx)

theorem weather_item : CanonicalJson.strict.Item "\x7b\"type\":\"function\"\x7d" := by
  refine ⟨Option.isSome_iff_exists.mp ?_, by decide, by decide⟩
  decide +kernel

/-- A tool comes and goes. -/
def comesAndGoes : List Move :=
  [.registerRemote "w_plugin" "get_weather" "\x7b\"type\":\"function\"\x7d" (some answer),
    .unregisterRemotePlugin "w_plugin"]

theorem comes_and_goes :
    AllStates (step CanonicalJson.strict) (Consistent CanonicalJson.strict) {} comesAndGoes ∧
      AllSteps (step CanonicalJson.strict)
        (fun s m => ∀ t, s.step CanonicalJson.strict m = some t → Apart s t m) {} comesAndGoes := by
  refine (invariants_iff CanonicalJson.strict_faithful CanonicalJson.strict_arrays _).mpr ?_
  intro t ht
  refine ⟨fun _ _ _ => ⟨List.not_mem_nil, fun _ => weather_item⟩, ?_⟩
  intro u hu
  exact ⟨trivial, trivial⟩

/-- A sidecar's schema is passed on though it is no document, and a name is registered twice. -/
theorem taken_as_is :
    let broken : List Move :=
      [.registerRemote "w_plugin" "get_weather" "not json" (some answer)]
    let repeated : List Move :=
      [.registerRemote "w_plugin" "get_weather" "" (some answer),
        .registerRemote "w_plugin" "get_weather" "" (some answer)]
    let text := CanonicalJson.strict
    (run (step text) {} broken).map schemasCache = some "[not json]" ∧
      ¬ AllStates (step text) (Consistent text) {} broken ∧
      (run (step text) {} repeated).map names =
        some ["w_plugin.get_weather", "w_plugin.get_weather"] ∧
      ¬ AllStates (step text) (Consistent text) {} repeated := by
  intro broken repeated text
  have hcache : (run (step text) {} broken).map schemasCache = some "[not json]" := by
    decide +kernel
  have hnames : (run (step text) {} repeated).map names =
      some ["w_plugin.get_weather", "w_plugin.get_weather"] := by
    decide +kernel
  refine ⟨hcache, ?_, hnames, ?_⟩
  · intro h
    obtain ⟨t, ht, htext⟩ := Option.map_eq_some_iff.mp hcache
    obtain ⟨schemas, hparse, -⟩ := (h.last ht).cache
    have hnone : (text.parse (bytes "[not json]")).isNone = true := by decide +kernel
    rw [htext, Option.isNone_iff_eq_none.mp hnone] at hparse
    cases hparse
  · intro h
    obtain ⟨t, ht, htext⟩ := Option.map_eq_some_iff.mp hnames
    have hunique := (h.last ht).unique
    rw [htext] at hunique
    exact absurd hunique (by decide)

end CachedRegistry

end TruellmEngine.Bridge
