/-
  Native plugins in the bridge: the scan of the plugin directories, the hooks of the loaded
  plugins, the requests that call them, and the destructor.

  `Running` holds while the bridge runs: the open libraries are those of the loaded plugins,
  in the order of their loading, and every entry of a registry belongs to one of them.

  `plugins_end_well`: in every run (plugin directories with any files, sidecars announcing and
  restarting, requests calling tools, preprocessors and generators) that ends with the
  destructor, every call is sound, every library that was opened is closed exactly once, and
  every provider of an initialised library that has a `destroy` is destroyed exactly once.
-/
import TruellmEngine.Bridge.NativeLoader
import TruellmEngine.Lib.StableSort
import Mathlib.Data.List.Induction

namespace TruellmEngine.Bridge.Native

open Lib

/-! ## The bridge -/

/-- `PluginBridge::LoadedPlugin`; a plugin of a sidecar has no path, no handle and no
    providers. -/
structure LoadedPlugin where
  path : String := ""
  pluginId : String
  pluginVersion : String
  runtime : String := "cpp"
  state : String := "SERVING"
  toolNames : List String := []
  handle : Option Nat := none
  provider : Role → Option Provider := fun _ => none

/-- An entry of the tool registry, the preprocessor chain or the generator registry. -/
structure HookEntry where
  pluginId : String
  priority : Int := 0
  handle : Nat
  provider : Provider

structure PluginBridge where
  loader : NativeLoader := {}
  loadedPlugins : List LoadedPlugin := []
  entries : Role → List HookEntry := fun _ => []

/-- `fs::path(lib_path).stem()` -/
def stem (path : String) : String :=
  let name := (path.toList.reverse.takeWhile (· ≠ '/')).reverse
  let base := ((name.reverse.dropWhile (· ≠ '.')).drop 1).reverse
  if base = [] ∨ name = ['.', '.'] then String.ofList name else String.ofList base

/-- The identity comes from the first provider there is. -/
def identity (lib : Library) : Option Provider :=
  (lib.provider .tool).or ((lib.provider .preprocessor).or (lib.provider .generator))

/-- The calls of `get_tools`: by `register_provider`, and for the tool names. -/
def getToolsCalls (h : Nat) (tool : Option Provider) : List (LifeEvent Resource) :=
  match tool with
  | none => []
  | some p =>
    if p.getTools.isSome then
      (if p.pluginId.isSome then [.use (.provider h .tool)] else []) ++
        [.use (.provider h .tool)]
    else []

/-- `register_provider`, `register_preprocessor`, `register_generator`: none without an id. A
    tool provider has an entry for each tool with a name, in their order; the others have one
    entry each, sorted by priority. -/
def hook (h : Nat) (role : Role) (p : Provider) (entries : List HookEntry) : List HookEntry :=
  match p.pluginId with
  | none => entries
  | some pluginId =>
    match role with
    | .tool =>
      entries ++ (((p.getTools.join).getD []).filterMap id).map fun _ =>
        { pluginId := pluginId, handle := h, provider := p }
    | _ =>
      addSorted HookEntry.priority
        { pluginId := pluginId, priority := p.priority, handle := h, provider := p } entries

namespace PluginBridge

/-- `PluginBridge::load_one_plugin` -/
def loadOnePlugin (s : PluginBridge) (libPath : String) (lib : Library) :
    ErrorCode × PluginBridge :=
  let h := s.loader.opened.length
  let (rc, loader) := s.loader.load libPath lib
  if rc ≠ .ok then (rc, { s with loader := loader })
  else
    let lp : LoadedPlugin :=
      { path := libPath
        pluginId := ((identity lib).bind Provider.pluginId).getD (stem libPath)
        pluginVersion := ((identity lib).bind Provider.pluginVersion).getD "unknown"
        toolNames :=
          (((lib.provider .tool).bind Provider.getTools).join.getD []).filterMap id
        handle := some h
        provider := lib.provider }
    (.ok, { loader := loader.call (getToolsCalls h (lib.provider .tool))
            loadedPlugins := s.loadedPlugins ++ [lp]
            entries := fun r =>
              match lib.provider r with
              | none => s.entries r
              | some p => hook h r p (s.entries r) })

/-- A file of a plugin directory; its path begins with the directory. -/
structure DirEntry where
  path : String
  path_ne : path ≠ ""
  regularFile : Bool := true
  extension : String := ".so"
  lib : Library

/-- The scan of a plugin directory. -/
def loadEntries (s : PluginBridge) (anyError : Bool) : List DirEntry → Bool × PluginBridge
  | [] => (anyError, s)
  | e :: rest =>
    if e.regularFile = false ∨ e.extension ≠ ".so" then loadEntries s anyError rest
    else
      let (rc, s) := s.loadOnePlugin e.path e.lib
      loadEntries s (anyError || (rc != .ok && rc != .notFound)) rest

/-- `PluginBridge::load_plugin_dir` -/
def loadPluginDir (s : PluginBridge) (isDirectory : Bool) (files : List DirEntry) :
    ErrorCode × PluginBridge :=
  if !isDirectory then (.ioError, s)
  else
    let (anyError, s) := s.loadEntries false files
    (if anyError then .pluginError else .ok, s)

/-- A request calls into the `k`-th entry of a registry. The chain and the generators skip an
    entry without the function. -/
def callEntry (s : PluginBridge) (role : Role) (k : Nat) : PluginBridge :=
  match (s.entries role)[k]? with
  | none => s
  | some e =>
    if e.provider.callback then
      { s with loader := s.loader.call [.use (.provider e.handle role)] }
    else s

/-- What the destructor does with one plugin. -/
def destroyPlugin (s : PluginBridge) (lp : LoadedPlugin) : PluginBridge :=
  let entries : Role → List HookEntry :=
    if (lp.provider .tool).isSome then
      fun r => if r = .tool then (s.entries r).filter fun e => e.pluginId ≠ lp.pluginId
        else s.entries r
    else s.entries
  let loader := match lp.handle with
    | some h => s.loader.call (destroyed h lp.provider)
    | none => s.loader
  { s with
    entries := entries
    loader := if lp.path ≠ "" then loader.unload lp.path else loader }

/-- `~PluginBridge`: the plugins in reverse order of their loading, then `~NativeLoader`. -/
def destructor (s : PluginBridge) : PluginBridge :=
  let s := s.loadedPlugins.reverse.foldl destroyPlugin s
  { s with loadedPlugins := [], loader := s.loader.unloadAll }

inductive Move where
  | loadPluginDir (isDirectory : Bool) (files : List DirEntry)
  /-- A sidecar announces a plugin. -/
  | announce (pluginId pluginVersion runtime : String) (toolNames : List String)
  /-- `restart_sidecar` forgets the plugins of the runtime, `python` or `js`. -/
  | cleanUp (python : Bool)
  | callEntry (role : Role) (k : Nat)

def step (s : PluginBridge) : Move → PluginBridge
  | .loadPluginDir isDirectory files => (s.loadPluginDir isDirectory files).2
  | .announce pluginId pluginVersion runtime toolNames =>
    { s with
      loadedPlugins := s.loadedPlugins ++
        [{ pluginId := pluginId, pluginVersion := pluginVersion, runtime := runtime,
           toolNames := toolNames }] }
  | .cleanUp python =>
    { s with
      loadedPlugins := s.loadedPlugins.filter fun lp =>
        ¬ (lp.runtime = (if python then "python" else "js") ∧ (lp.provider .tool).isNone) }
  | .callEntry role k => s.callEntry role k

end PluginBridge

/-! ## The bridge while it runs -/

/-- A plugin of a library, under its path and handle. -/
def LoadedPlugin.native (lp : LoadedPlugin) : Option (String × Nat) :=
  lp.handle.map fun h => (lp.path, h)

/-- The open libraries are those of the plugins, in the order of their loading, and their
    providers are alive. -/
structure Registered (plugins : List LoadedPlugin) (s : NativeLoader) : Prop where
  held : Held s
  intact : ∀ h ∈ s.handles, Intact s h
  libs : s.libs = plugins.filterMap LoadedPlugin.native
  native : ∀ lp ∈ plugins, ∀ h, lp.handle = some h → lp.path ≠ "" ∧ lp.runtime = "cpp" ∧
    ∃ lib, s.opened[h]? = some lib ∧ lp.provider = lib.provider
  remote : ∀ lp ∈ plugins, lp.handle = none → lp.path = ""

/-- An entry of a registry belongs to an open library that has such a provider. -/
def HookEntry.Open (s : NativeLoader) (role : Role) (e : HookEntry) : Prop :=
  e.handle ∈ s.handles ∧ ∃ lib, s.opened[e.handle]? = some lib ∧ (lib.provider role).isSome

structure Running (s : PluginBridge) : Prop where
  registered : Registered s.loadedPlugins s.loader
  entries : ∀ role, ∀ e ∈ s.entries role, e.Open s.loader role

theorem running_init : Running {} := by
  refine ⟨⟨held_empty, ?_, rfl, ?_, ?_⟩, ?_⟩
  · intro h hm
    cases hm
  · intro lp hm
    cases hm
  · intro lp hm
    cases hm
  · intro role e he
    cases he

theorem lookup_extends {α : Type*} {xs ys : List α} (h : xs <+: ys) {i : Nat} {x : α}
    (hx : xs[i]? = some x) : ys[i]? = some x := by
  obtain ⟨zs, rfl⟩ := h
  rw [List.getElem?_append_left (List.getElem?_eq_some_iff.mp hx).1]
  exact hx

/-- An open library stays intact while its part of the loader's state does. -/
theorem Intact.of_kept {s t : NativeLoader} {h : Nat} (hi : Intact s h)
    (hlt : h < s.opened.length) (hopened : s.opened <+: t.opened)
    (hstatus : ∀ r : Resource, r.handle < s.opened.length → t.status r = s.status r) :
    Intact t h := by
  intro lib hl r hr
  obtain ⟨lib', hl'⟩ : ∃ lib', s.opened[h]? = some lib' :=
    ⟨_, List.getElem?_eq_getElem hlt⟩
  rw [lookup_extends hopened hl'] at hl
  cases hl
  rw [hstatus (.provider h r) hlt]
  exact hi _ hl' r hr

/-- Loading adds at the end of the table and leaves the open libraries as they are. -/
theorem Registered.keep {plugins : List LoadedPlugin} {s t : NativeLoader}
    (h : Registered plugins s) (hheld : Held t) (hlibs : t.libs = s.libs)
    (hopened : s.opened <+: t.opened)
    (hstatus : ∀ r : Resource, r.handle < s.opened.length → t.status r = s.status r) :
    Registered plugins t := by
  have hhandles : t.handles = s.handles := congrArg (List.map Prod.snd) hlibs
  refine ⟨hheld, ?_, hlibs.trans h.libs, ?_, h.remote⟩
  · intro k hk
    rw [hhandles] at hk
    exact (h.intact k hk).of_kept (h.held.bound k hk) hopened hstatus
  · intro lp hm k hk
    obtain ⟨hpath, hrun, lib, hl, hp⟩ := h.native lp hm k hk
    exact ⟨hpath, hrun, lib, lookup_extends hopened hl, hp⟩

theorem HookEntry.Open.keep {s t : NativeLoader} {role : Role} {e : HookEntry}
    (h : e.Open s role) (hhandles : ∀ k ∈ s.handles, k ∈ t.handles)
    (hopened : s.opened <+: t.opened) : e.Open t role := by
  obtain ⟨hm, lib, hl, hp⟩ := h
  exact ⟨hhandles _ hm, lib, lookup_extends hopened hl, hp⟩

/-- The entries of a provider that comes in. -/
theorem mem_hook {h : Nat} {role : Role} {p : Provider} {entries : List HookEntry}
    {e : HookEntry} (he : e ∈ hook h role p entries) : e ∈ entries ∨ e.handle = h := by
  unfold hook at he
  split at he
  · exact Or.inl he
  · split at he
    · rcases List.mem_append.mp he with he | he
      · exact Or.inl he
      · obtain ⟨name, -, rfl⟩ := List.mem_map.mp he
        exact Or.inr rfl
    · rcases (mem_addSorted _).mp he with he | rfl
      · exact Or.inl he
      · exact Or.inr rfl

theorem getToolsCalls_uses {s : NativeLoader} {h : Nat} {tool : Option Provider}
    (hlib : s.status (.lib h) = .live)
    (htool : tool.isSome → s.status (.provider h .tool) = .live) :
    ∀ e ∈ getToolsCalls h tool, ∃ r, e = .use r ∧ s.status r = .live ∧
      ∀ q ∈ needs r, s.status q = .live := by
  intro e he
  have hone : e = .use (.provider h .tool) ∧ tool.isSome := by
    cases tool with
    | none => cases he
    | some p =>
      refine ⟨?_, rfl⟩
      simp only [getToolsCalls] at he
      split at he
      · rcases List.mem_append.mp he with he | he
        · split at he
          · exact List.mem_singleton.mp he
          · cases he
        · exact List.mem_singleton.mp he
      · cases he
  refine ⟨.provider h .tool, hone.1, htool hone.2, ?_⟩
  intro q hq
  rw [List.mem_singleton.mp hq]
  exact hlib

theorem handles_of_libs {s : NativeLoader} {libs : List (String × Nat)} {path : String} {k : Nat}
    (h : s.libs = libs ++ [(path, k)]) : s.handles = libs.map Prod.snd ++ [k] := by
  unfold NativeLoader.handles
  rw [h, List.map_append, List.map_singleton]

/-- A load of one library. -/
theorem running_loadOnePlugin {s : PluginBridge} (h : Running s) {path : String}
    (hpath : path ≠ "") (lib : Library) : Running (s.loadOnePlugin path lib).2 := by
  have hreg := h.registered
  unfold PluginBridge.loadOnePlugin
  dsimp only
  by_cases hrc : (s.loader.load path lib).1 = .ok
  · rw [if_neg (not_not_intro hrc)]
    obtain ⟨hheld, hlibs, hopened, hstatus, hprov⟩ := load_ok hreg.held hrc
    have hhandles : (s.loader.load path lib).2.handles =
        s.loader.handles ++ [s.loader.opened.length] := handles_of_libs hlibs
    have hnew : s.loader.opened.length ∈ (s.loader.load path lib).2.handles :=
      hhandles ▸ List.mem_append_right _ (List.mem_singleton_self _)
    obtain ⟨hcall, hsame⟩ := hheld.call (getToolsCalls_uses (hheld.live _ hnew) (hprov .tool))
    have hprefix : s.loader.opened <+: (s.loader.load path lib).2.opened :=
      hopened ▸ List.prefix_append _ _
    have hmore : ∀ k ∈ s.loader.handles, k ∈ (s.loader.load path lib).2.handles :=
      fun k hk => hhandles ▸ List.mem_append_left _ hk
    have hlast : (s.loader.load path lib).2.opened[s.loader.opened.length]? = some lib := by
      rw [hopened, List.getElem?_concat_length]
    refine ⟨⟨hcall, ?_, ?_, ?_, ?_⟩, ?_⟩
    · intro k hk
      have hk : k ∈ (s.loader.load path lib).2.handles := hk
      rw [hhandles] at hk
      rcases List.mem_append.mp hk with hk | hk
      · refine (hreg.intact k hk).of_kept (hreg.held.bound k hk) hprefix ?_
        intro r hr
        rw [hsame]
        exact hstatus r hr
      · rw [List.mem_singleton.mp hk]
        intro lib' hl r hr
        have hl : (s.loader.load path lib).2.opened[s.loader.opened.length]? = some lib' := hl
        rw [hlast] at hl
        cases hl
        rw [hsame]
        exact hprov r hr
    · show (s.loader.load path lib).2.libs = _
      rw [hlibs, List.filterMap_append, hreg.libs]
      rfl
    · intro lp hm k hk
      rcases List.mem_append.mp hm with hm | hm
      · obtain ⟨hp, hrun, lib', hl, hprovider⟩ := hreg.native lp hm k hk
        exact ⟨hp, hrun, lib', lookup_extends hprefix hl, hprovider⟩
      · rw [List.mem_singleton] at hm
        subst hm
        cases hk
        exact ⟨hpath, rfl, lib, hlast, rfl⟩
    · intro lp hm hnone
      rcases List.mem_append.mp hm with hm | hm
      · exact hreg.remote lp hm hnone
      · rw [List.mem_singleton] at hm
        subst hm
        cases hnone
    · intro role e he
      have hold : e ∈ s.entries role → e.Open (s.loader.load path lib).2 role :=
        fun he => (h.entries role e he).keep hmore hprefix
      dsimp only at he
      split at he
      · exact hold he
      · rename_i p hp
        rcases mem_hook he with he | he
        · exact hold he
        · refine ⟨he ▸ hnew, lib, ?_, by rw [hp]; rfl⟩
          rw [he]
          exact hlast
  · rw [if_pos hrc]
    obtain ⟨hheld, hlibs, hopened, hstatus⟩ := load_failed hreg.held hrc
    refine ⟨hreg.keep hheld hlibs hopened hstatus, ?_⟩
    intro role e he
    refine (h.entries role e he).keep ?_ hopened
    intro k hk
    unfold NativeLoader.handles
    rw [hlibs]
    exact hk

theorem running_loadEntries {s : PluginBridge} (h : Running s) (anyError : Bool)
    (files : List PluginBridge.DirEntry) : Running (s.loadEntries anyError files).2 := by
  induction files generalizing s anyError with
  | nil => exact h
  | cons e rest ih =>
    unfold PluginBridge.loadEntries
    split
    · exact ih h anyError
    · exact ih (running_loadOnePlugin h e.path_ne e.lib) _

theorem running_callEntry {s : PluginBridge} (h : Running s) (role : Role) (k : Nat) :
    Running (s.callEntry role k) := by
  unfold PluginBridge.callEntry
  split
  · exact h
  · rename_i e he
    split
    · obtain ⟨hm, lib, hl, hp⟩ := h.entries role e (List.mem_of_getElem? he)
      have hreg := h.registered
      have hlib := hreg.held.live _ hm
      have hprov := hreg.intact _ hm lib hl role hp
      have hev : ∀ f ∈ [LifeEvent.use (Resource.provider e.handle role)],
          ∃ r, f = .use r ∧ s.loader.status r = .live ∧
            ∀ q ∈ needs r, s.loader.status q = .live := by
        intro f hf
        rw [List.mem_singleton.mp hf]
        refine ⟨_, rfl, hprov, ?_⟩
        intro q hq
        rw [List.mem_singleton.mp hq]
        exact hlib
      obtain ⟨hheld, hsame⟩ := hreg.held.call hev
      exact ⟨hreg.keep hheld rfl (List.prefix_refl _) fun r _ => congrFun hsame r, h.entries⟩
    · exact h

/-- Plugins of sidecars come and go without the libraries. -/
theorem Registered.of_native {plugins plugins' : List LoadedPlugin} {s : NativeLoader}
    (h : Registered plugins s)
    (hnative : plugins'.filterMap LoadedPlugin.native = plugins.filterMap LoadedPlugin.native)
    (hmem : ∀ lp ∈ plugins', lp ∈ plugins ∨ lp.handle = none ∧ lp.path = "") :
    Registered plugins' s := by
  refine ⟨h.held, h.intact, h.libs.trans hnative.symm, ?_, ?_⟩
  · intro lp hm k hk
    rcases hmem lp hm with hm | ⟨hnone, -⟩
    · exact h.native lp hm k hk
    · rw [hnone] at hk
      cases hk
  · intro lp hm hnone
    rcases hmem lp hm with hm | ⟨-, hpath⟩
    · exact h.remote lp hm hnone
    · exact hpath

theorem running_step {s : PluginBridge} (h : Running s) (m : PluginBridge.Move) :
    Running (s.step m) := by
  cases m with
  | loadPluginDir isDirectory files =>
    simp only [PluginBridge.step, PluginBridge.loadPluginDir]
    split
    · exact h
    · exact running_loadEntries h false files
  | announce pluginId pluginVersion runtime toolNames =>
    refine ⟨h.registered.of_native ?_ ?_, h.entries⟩
    · exact List.filterMap_append.trans (List.append_nil _)
    · intro lp hm
      rcases List.mem_append.mp hm with hm | hm
      · exact Or.inl hm
      · rw [List.mem_singleton.mp hm]
        exact Or.inr ⟨rfl, rfl⟩
  | cleanUp python =>
    refine ⟨h.registered.of_native ?_ fun lp hm => Or.inl (List.mem_filter.mp hm).1, h.entries⟩
    -- a native plugin has the runtime "cpp" and stays
    refine List.filterMap_filter.trans (List.filterMap_congr ?_)
    intro lp hm
    cases hh : lp.handle with
    | none => simp [LoadedPlugin.native, hh]
    | some k =>
      have hrun := (h.registered.native lp hm k hh).2.1
      refine if_pos (decide_eq_true ?_)
      rintro ⟨heq, -⟩
      rw [hrun] at heq
      cases python <;> exact absurd heq (by decide)
  | callEntry role k => exact running_callEntry h role k

theorem running_run (moves : List PluginBridge.Move) :
    Running (moves.foldl PluginBridge.step {}) := by
  have hrun : ∀ s : PluginBridge, Running s → Running (moves.foldl PluginBridge.step s) := by
    induction moves with
    | nil => exact fun s h => h
    | cons m moves ih => exact fun s h => ih _ (running_step h m)
  exact hrun {} running_init

/-! ## The destructor -/

/-- The library that an event closes. -/
def closedLib : LifeEvent Resource → Option Nat
  | .release (.lib h) => some h
  | _ => none

theorem closedLib_destroyed {h : Nat} {provider : Role → Option Provider} :
    (destroyed h provider).filterMap closedLib = [] := by
  refine List.filterMap_eq_nil_iff.mpr ?_
  intro e he
  obtain ⟨r, p, -, -, rfl⟩ := mem_destroyed.mp he
  rfl

/-- The providers of an open library are destroyed. -/
theorem Held.destroy {s : NativeLoader} (hs : Held s) {k : Nat}
    {provider : Role → Option Provider} (hk : k ∈ s.handles)
    (hprov : ∀ r, (provider r).isSome → s.status (.provider k r) = .live) :
    Held (s.call (destroyed k provider)) := by
  have hlib : ∀ h, (s.call (destroyed k provider)).status (.lib h) = s.status (.lib h) := by
    intro h
    rw [status_call]
    refine lifeAfter_of_untouched ?_
    intro e he heq
    obtain ⟨r, p, -, -, rfl⟩ := mem_destroyed.mp he
    exact Resource.noConfusion heq
  have hother : ∀ r : Resource, r.handle ≠ k →
      (s.call (destroyed k provider)).status r = s.status r := by
    intro r hr
    rw [status_call, status_other destroyed_handle hr]
  refine ⟨sound_append.mpr ⟨hs.sound, destroyed_sound (hs.live k hk) hprov⟩, ?_, hs.paths,
    hs.handles, hs.bound, ?_, ?_, ?_⟩
  · intro r hr
    have hlt := hs.bound k hk
    have hr : s.opened.length ≤ r.handle := hr
    rw [hother r (by omega)]
    exact hs.fresh r hr
  · intro h hm
    rw [hlib]
    exact hs.live h hm
  · intro h hlt hm
    rw [hlib]
    exact hs.closed h hlt hm
  · intro h hm lib hl hinit r p hp hd
    have hne : h ≠ k := fun he => hm (he ▸ hk)
    rw [hother (.provider h r) hne]
    exact hs.settled h hm lib hl hinit r p hp hd

theorem unload_last {s : NativeLoader} (hs : Held s) {path : String} {k : Nat}
    {libs : List (String × Nat)} (hlibs : s.libs = libs ++ [(path, k)]) :
    s.unload path = { s with libs := libs, trace := s.trace ++ [.release (.lib k)] } := by
  have hpaths := hs.paths
  rw [hlibs, List.map_append, List.map_singleton, ← List.concat_eq_append,
    List.nodup_concat] at hpaths
  have hno : ∀ e ∈ libs, e.1 ≠ path := fun e he heq =>
    hpaths.1 (List.mem_map.mpr ⟨e, he, heq⟩)
  have hfind : s.libs.find? (fun e => e.1 = path) = some (path, k) := by
    rw [hlibs, List.find?_append, List.find?_eq_none.mpr (by simpa using hno)]
    simp
  have hfilter : s.libs.filter (fun e => e.1 ≠ path) = libs := by
    rw [hlibs, List.filter_append, List.filter_eq_self.mpr (by simpa using hno)]
    simp
  unfold NativeLoader.unload
  rw [hfind, hfilter]

/-- The library that was loaded last is closed, its providers destroyed before. -/
theorem Held.unload {s : NativeLoader} (hs : Held s) {path : String} {k : Nat}
    {libs : List (String × Nat)} (hlibs : s.libs = libs ++ [(path, k)])
    (hset : ∀ lib, s.opened[k]? = some lib → Settled s.status k lib) :
    Held (s.unload path) := by
  have hhandles : s.handles = libs.map Prod.snd ++ [k] := handles_of_libs hlibs
  have hnd := hs.handles
  rw [hhandles, ← List.concat_eq_append, List.nodup_concat] at hnd
  have hk : k ∈ s.handles := by rw [hhandles]; simp
  have hold : ∀ h ∈ libs.map Prod.snd, h ∈ s.handles ∧ h ≠ k := fun h hm =>
    ⟨hhandles ▸ List.mem_append_left _ hm, fun he => hnd.1 (he ▸ hm)⟩
  have hpaths := hs.paths
  rw [hlibs, List.map_append] at hpaths
  rw [unload_last hs hlibs]
  have hstatus : NativeLoader.status
      { s with libs := libs, trace := s.trace ++ [.release (.lib k)] } =
      (LifeEvent.release (Resource.lib k)).apply s.status := lifeAfter_append
  have hother : ∀ r : Resource, r ≠ .lib k →
      (LifeEvent.release (Resource.lib k)).apply s.status r = s.status r := fun r hr => if_neg hr
  have hsettled : ∀ h lib, s.opened[h]? = some lib → Settled s.status h lib →
      Settled ((LifeEvent.release (Resource.lib k)).apply s.status) h lib := by
    intro h lib _ hset hinit r p hp hd
    rw [hother _ (fun he => Resource.noConfusion he)]
    exact hset hinit r p hp hd
  refine ⟨sound_append.mpr ⟨hs.sound, ⟨hs.live k hk, by simp [LifeEvent.resource, needs]⟩,
    trivial⟩, ?_, hpaths.of_append_left, hnd.2, ?_, ?_, ?_, ?_⟩
  · intro r hr
    have hlt := hs.bound k hk
    have hr : s.opened.length ≤ r.handle := hr
    have hne : r ≠ .lib k := by
      rintro rfl
      exact absurd hr (Nat.not_le.mpr hlt)
    rw [hstatus, hother r hne]
    exact hs.fresh r hr
  · exact fun h hm => hs.bound h (hold h hm).1
  · intro h hm
    obtain ⟨hm, hne⟩ := hold h hm
    rw [hstatus, hother _ (fun he => hne (Resource.lib.inj he))]
    exact hs.live h hm
  · intro h hlt hm
    rw [hstatus]
    by_cases hh : h = k
    · exact if_pos (congrArg Resource.lib hh)
    · rw [hother _ (fun he => hh (Resource.lib.inj he))]
      refine hs.closed h hlt ?_
      rw [hhandles, List.mem_append, List.mem_singleton]
      exact not_or.mpr ⟨hm, hh⟩
  · intro h hm lib hl
    rw [hstatus]
    refine hsettled h lib hl ?_
    by_cases hh : h = k
    · subst hh
      exact hset lib hl
    · refine hs.settled h ?_ lib hl
      rw [hhandles, List.mem_append, List.mem_singleton]
      exact not_or.mpr ⟨hm, hh⟩

/-- The last plugin is destroyed and its library closed. -/
theorem registered_destroyPlugin {plugins : List LoadedPlugin} {lp : LoadedPlugin}
    {s : PluginBridge} (h : Registered (plugins ++ [lp]) s.loader) :
    Registered plugins (s.destroyPlugin lp).loader ∧
      (s.destroyPlugin lp).loader.opened = s.loader.opened ∧
      ∃ events, (s.destroyPlugin lp).loader.trace = s.loader.trace ++ events ∧
        events.filterMap closedLib = lp.handle.toList := by
  have hmem : lp ∈ plugins ++ [lp] := by simp
  cases hh : lp.handle with
  | none =>
    have hsame : (s.destroyPlugin lp).loader = s.loader := by
      simp [PluginBridge.destroyPlugin, hh, h.remote lp hmem hh]
    rw [hsame]
    refine ⟨h.of_native ?_ fun u hu => Or.inl (List.mem_append_left _ hu), rfl, [],
      (List.append_nil _).symm, rfl⟩
    simp [LoadedPlugin.native, hh]
  | some k =>
    obtain ⟨hpath, -, lib, hl, hprovider⟩ := h.native lp hmem k hh
    have hlibs : s.loader.libs = plugins.filterMap LoadedPlugin.native ++ [(lp.path, k)] := by
      rw [h.libs, List.filterMap_append]
      simp [LoadedPlugin.native, hh]
    have hhandles := handles_of_libs hlibs
    have hk : k ∈ s.loader.handles :=
      hhandles ▸ List.mem_append_right _ (List.mem_singleton_self _)
    have hprov : ∀ r, (lp.provider r).isSome → s.loader.status (.provider k r) = .live := by
      rw [hprovider]
      exact h.intact k hk lib hl
    have hloader : (s.destroyPlugin lp).loader =
        (s.loader.call (destroyed k lp.provider)).unload lp.path := by
      simp [PluginBridge.destroyPlugin, hh, hpath]
    have hheld := h.held.destroy hk hprov
    have hset : ∀ lib, (s.loader.call (destroyed k lp.provider)).opened[k]? = some lib →
        Settled (s.loader.call (destroyed k lp.provider)).status k lib := by
      intro lib' hl' _ r p hp hd
      rw [show s.loader.opened[k]? = some lib' from hl'] at hl
      cases hl
      rw [status_call]
      exact destroyed_provider (hprovider ▸ hp) hd
    have hclosed := hheld.unload hlibs hset
    rw [hloader]
    rw [unload_last hheld hlibs] at hclosed ⊢
    refine ⟨⟨hclosed, ?_, rfl, fun u hu => h.native u (List.mem_append_left _ hu),
      fun u hu => h.remote u (List.mem_append_left _ hu)⟩, rfl,
      destroyed k lp.provider ++ [.release (.lib k)], List.append_assoc _ _ _, ?_⟩
    · intro h' hm lib' hl' r hr
      have hne : h' ≠ k := by
        have hnd : s.loader.handles.Nodup := hheld.handles
        rw [hhandles, ← List.concat_eq_append, List.nodup_concat] at hnd
        exact fun he => hnd.1 (he ▸ hm)
      have hold : h' ∈ s.loader.handles := hhandles ▸ List.mem_append_left _ hm
      have hstatus : NativeLoader.status
          { s.loader.call (destroyed k lp.provider) with
            libs := plugins.filterMap LoadedPlugin.native
            trace := (s.loader.call (destroyed k lp.provider)).trace ++ [.release (.lib k)] } =
          lifeAfter s.loader.status (destroyed k lp.provider ++ [.release (.lib k)]) := by
        unfold NativeLoader.status NativeLoader.call
        rw [lifeAfter_append, lifeAfter_append, lifeAfter_append]
      rw [hstatus, status_other (r := .provider h' r) (h := k) ?_ hne]
      · exact h.intact h' hold lib' hl' r hr
      · intro e he
        rcases List.mem_append.mp he with he | he
        · exact destroyed_handle e he
        · rw [List.mem_singleton.mp he]
          rfl
    · rw [List.filterMap_append, closedLib_destroyed]
      rfl

/-- The destructor's loop destroys the plugins and closes their libraries, the last first. -/
theorem registered_destroyAll (plugins : List LoadedPlugin) {s : PluginBridge}
    (h : Registered plugins s.loader) :
    Registered [] (plugins.reverse.foldl PluginBridge.destroyPlugin s).loader ∧
      (plugins.reverse.foldl PluginBridge.destroyPlugin s).loader.opened = s.loader.opened ∧
      ∃ events, (plugins.reverse.foldl PluginBridge.destroyPlugin s).loader.trace =
          s.loader.trace ++ events ∧
        events.filterMap closedLib = (plugins.filterMap LoadedPlugin.handle).reverse := by
  induction plugins using List.reverseRecOn generalizing s with
  | nil => exact ⟨h, rfl, [], (List.append_nil _).symm, rfl⟩
  | append_singleton plugins lp ih =>
    obtain ⟨hreg, hopened, events, htrace, hclosed⟩ := registered_destroyPlugin h
    obtain ⟨hreg', hopened', events', htrace', hclosed'⟩ := ih hreg
    rw [List.reverse_append, List.reverse_singleton, List.singleton_append, List.foldl_cons]
    refine ⟨hreg', hopened'.trans hopened, events ++ events', ?_, ?_⟩
    · rw [htrace', htrace, List.append_assoc]
    · rw [List.filterMap_append, hclosed, hclosed', List.filterMap_append, List.reverse_append]
      cases hh : lp.handle with
      | none => simp [hh]
      | some k => simp [hh]

/-- However the bridge has run before its destructor: every call into a library or a provider
    finds it alive; every library that was ever opened is closed exactly once; every provider
    that an initialised library handed out, with a `destroy`, is destroyed exactly once; and
    the destructor closes the open libraries in the reverse order of their loading. -/
theorem plugins_end_well (moves : List PluginBridge.Move) :
    let running := moves.foldl PluginBridge.step {}
    let ended := running.destructor
    Sound needs (fun _ => .fresh) ended.loader.trace ∧
      (∀ h lib, ended.loader.opened[h]? = some lib →
        ended.loader.trace.count (.release (.lib h)) = 1 ∧
          (lib.Initialised → ∀ r p, lib.provider r = some p → p.destroy = true →
            ended.loader.trace.count (.release (.provider h r)) = 1)) ∧
      ∃ events, ended.loader.trace = running.loader.trace ++ events ∧
        events.filterMap closedLib = running.loader.handles.reverse := by
  intro running ended
  have hreg := (running_run moves).registered
  obtain ⟨hend, hopened, events, htrace, hclosed⟩ := registered_destroyAll _ hreg
  have hnone : ∀ {s : NativeLoader}, Registered [] s → s.unloadAll = s := by
    intro s hs
    have hl : s.libs = [] := hs.libs
    unfold NativeLoader.unloadAll
    rw [hl]
    simp only [List.map_nil, List.append_nil]
    rw [← hl]
  have hloader : ended.loader =
      (running.loadedPlugins.reverse.foldl PluginBridge.destroyPlugin running).loader :=
    hnone hend
  have hlibs : ended.loader.libs = [] := by
    rw [hloader]
    exact hend.libs
  have hheld : Held ended.loader := hloader ▸ hend.held
  have hempty : ∀ h, h ∉ ended.loader.handles := by
    intro h hm
    unfold NativeLoader.handles at hm
    rw [hlibs] at hm
    cases hm
  have hone : ∀ r, ended.loader.status r = .gone →
      ended.loader.trace.count (.release r) = 1 := by
    intro r hr
    have hfresh : LifeStatus.fresh ≠ .gone := by simp
    have hpos := List.count_pos_iff.mpr (released_of_gone hfresh hr)
    have hle := hheld.sound.release_once r
    omega
  refine ⟨hheld.sound, ?_, events, hloader ▸ htrace, ?_⟩
  · intro h lib hl
    have hlt := (List.getElem?_eq_some_iff.mp hl).1
    refine ⟨hone _ (hheld.closed h hlt (hempty h)), ?_⟩
    intro hinit r p hp hd
    exact hone _ (hheld.settled h (hempty h) lib hl hinit r p hp hd)
  · rw [hclosed]
    unfold NativeLoader.handles
    rw [hreg.libs, List.map_filterMap]
    congr 1
    refine List.filterMap_congr ?_
    intro lp _
    cases hh : lp.handle <;> simp [LoadedPlugin.native, hh]

end TruellmEngine.Bridge.Native
