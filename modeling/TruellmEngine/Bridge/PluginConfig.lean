/-
  What plugins read of the configuration, through a cache that both readers share.

  `get_config` looks a setting up under the joined name of plugin and key, then under the key
  alone, and caches it under the joined name. `get_engine_config` reads only the cache. The
  answers are those without a cache exactly where no two calls that share a name differ
  (`answers_uncached_iff`). A dot in an id or a key is enough for that (`joined_names_collide`).
-/
import TruellmEngine.Lib.Memo
import Mathlib.Data.List.Pairwise

namespace TruellmEngine.Bridge.PluginConfig

open Lib

/-- The settings and the cache. -/
abbrev Table : Type := String → Option String

/-- A call of some plugin. -/
inductive Call
  | getConfig (pluginId key : String)
  | getEngineConfig (section_ key : String)

/-- The name under which a setting of a plugin is looked up and cached. -/
def qualified (pluginId key : String) : String :=
  if pluginId.isEmpty then key else pluginId ++ "." ++ key

def composite (section_ key : String) : String := section_ ++ "." ++ key

/-- The lookup of `get_config`: of the joined name, else of the key. -/
def lookup (settings : Table) (pluginId key : String) : Option String :=
  if key.isEmpty then none
  else
    match settings (qualified pluginId key) with
    | some value => some value
    | none => if pluginId.isEmpty then none else settings key

def getConfig (settings : Table) (pluginId key : String) (cache : Table) :
    Option String × Table :=
  match lookup settings pluginId key with
  | none => (none, cache)
  | some value =>
    (emplace (qualified pluginId key) value cache (qualified pluginId key),
      emplace (qualified pluginId key) value cache)

def getEngineConfig (section_ key : String) (cache : Table) : Option String :=
  cache (composite section_ key)

def call (settings : Table) (cache : Table) : Call → Option String × Table
  | .getConfig pluginId key => getConfig settings pluginId key cache
  | .getEngineConfig section_ key => (getEngineConfig section_ key cache, cache)

/-- The answers of a run of calls, of any plugins in any order. -/
def answersFrom (settings : Table) : Table → List Call → List (Option String)
  | _, [] => []
  | cache, c :: calls =>
    (call settings cache c).1 :: answersFrom settings (call settings cache c).2 calls

def answers (settings : Table) (calls : List Call) : List (Option String) :=
  answersFrom settings (fun _ => none) calls

/-- The answer that no call before can have changed. -/
def uncached (settings : Table) : Call → Option String
  | .getConfig pluginId key => lookup settings pluginId key
  | .getEngineConfig section_ key => getEngineConfig section_ key fun _ => none

/-- The earlier call does not show in the answer to the later one. -/
def Apart (settings : Table) : Call → Call → Prop
  | .getConfig pluginId key, .getConfig pluginId' key' =>
    qualified pluginId key = qualified pluginId' key' →
      ∀ value ∈ lookup settings pluginId key, ∀ value' ∈ lookup settings pluginId' key',
        value = value'
  | .getConfig pluginId key, .getEngineConfig section_ key' =>
    qualified pluginId key = composite section_ key' → lookup settings pluginId key = none
  | .getEngineConfig _ _, _ => True

/-- The cache does not show in the answer. -/
def Hidden (settings cache : Table) (c : Call) : Prop :=
  (call settings cache c).1 = uncached settings c

/-- The name and the value of a lookup, as a question for the cache. -/
def named (q : String × String) : String := qualified q.1 q.2

def found (settings : Table) (q : String × String) : Option String := lookup settings q.1 q.2

theorem getConfig_eq (settings : Table) (pluginId key : String) (cache : Table) :
    getConfig settings pluginId key cache =
      (answered named (found settings) (pluginId, key) cache,
        remember named (found settings) (pluginId, key) cache) := by
  unfold getConfig answered remember found
  cases lookup settings pluginId key with
  | none => rfl
  | some value => rfl

theorem hidden_getConfig {settings cache : Table} {pluginId key : String} :
    Hidden settings cache (.getConfig pluginId key) ↔
      Fits named (found settings) cache (pluginId, key) := by
  unfold Hidden call
  dsimp only
  rw [getConfig_eq]
  exact answered_eq_iff

/-- One call: the cache stays hidden from just the calls from which this one is apart. -/
theorem hidden_call {settings cache : Table} {c : Call} (hhidden : Hidden settings cache c)
    (later : Call) :
    Hidden settings (call settings cache c).2 later ↔
      Hidden settings cache later ∧ Apart settings c later := by
  cases c with
  | getEngineConfig section_ key => exact (and_iff_left trivial).symm
  | getConfig pluginId key =>
    have hfits := hidden_getConfig.mp hhidden
    unfold call
    dsimp only
    rw [getConfig_eq]
    cases later with
    | getConfig pluginId' key' =>
      rw [hidden_getConfig, hidden_getConfig]
      exact fits_remember hfits (pluginId', key')
    | getEngineConfig section_ key' => exact remember_eq_none

theorem answersFrom_uncached_iff {settings : Table} {calls : List Call} {cache : Table} :
    answersFrom settings cache calls = calls.map (uncached settings) ↔
      (∀ c ∈ calls, Hidden settings cache c) ∧ calls.Pairwise (Apart settings) := by
  induction calls generalizing cache with
  | nil => exact ⟨fun _ => ⟨List.forall_mem_nil _, .nil⟩, fun _ => rfl⟩
  | cons c calls ih =>
    rw [answersFrom, List.map_cons, List.cons.injEq, ih, List.forall_mem_cons,
      List.pairwise_cons]
    constructor
    · rintro ⟨hhidden, hcalls, hpairwise⟩
      have hlater := fun later hlater =>
        (hidden_call hhidden later).mp (hcalls later hlater)
      exact ⟨⟨hhidden, fun later h => (hlater later h).1⟩, fun later h => (hlater later h).2,
        hpairwise⟩
    · rintro ⟨⟨hhidden, hcalls⟩, hapart, hpairwise⟩
      exact ⟨hhidden, fun later h =>
        (hidden_call hhidden later).mpr ⟨hcalls later h, hapart later h⟩, hpairwise⟩

/-- The cache shows nowhere just if each two calls of the run are apart. -/
theorem answers_uncached_iff (settings : Table) (calls : List Call) :
    answers settings calls = calls.map (uncached settings) ↔ calls.Pairwise (Apart settings) := by
  refine answersFrom_uncached_iff.trans (and_iff_right fun c _ => ?_)
  cases c with
  | getEngineConfig section_ key => rfl
  | getConfig pluginId key =>
    exact hidden_getConfig.mpr fun v _ w hw => absurd hw (Option.not_mem_none w)

/-- Two global settings, one with a dot in its key. -/
def twoKeys : Table
  | "c" => some "1"
  | "b.c" => some "2"
  | _ => none

/-- The plugin `a.b` asks for `c` after the plugin `a` has asked for `b.c`. -/
theorem joined_names_collide :
    answers twoKeys [.getConfig "a" "b.c", .getConfig "a.b" "c", .getEngineConfig "a.b" "c"] ≠
      [Call.getConfig "a" "b.c", .getConfig "a.b" "c", .getEngineConfig "a.b" "c"].map
        (uncached twoKeys) := by
  decide

end TruellmEngine.Bridge.PluginConfig
