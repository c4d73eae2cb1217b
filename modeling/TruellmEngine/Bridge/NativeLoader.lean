/-
  Shared libraries with plugins, as `native_loader.cpp` opens and closes them.

  Every library that is opened gets a handle of its own; the providers it hands out live in
  its memory, so a call into a provider, its `destroy` included, is sound only while the
  library is open and the provider is not destroyed (`needs`). The trace records what the host
  does with libraries and providers. What a library does when it is opened is the outside:
  whether it opens, has an entry point and initialises, and which providers it hands out.

  `Held` is the invariant of the loader: the trace is sound, exactly the libraries of the table
  are open, the others are settled. `load_failed`: a failed load, whatever its reason, leaves
  nothing open. `load_ok`: a load that succeeds adds the library with its providers alive.
-/
import TruellmEngine.Engine.Interface
import TruellmEngine.Lib.Lifetime
import Mathlib.Data.List.Nodup

namespace TruellmEngine.Bridge.Native

open Lib

/-! ## Libraries -/

/-- `TRUELLM_ABI_VERSION` -/
def abiVersion : Nat := 1

inductive Role where
  | tool
  | preprocessor
  | generator
  deriving DecidableEq

def roles : List Role := [.tool, .preprocessor, .generator]

/-- What the host reads of a provider. `getTools` is the null pointer, or the names that the
    function gives, which may be a null array; `callback` says that the function the host calls
    for a request (`call_tool`, `preprocess`, `claims`) is not null. -/
structure Provider where
  abiVersion : Nat := 1
  pluginId : Option String
  pluginVersion : Option String := none
  priority : Int := 0
  getTools : Option (Option (List (Option String))) := none
  callback : Bool := true
  destroy : Bool := true

/-- What a library does when it is opened. -/
structure Library where
  opens : Bool := true
  hasInit : Bool := true
  initOk : Bool := true
  provider : Role → Option Provider

inductive Resource where
  | lib (handle : Nat)
  | provider (handle : Nat) (role : Role)
  deriving DecidableEq

def Resource.handle : Resource → Nat
  | .lib h | .provider h _ => h

/-- A provider lives in the memory of its library. -/
def needs : Resource → List Resource
  | .lib _ => []
  | .provider h _ => [.lib h]

/-- The providers that the entry point hands out. -/
def provided (h : Nat) (lib : Library) : List (LifeEvent Resource) :=
  (roles.filter fun r => (lib.provider r).isSome).map fun r => .acquire (.provider h r)

/-- `destroy` of each provider that has it, in the order tool, preprocessor, generator. -/
def destroyed (h : Nat) (provider : Role → Option Provider) : List (LifeEvent Resource) :=
  (roles.filter fun r => (provider r).any Provider.destroy).map fun r => .release (.provider h r)

def Library.abiOk (lib : Library) : Bool :=
  roles.all fun r => (lib.provider r).all fun p => p.abiVersion == Native.abiVersion

/-- `NativeLoader`: the open libraries by path. `opened` lists all libraries ever opened, by
    handle. -/
structure NativeLoader where
  libs : List (String × Nat) := []
  opened : List Library := []
  trace : List (LifeEvent Resource) := []

namespace NativeLoader

/-- The library is opened under the next handle, with these events. -/
def record (s : NativeLoader) (lib : Library) (events : List (LifeEvent Resource)) :
    NativeLoader :=
  { s with opened := s.opened ++ [lib], trace := s.trace ++ events }

/-- `NativeLoader::load` -/
def load (s : NativeLoader) (libPath : String) (lib : Library) : ErrorCode × NativeLoader :=
  let h := s.opened.length
  if libPath ∈ s.libs.map Prod.fst then (.invalidArgument, s)
  else if !lib.opens then (.ioError, s)
  else if !lib.hasInit then
    (.notFound, s.record lib [.acquire (.lib h), .release (.lib h)])
  else if !lib.initOk then
    (.pluginError, s.record lib [.acquire (.lib h), .use (.lib h), .release (.lib h)])
  else
    let init := [.acquire (.lib h), .use (.lib h)] ++ provided h lib
    if !lib.abiOk then
      (.invalidArgument, s.record lib (init ++ destroyed h lib.provider ++ [.release (.lib h)]))
    else
      let s := s.record lib init
      (.ok, { s with libs := s.libs ++ [(libPath, h)] })

/-- `NativeLoader::unload` -/
def unload (s : NativeLoader) (libPath : String) : NativeLoader :=
  match s.libs.find? fun e => e.1 = libPath with
  | none => s
  | some e =>
    { s with
      libs := s.libs.filter fun e => e.1 ≠ libPath
      trace := s.trace ++ [.release (.lib e.2)] }

/-- `NativeLoader::unload_all` -/
def unloadAll (s : NativeLoader) : NativeLoader :=
  { s with
    libs := []
    trace := s.trace ++ s.libs.map fun e => .release (.lib e.2) }

def call (s : NativeLoader) (events : List (LifeEvent Resource)) : NativeLoader :=
  { s with trace := s.trace ++ events }

end NativeLoader

/-! ## Events of one library -/

theorem mem_provided {h : Nat} {lib : Library} {e : LifeEvent Resource} :
    e ∈ provided h lib ↔ ∃ r, (lib.provider r).isSome ∧ e = .acquire (.provider h r) := by
  unfold provided roles
  constructor
  · intro he
    obtain ⟨r, hr, rfl⟩ := List.mem_map.mp he
    exact ⟨r, (List.mem_filter.mp hr).2, rfl⟩
  · rintro ⟨r, hr, rfl⟩
    refine List.mem_map_of_mem (List.mem_filter.mpr ⟨?_, hr⟩)
    cases r <;> decide

theorem mem_destroyed {h : Nat} {provider : Role → Option Provider} {e : LifeEvent Resource} :
    e ∈ destroyed h provider ↔
      ∃ r p, provider r = some p ∧ p.destroy = true ∧ e = .release (.provider h r) := by
  unfold destroyed roles
  constructor
  · intro he
    obtain ⟨r, hr, rfl⟩ := List.mem_map.mp he
    obtain ⟨p, hp, hd⟩ := (Option.any_eq_true _ _).mp (List.mem_filter.mp hr).2
    exact ⟨r, p, hp, hd, rfl⟩
  · rintro ⟨r, p, hp, hd, rfl⟩
    refine List.mem_map_of_mem (List.mem_filter.mpr ⟨?_, (Option.any_eq_true _ _).mpr ⟨p, hp, hd⟩⟩)
    cases r <;> decide

/-- Events on different providers of one library. -/
theorem nodup_resources {h : Nat} {rs : List Role} (hrs : rs.Nodup)
    (f : Resource → LifeEvent Resource) (hf : ∀ r, (f r).resource = r) :
    ((rs.map fun r => f (.provider h r)).map LifeEvent.resource).Nodup := by
  rw [List.map_map]
  refine hrs.map ?_
  intro a b hab
  simp only [Function.comp_apply, hf, Resource.provider.injEq, true_and] at hab
  exact hab

theorem nodup_roles (p : Role → Bool) : (roles.filter p).Nodup :=
  List.Nodup.filter _ (by decide)

section Events

variable {st : Resource → LifeStatus} {h : Nat}

/-- The host opens a library and calls its entry point. -/
theorem init_sound {lib : Library} (hst : ∀ r : Resource, r.handle = h → st r = .fresh) :
    Sound needs st ([.acquire (.lib h), .use (.lib h)] ++ provided h lib) := by
  have hprov : ∀ r, lifeAfter st [.acquire (.lib h), .use (.lib h)] (.provider h r) = .fresh := by
    intro r
    rw [lifeAfter_of_untouched (by simp [LifeEvent.resource])]
    exact hst _ rfl
  rw [sound_append]
  refine ⟨⟨⟨hst _ rfl, by simp [LifeEvent.resource, needs]⟩,
    ⟨if_pos rfl, by simp [LifeEvent.resource, needs]⟩, trivial⟩, ?_⟩
  refine sound_of_distinct ?_ ?_ ?_ ?_
  · exact nodup_resources (nodup_roles _) _ fun _ => rfl
  · intro e he
    obtain ⟨r, -, rfl⟩ := mem_provided.mp he
    exact hprov r
  · intro e he q hq
    obtain ⟨r, -, rfl⟩ := mem_provided.mp he
    rw [List.mem_singleton.mp hq]
    exact if_pos rfl
  · intro e he f hf hmem
    obtain ⟨r, -, rfl⟩ := mem_provided.mp he
    obtain ⟨r', -, rfl⟩ := mem_provided.mp hf
    cases List.mem_singleton.mp hmem

theorem init_lib {lib : Library} :
    lifeAfter st ([.acquire (.lib h), .use (.lib h)] ++ provided h lib) (.lib h) = .live := by
  refine lifeAfter_of_leaves (Or.inr ⟨.use (.lib h), by simp, rfl⟩) ?_
  intro e he _
  rcases List.mem_append.mp he with he | he
  · simp only [List.mem_cons, List.not_mem_nil, or_false] at he
    rcases he with rfl | rfl <;> rfl
  · obtain ⟨r, -, rfl⟩ := mem_provided.mp he
    rfl

theorem init_provider {lib : Library} {r : Role} (hr : (lib.provider r).isSome) :
    lifeAfter st ([.acquire (.lib h), .use (.lib h)] ++ provided h lib) (.provider h r) =
      .live := by
  refine lifeAfter_of_leaves (Or.inr ⟨_, List.mem_append_right _ (mem_provided.mpr ⟨r, hr, rfl⟩),
    rfl⟩) ?_
  intro e he _
  rcases List.mem_append.mp he with he | he
  · simp only [List.mem_cons, List.not_mem_nil, or_false] at he
    rcases he with rfl | rfl <;> rfl
  · obtain ⟨r', -, rfl⟩ := mem_provided.mp he
    rfl

/-- The host destroys the providers of an open library. -/
theorem destroyed_sound {provider : Role → Option Provider} (hlib : st (.lib h) = .live)
    (hprov : ∀ r, (provider r).isSome → st (.provider h r) = .live) :
    Sound needs st (destroyed h provider) := by
  refine sound_of_distinct ?_ ?_ ?_ ?_
  · exact nodup_resources (nodup_roles _) _ fun _ => rfl
  · intro e he
    obtain ⟨r, p, hp, -, rfl⟩ := mem_destroyed.mp he
    exact hprov r (by rw [hp]; rfl)
  · intro e he q hq
    obtain ⟨r, p, -, -, rfl⟩ := mem_destroyed.mp he
    rw [List.mem_singleton.mp hq]
    exact hlib
  · intro e he f hf hmem
    obtain ⟨r, p, -, -, rfl⟩ := mem_destroyed.mp he
    obtain ⟨r', p', -, -, rfl⟩ := mem_destroyed.mp hf
    cases List.mem_singleton.mp hmem

theorem destroyed_lib {provider : Role → Option Provider} :
    lifeAfter st (destroyed h provider) (.lib h) = st (.lib h) := by
  refine lifeAfter_of_untouched ?_
  intro e he
  obtain ⟨r, p, -, -, rfl⟩ := mem_destroyed.mp he
  exact fun heq => Resource.noConfusion heq

theorem destroyed_provider {provider : Role → Option Provider} {r : Role} {p : Provider}
    (hp : provider r = some p) (hd : p.destroy = true) :
    lifeAfter st (destroyed h provider) (.provider h r) = .gone := by
  refine lifeAfter_of_leaves (Or.inr ⟨_, mem_destroyed.mpr ⟨r, p, hp, hd, rfl⟩, rfl⟩) ?_
  intro e he _
  obtain ⟨r', p', -, -, rfl⟩ := mem_destroyed.mp he
  rfl

end Events

/-! ## The loader -/

def NativeLoader.status (s : NativeLoader) : Resource → LifeStatus :=
  lifeAfter (fun _ => .fresh) s.trace

def NativeLoader.handles (s : NativeLoader) : List Nat := s.libs.map Prod.snd

/-- The entry point of the library has returned ok. -/
def Library.Initialised (lib : Library) : Prop := lib.hasInit = true ∧ lib.initOk = true

/-- The providers of the library are destroyed, as far as they can be. -/
def Settled (st : Resource → LifeStatus) (h : Nat) (lib : Library) : Prop :=
  lib.Initialised → ∀ r p, lib.provider r = some p → p.destroy = true →
    st (.provider h r) = .gone

/-- The trace is sound, exactly the libraries of the table are open, and the others have been
    settled. -/
structure Held (s : NativeLoader) : Prop where
  sound : Sound needs (fun _ => .fresh) s.trace
  fresh : ∀ r : Resource, s.opened.length ≤ r.handle → s.status r = .fresh
  paths : (s.libs.map Prod.fst).Nodup
  handles : s.handles.Nodup
  bound : ∀ h ∈ s.handles, h < s.opened.length
  live : ∀ h ∈ s.handles, s.status (.lib h) = .live
  closed : ∀ h < s.opened.length, h ∉ s.handles → s.status (.lib h) = .gone
  settled : ∀ h ∉ s.handles, ∀ lib, s.opened[h]? = some lib → Settled s.status h lib

/-- The providers of an open library are alive. -/
def Intact (s : NativeLoader) (h : Nat) : Prop :=
  ∀ lib, s.opened[h]? = some lib → ∀ r, (lib.provider r).isSome →
    s.status (.provider h r) = .live

section Held

variable {s : NativeLoader} {events : List (LifeEvent Resource)}

theorem status_call : (s.call events).status = lifeAfter s.status events := lifeAfter_append

theorem held_empty : Held {} := by
  refine ⟨trivial, fun _ _ => rfl, List.nodup_nil, List.nodup_nil, ?_, ?_, ?_, ?_⟩
  · simp [NativeLoader.handles]
  · simp [NativeLoader.handles]
  · intro h hlt
    cases hlt
  · intro h _ lib hl
    cases hl

/-- Events about one handle leave the statuses of the others. -/
theorem status_other {h : Nat} (hev : ∀ e ∈ events, e.resource.handle = h) {r : Resource}
    (hr : r.handle ≠ h) : lifeAfter s.status events r = s.status r :=
  lifeAfter_of_untouched fun e he heq => hr (heq ▸ hev e he)

theorem getElem?_opened {lib lib' : Library} {h : Nat}
    (hl : (s.opened ++ [lib])[h]? = some lib') :
    (h < s.opened.length ∧ s.opened[h]? = some lib') ∨ (h = s.opened.length ∧ lib' = lib) := by
  rcases Nat.lt_or_ge h s.opened.length with hlt | hge
  · rw [List.getElem?_append_left hlt] at hl
    exact Or.inl ⟨hlt, hl⟩
  · have hlen := (List.getElem?_eq_some_iff.mp hl).1
    rw [List.length_append, List.length_singleton] at hlen
    have hh : h = s.opened.length := by omega
    rw [hh, List.getElem?_concat_length] at hl
    exact Or.inr ⟨hh, (Option.some.inj hl).symm⟩

/-- A library that is opened and closed again. -/
theorem Held.add_closed (hs : Held s) {lib : Library}
    (hev : ∀ e ∈ events, e.resource.handle = s.opened.length)
    (hsound : Sound needs s.status events)
    (hlib : lifeAfter s.status events (.lib s.opened.length) = .gone)
    (hset : Settled (lifeAfter s.status events) s.opened.length lib) :
    Held (s.record lib events) := by
  have hstatus : (s.record lib events).status = lifeAfter s.status events := lifeAfter_append
  have hother : ∀ r : Resource, r.handle ≠ s.opened.length →
      (s.record lib events).status r = s.status r := fun r hr => by
    rw [hstatus, status_other hev hr]
  have hlen : (s.record lib events).opened.length = s.opened.length + 1 := List.length_append
  refine ⟨sound_append.mpr ⟨hs.sound, hsound⟩, ?_, hs.paths, hs.handles, ?_, ?_, ?_, ?_⟩
  · intro r hr
    rw [hlen] at hr
    rw [hother r (by omega)]
    exact hs.fresh r (by omega)
  · intro h hm
    have := hs.bound h hm
    omega
  · intro h hm
    rw [hother (.lib h) (Nat.ne_of_lt (hs.bound h hm))]
    exact hs.live h hm
  · intro h hlt hm
    by_cases hh : h = s.opened.length
    · rw [hh, hstatus]
      exact hlib
    · rw [hother (.lib h) hh]
      exact hs.closed h (by omega) hm
  · intro h hm lib' hl
    rcases getElem?_opened hl with ⟨hlt, hl⟩ | ⟨rfl, rfl⟩
    · intro hinit r p hp hd
      rw [hother (.provider h r) (Nat.ne_of_lt hlt)]
      exact hs.settled h hm lib' hl hinit r p hp hd
    · rw [hstatus]
      exact hset

/-- A library that is opened and stays open, under a path of its own. -/
theorem Held.add_open (hs : Held s) {lib : Library} {path : String}
    (hpath : path ∉ s.libs.map Prod.fst)
    (hev : ∀ e ∈ events, e.resource.handle = s.opened.length)
    (hsound : Sound needs s.status events)
    (hlib : lifeAfter s.status events (.lib s.opened.length) = .live) :
    Held { s.record lib events with libs := s.libs ++ [(path, s.opened.length)] } := by
  have hstatus : NativeLoader.status
      { s.record lib events with libs := s.libs ++ [(path, s.opened.length)] } =
      lifeAfter s.status events := lifeAfter_append
  have hother : ∀ r : Resource, r.handle ≠ s.opened.length →
      lifeAfter s.status events r = s.status r := fun r hr => status_other hev hr
  have hnew : s.opened.length ∉ s.handles := fun hm => absurd (hs.bound _ hm) (Nat.lt_irrefl _)
  have hhandles : NativeLoader.handles
      { s.record lib events with libs := s.libs ++ [(path, s.opened.length)] } =
      s.handles ++ [s.opened.length] := List.map_append
  have hlen : (s.record lib events).opened.length = s.opened.length + 1 := List.length_append
  refine ⟨sound_append.mpr ⟨hs.sound, hsound⟩, ?_, ?_, ?_, ?_, ?_, ?_, ?_⟩
  · intro r hr
    dsimp only at hr
    rw [hlen] at hr
    rw [hstatus, hother r (by omega)]
    exact hs.fresh r (by omega)
  · rw [List.map_append, List.map_singleton, ← List.concat_eq_append]
    exact hs.paths.concat hpath
  · rw [hhandles, ← List.concat_eq_append]
    exact hs.handles.concat hnew
  · intro h hm
    rw [hhandles] at hm
    dsimp only
    rw [hlen]
    rcases List.mem_append.mp hm with hm | hm
    · have := hs.bound h hm
      omega
    · rw [List.mem_singleton.mp hm]
      exact Nat.lt_succ_self _
  · intro h hm
    rw [hhandles] at hm
    rw [hstatus]
    rcases List.mem_append.mp hm with hm | hm
    · rw [hother (.lib h) (Nat.ne_of_lt (hs.bound h hm))]
      exact hs.live h hm
    · rw [List.mem_singleton.mp hm]
      exact hlib
  · intro h hlt hm
    rw [hhandles, List.mem_append, List.mem_singleton, not_or] at hm
    dsimp only at hlt
    rw [hlen] at hlt
    rw [hstatus, hother (.lib h) hm.2]
    exact hs.closed h (by omega) hm.1
  · intro h hm lib' hl hinit r p hp hd
    rw [hhandles, List.mem_append, List.mem_singleton, not_or] at hm
    rcases getElem?_opened hl with ⟨hlt, hl⟩ | ⟨rfl, -⟩
    · rw [hstatus, hother (.provider h r) (Nat.ne_of_lt hlt)]
      exact hs.settled h hm.1 lib' hl hinit r p hp hd
    · exact absurd rfl hm.2

/-- Calls into live providers of open libraries change nothing but the trace. -/
theorem Held.call (hs : Held s)
    (hev : ∀ e ∈ events, ∃ r, e = .use r ∧ s.status r = .live ∧
      ∀ q ∈ needs r, s.status q = .live) :
    Held (s.call events) ∧ (s.call events).status = s.status := by
  obtain ⟨hsound, hafter⟩ := sound_uses hev
  have hstatus : (s.call events).status = s.status := status_call.trans hafter
  refine ⟨⟨sound_append.mpr ⟨hs.sound, hsound⟩, ?_, hs.paths, hs.handles, hs.bound, ?_, ?_, ?_⟩,
    hstatus⟩
  · rw [hstatus]
    exact hs.fresh
  · rw [hstatus]
    exact hs.live
  · rw [hstatus]
    exact hs.closed
  · rw [hstatus]
    exact hs.settled

end Held

/-! ## Loading -/

theorem init_handle {h : Nat} {lib : Library} :
    ∀ e ∈ [.acquire (.lib h), .use (.lib h)] ++ provided h lib, e.resource.handle = h := by
  intro e he
  rcases List.mem_append.mp he with he | he
  · simp only [List.mem_cons, List.not_mem_nil, or_false] at he
    rcases he with rfl | rfl <;> rfl
  · obtain ⟨r, -, rfl⟩ := mem_provided.mp he
    rfl

theorem destroyed_handle {h : Nat} {provider : Role → Option Provider} :
    ∀ e ∈ destroyed h provider, e.resource.handle = h := by
  intro e he
  obtain ⟨r, p, -, -, rfl⟩ := mem_destroyed.mp he
  rfl

/-- A load that fails leaves no library open and the table as it was. -/
theorem load_failed {s : NativeLoader} (hs : Held s) {path : String} {lib : Library}
    (hrc : (s.load path lib).1 ≠ .ok) :
    Held (s.load path lib).2 ∧ (s.load path lib).2.libs = s.libs ∧
      s.opened <+: (s.load path lib).2.opened ∧
      ∀ r : Resource, r.handle < s.opened.length →
        (s.load path lib).2.status r = s.status r := by
  have hfresh : ∀ r : Resource, r.handle = s.opened.length → s.status r = .fresh :=
    fun r hr => hs.fresh r (by omega)
  have hadd : ∀ {events : List (LifeEvent Resource)},
      (∀ e ∈ events, e.resource.handle = s.opened.length) → Held (s.record lib events) →
      Held (s.record lib events) ∧ (s.record lib events).libs = s.libs ∧
        s.opened <+: (s.record lib events).opened ∧
        ∀ r : Resource, r.handle < s.opened.length →
          (s.record lib events).status r = s.status r := by
    intro events hev hheld
    refine ⟨hheld, rfl, List.prefix_append _ _, ?_⟩
    intro r hr
    exact (congrFun lifeAfter_append r).trans (status_other hev (Nat.ne_of_lt hr))
  unfold NativeLoader.load at hrc ⊢
  dsimp only at hrc ⊢
  split
  · exact ⟨hs, rfl, List.prefix_refl _, fun _ _ => rfl⟩
  · split
    · exact ⟨hs, rfl, List.prefix_refl _, fun _ _ => rfl⟩
    · split
      · rename_i hinit
        have hev : ∀ e ∈ [LifeEvent.acquire (Resource.lib s.opened.length),
            .release (.lib s.opened.length)], e.resource.handle = s.opened.length := by
          simp [LifeEvent.resource, Resource.handle]
        refine hadd hev (hs.add_closed hev ?_ ?_ ?_)
        · exact ⟨⟨hfresh _ rfl, by simp [LifeEvent.resource, needs]⟩,
            ⟨if_pos rfl, by simp [LifeEvent.resource, needs]⟩, trivial⟩
        · exact if_pos rfl
        · intro hi
          rw [hi.1] at hinit
          cases hinit
      · split
        · rename_i hinit
          have hev : ∀ e ∈ [LifeEvent.acquire (Resource.lib s.opened.length),
              .use (.lib s.opened.length), .release (.lib s.opened.length)],
              e.resource.handle = s.opened.length := by
            simp [LifeEvent.resource, Resource.handle]
          refine hadd hev (hs.add_closed hev ?_ ?_ ?_)
          · exact ⟨⟨hfresh _ rfl, by simp [LifeEvent.resource, needs]⟩,
              ⟨if_pos rfl, by simp [LifeEvent.resource, needs]⟩,
              ⟨if_pos rfl, by simp [LifeEvent.resource, needs]⟩, trivial⟩
          · exact if_pos rfl
          · intro hi
            rw [hi.2] at hinit
            cases hinit
        · split
          · -- a provider of another version: all of them are destroyed
            have hev : ∀ e ∈ [.acquire (.lib s.opened.length), .use (.lib s.opened.length)] ++
                provided s.opened.length lib ++ destroyed s.opened.length lib.provider ++
                [.release (.lib s.opened.length)], e.resource.handle = s.opened.length := by
              intro e he
              rcases List.mem_append.mp he with he | he
              · rcases List.mem_append.mp he with he | he
                · exact init_handle e he
                · exact destroyed_handle e he
              · rw [List.mem_singleton.mp he]
                rfl
            refine hadd hev (hs.add_closed hev ?_ ?_ ?_)
            · refine sound_append.mpr ⟨sound_append.mpr ⟨init_sound hfresh, ?_⟩, ?_⟩
              · exact destroyed_sound init_lib fun r hr => init_provider hr
              · rw [lifeAfter_append]
                exact ⟨⟨destroyed_lib.trans init_lib, by simp [LifeEvent.resource, needs]⟩,
                  trivial⟩
            · rw [lifeAfter_append]
              exact if_pos rfl
            · intro _ r p hp hd
              rw [lifeAfter_append, lifeAfter_of_untouched (by simp [LifeEvent.resource]),
                lifeAfter_append]
              exact destroyed_provider hp hd
          · rename_i h1 h2 h3 h4 h5
            simp [h1, h2, h3, h4, h5] at hrc

/-- A load that succeeds opens the library under its path, with its providers alive. -/
theorem load_ok {s : NativeLoader} (hs : Held s) {path : String} {lib : Library}
    (hrc : (s.load path lib).1 = .ok) :
    Held (s.load path lib).2 ∧
      (s.load path lib).2.libs = s.libs ++ [(path, s.opened.length)] ∧
      (s.load path lib).2.opened = s.opened ++ [lib] ∧
      (∀ r : Resource, r.handle < s.opened.length →
        (s.load path lib).2.status r = s.status r) ∧
      ∀ r, (lib.provider r).isSome →
        (s.load path lib).2.status (.provider s.opened.length r) = .live := by
  have hfresh : ∀ r : Resource, r.handle = s.opened.length → s.status r = .fresh :=
    fun r hr => hs.fresh r (by omega)
  unfold NativeLoader.load at hrc ⊢
  dsimp only at hrc ⊢
  split
  · rename_i h
    simp [h] at hrc
  · rename_i hpath
    split
    · rename_i h
      simp [hpath, h] at hrc
    · split
      · rename_i h1 h2
        simp [hpath, h1, h2] at hrc
      · split
        · rename_i h1 h2 h3
          simp [hpath, h1, h2, h3] at hrc
        · split
          · rename_i h1 h2 h3 h4
            simp [hpath, h1, h2, h3, h4] at hrc
          · refine ⟨hs.add_open hpath init_handle (init_sound hfresh) init_lib, rfl, rfl, ?_, ?_⟩
            · intro r hr
              exact (congrFun lifeAfter_append r).trans
                (status_other init_handle (Nat.ne_of_lt hr))
            · intro r hr
              exact (congrFun lifeAfter_append _).trans (init_provider hr)

end TruellmEngine.Bridge.Native
