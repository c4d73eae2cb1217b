/-
  The tools of the sidecars: what announces, ends of processes and restarts do to the remote
  entries of the tool registry and to the list of loaded plugins.

  A process has one connection, and its number goes with every entry that calls through its
  client; a restart starts a new one. Each connection remembers here what was announced over
  it last. An announce with a field of the wrong type ends the process, so no state follows
  it. An announce, an exit and a restart look for their session where it was when it was
  started, and read the client and the runtime there. Where the vector of the sessions has
  grown since, they look in freed memory (`lost`).

  Nothing but the restart removes entries, and it goes by the runtime named in the announce
  and by plugin ids. `owned_iff`: the entries are those of the live connections along exactly
  the runs in which each connection announces at most once, none ends with tools, no restart
  finds a plugin to clean up, and none of them loses its session (`KeepsOwn`).
-/
import TruellmEngine.Bridge.Announce
import TruellmEngine.Bridge.SidecarSessions
import TruellmEngine.Lib.Run

namespace TruellmEngine.Bridge

open Lib Json

/-- A remote entry of the registry: it calls `qname` through the client of a process, or
    through a null pointer. -/
structure RemoteEntry where
  pluginId : String
  toolName : String
  schemaJson : String
  qname : String
  client : Option Nat
deriving DecidableEq

/-- `register_remote` of a tool; one without a plugin id or a name is dropped. -/
def registerRemote (pluginId : String) (client : Option Nat) (tool : RemoteTool) :
    Option RemoteEntry :=
  if pluginId = "" ∨ tool.toolName = "" then none
  else some {
    pluginId := pluginId
    toolName := tool.toolName
    schemaJson := if tool.schemaJson = "" then "{}" else tool.schemaJson
    qname := tool.qname
    client := client }

/-- What an announce registers. -/
def announcedEntries (client : Option Nat) (plugins : List LoadedPlugin) : List RemoteEntry :=
  plugins.flatMap fun lp => lp.tools.filterMap (registerRemote lp.pluginId client)

inductive ConnectionStage where
  | live
  | ended
  | restarted
deriving DecidableEq

structure SidecarConnection where
  stage : ConnectionStage := .live
  /-- The tools of its last announce. -/
  announced : List RemoteEntry := []

structure SidecarTools where
  sessions : SidecarSessions := .empty
  connections : List SidecarConnection := []
  remoteEntries : List RemoteEntry := []
  loadedPlugins : List LoadedPlugin := []
  /-- A callback or a restart has followed a pointer to freed memory. -/
  lost : Bool := false

/-- The runtime that `restart_sidecar` looks for in the loaded plugins. -/
def SidecarRuntime.announcedAs : SidecarRuntime → String
  | .python => "python"
  | .javaScript => "js"

namespace SidecarTools

inductive Move where
  /-- The sidecar of a plugin directory is started; if it is launched, it connects. -/
  | start (pluginDir : String) (runtime : SidecarRuntime) (launched : Bool)
  | announce (i : Nat) (announce : Json)
  /-- A process ends, and its connection with it. -/
  | exit (i : Nat)
  /-- `restart_sidecar` of the session of a process that has ended. -/
  | restart (i : Nat) (launched : Bool)

/-- The message has an array of plugins; others are dropped. -/
def hasPlugins (announce : Json) : Bool := (announce.field? "plugins").any Json.isArray

/-- `on_sidecar_announce`: the tools call through the client that the session has. -/
def announceFrom (s : SidecarTools) (i : Nat) (connection : SidecarConnection)
    (client : Option Nat) (plugins : List LoadedPlugin) : SidecarTools :=
  { s with
    connections := s.connections.set i
      { connection with announced := announcedEntries client plugins }
    remoteEntries := s.remoteEntries ++ announcedEntries client plugins
    loadedPlugins := s.loadedPlugins ++ plugins }

/-- A loaded plugin of this id names the runtime. -/
def Cleans (s : SidecarTools) (runtime : SidecarRuntime) (pluginId : String) : Prop :=
  ∃ lp ∈ s.loadedPlugins, lp.runtime = runtime.announcedAs ∧ lp.pluginId = pluginId

instance (s : SidecarTools) (runtime : SidecarRuntime) (pluginId : String) :
    Decidable (s.Cleans runtime pluginId) :=
  inferInstanceAs (Decidable (∃ lp ∈ s.loadedPlugins, _))

/-- The clean-up of `restart_sidecar`. -/
def cleanUp (s : SidecarTools) (runtime : SidecarRuntime) : SidecarTools :=
  { s with
    remoteEntries := s.remoteEntries.filter fun e => ¬ s.Cleans runtime e.pluginId
    loadedPlugins := s.loadedPlugins.filter fun lp => lp.runtime ≠ runtime.announcedAs }

/-- `start_sidecar` -/
def connect (grow : Nat → Nat) (s : SidecarTools) (pluginDir : String)
    (runtime : SidecarRuntime) (launched : Bool) : SidecarTools :=
  let sess : SidecarSession :=
    { pluginDir := pluginDir, runtime := runtime, client := some s.connections.length }
  { s with
    sessions := s.sessions.start sess grow launched
    connections := if launched then s.connections ++ [{}] else s.connections }

def setStage (s : SidecarTools) (i : Nat) (connection : SidecarConnection)
    (stage : ConnectionStage) : SidecarTools :=
  { s with connections := s.connections.set i { connection with stage := stage } }

/-- The head of `restart_sidecar`: the client of the session is destroyed, and its tools are
    cleaned up. -/
def tearDown (s : SidecarTools) (i : Nat) (connection : SidecarConnection)
    (sess : SidecarSession) : SidecarTools :=
  { (s.cleanUp sess.runtime).setStage i connection .restarted with
    sessions := s.sessions.update i { sess with client := none, ready := false } }

/-- `restart_sidecar`, which ends with a look at the old session. -/
def restartFrom (grow : Nat → Nat) (s : SidecarTools) (i : Nat) (connection : SidecarConnection)
    (sess : SidecarSession) (launched : Bool) : SidecarTools :=
  let started := (s.tearDown i connection sess).connect grow sess.pluginDir sess.runtime launched
  { started with lost := started.lost || (started.sessions.find? i).isNone }

def step (grow : Nat → Nat) (text : JsonText) (s : SidecarTools) : Move → Option SidecarTools
  | .start pluginDir runtime launched => some (s.connect grow pluginDir runtime launched)
  | .announce i announce =>
    s.connections[i]?.bind fun connection =>
      if connection.stage = .live then
        match s.sessions.find? i with
        | none => some { s with lost := true }
        | some sess =>
          match onSidecarAnnounce text announce with
          | .error _ => none
          | .ok plugins =>
            if hasPlugins announce then some (s.announceFrom i connection sess.client plugins)
            else some s
      else none
  | .exit i =>
    s.connections[i]?.bind fun connection =>
      if connection.stage = .live then
        match s.sessions.find? i with
        | none => some { s with lost := true }
        | some _ => some (s.setStage i connection .ended)
      else none
  | .restart i launched =>
    s.connections[i]?.bind fun connection =>
      if connection.stage = .ended then
        match s.sessions.find? i with
        | none => some { s with lost := true }
        | some sess => some (s.restartFrom grow i connection sess launched)
      else none

def entryKey (e : RemoteEntry) : Option Nat × String × String := (e.client, e.pluginId, e.toolName)

/-- The tool was last announced over a live connection, and calls through its client. -/
def OfLive (s : SidecarTools) (e : RemoteEntry) : Prop :=
  ∃ (i : Nat) (connection : SidecarConnection), s.connections[i]? = some connection ∧
    connection.stage = .live ∧ e ∈ connection.announced ∧ e.client = some i

/-- No session has been lost. The remote entries are the tools last announced over the live
    connections, each calling through its connection, and no tool of a connection is there
    twice. -/
structure Owned (s : SidecarTools) : Prop where
  kept : s.lost = false
  exact : ∀ e, e ∈ s.remoteEntries ↔ s.OfLive e
  once : (s.remoteEntries.map entryKey).Nodup

/-- An announce, an exit and a restart find their session, and the restart moves none. A
    connection announces its tools only while it has none, and none of them twice; it ends
    without tools; a restart finds no entry to clean up. -/
def KeepsOwn (text : JsonText) (s : SidecarTools) : Move → Prop
  | .start .. => True
  | .announce i announce => (s.sessions.find? i).isSome ∧
      ∀ connection ∈ s.connections[i]?, ∀ plugins,
        onSidecarAnnounce text announce = .ok plugins → hasPlugins announce = true →
          connection.announced = [] ∧ ((announcedEntries (some i) plugins).map entryKey).Nodup
  | .exit i => (s.sessions.find? i).isSome ∧
      ∀ connection ∈ s.connections[i]?, connection.announced = []
  | .restart i _ => (s.sessions.find? i).isSome ∧ s.sessions.HasRoom ∧
      ∀ sess ∈ s.sessions.find? i, ∀ e ∈ s.remoteEntries, ¬ s.Cleans sess.runtime e.pluginId

/-- The entries of an announce go through the connection it came over, and the session of a
    live connection has its client. -/
structure Wired (s : SidecarTools) : Prop where
  length : s.connections.length = s.sessions.callbacks.length
  announced : ∀ (i : Nat) (connection : SidecarConnection), s.connections[i]? = some connection →
    ∀ e ∈ connection.announced, e.client = some i
  client : ∀ (i : Nat) (connection : SidecarConnection), s.connections[i]? = some connection →
    connection.stage = .live → ∀ sess ∈ s.sessions.find? i, sess.client = some i

variable {grow : Nat → Nat} {text : JsonText} {s t : SidecarTools} {i : Nat}
  {connection : SidecarConnection} {sess : SidecarSession} {plugins : List LoadedPlugin}

theorem client_of_mem_announcedEntries {client : Option Nat} {e : RemoteEntry}
    (h : e ∈ announcedEntries client plugins) : e.client = client := by
  obtain ⟨lp, -, hlp⟩ := List.mem_flatMap.mp h
  obtain ⟨tool, -, htool⟩ := List.mem_filterMap.mp hlp
  unfold registerRemote at htool
  split at htool
  · cases htool
  · cases htool
    rfl

/-- Connection `i` behind a change is the new one. -/
theorem of_getElem?_set {xs : List SidecarConnection} {j : Nat} {new other : SidecarConnection}
    (h : (xs.set i new)[j]? = some other) : i = j ∧ other = new ∨ i ≠ j ∧ xs[j]? = some other := by
  by_cases hij : i = j
  · subst hij
    rw [List.getElem?_set_self'] at h
    obtain ⟨_, -, hnew⟩ := Option.map_eq_some_iff.mp h
    exact Or.inl ⟨rfl, hnew.symm⟩
  · exact Or.inr ⟨hij, (List.getElem?_set_ne hij).symm.trans h⟩

/-! ## The wiring -/

theorem Wired.start (h : s.Wired) (pluginDir : String) (runtime : SidecarRuntime)
    (launched : Bool) : (s.connect grow pluginDir runtime launched).Wired := by
  have hfind : ∀ j < s.connections.length, ∀ sess ∈ (s.connect grow pluginDir runtime
      launched).sessions.find? j, sess ∈ s.sessions.find? j := by
    intro j hj sess hsess
    have hsess : (s.sessions.start _ grow launched).find? j = some sess := hsess
    rw [SidecarSessions.find?_start (h.length ▸ hj)] at hsess
    split at hsess
    · exact hsess
    · cases hsess
  cases launched with
  | false =>
    refine ⟨h.length.trans (SidecarSessions.length_start false).symm, h.announced, ?_⟩
    intro j other hj hlive sess hsess
    exact h.client j other hj hlive sess (hfind j (List.getElem?_eq_some_iff.mp hj).1 sess hsess)
  | true =>
    refine ⟨?_, ?_, ?_⟩
    · show (s.connections ++ [_]).length = _
      rw [List.length_append, h.length]
      exact (SidecarSessions.length_start true).symm
    · intro j other hj e he
      rcases of_getElem?_concat hj with hj | ⟨-, rfl⟩
      · exact h.announced j other hj e he
      · cases he
    · intro j other hj hlive sess hsess
      rcases of_getElem?_concat hj with hj | ⟨rfl, -⟩
      · exact h.client j other hj hlive sess
          (hfind j (List.getElem?_eq_some_iff.mp hj).1 sess hsess)
      · have hsess : (s.sessions.start _ grow true).find? s.connections.length = some sess := hsess
        rw [h.length, SidecarSessions.find?_start_self] at hsess
        cases hsess
        rw [h.length]

theorem Wired.setStage (h : s.Wired) (hi : s.connections[i]? = some connection)
    {stage : ConnectionStage} (hstage : stage ≠ .live) :
    (s.setStage i connection stage).Wired := by
  refine ⟨(List.length_set ..).trans h.length, ?_, ?_⟩
  · intro j other hj
    rcases of_getElem?_set hj with ⟨rfl, rfl⟩ | ⟨-, hj⟩
    · exact h.announced i connection hi
    · exact h.announced j other hj
  · intro j other hj hlive
    rcases of_getElem?_set hj with ⟨rfl, rfl⟩ | ⟨-, hj⟩
    · exact absurd hlive hstage
    · exact h.client j other hj hlive

theorem Wired.announceFrom (h : s.Wired) (hi : s.connections[i]? = some connection) :
    (s.announceFrom i connection (some i) plugins).Wired := by
  refine ⟨(List.length_set ..).trans h.length, ?_, ?_⟩
  · intro j other hj
    rcases of_getElem?_set hj with ⟨rfl, rfl⟩ | ⟨-, hj⟩
    · exact fun e he => client_of_mem_announcedEntries he
    · exact h.announced j other hj
  · intro j other hj hlive
    rcases of_getElem?_set hj with ⟨rfl, rfl⟩ | ⟨-, hj⟩
    · exact h.client i connection hi hlive
    · exact h.client j other hj hlive

theorem Wired.tearDown (h : s.Wired) (hi : s.connections[i]? = some connection) :
    (s.tearDown i connection sess).Wired := by
  have hset : (s.setStage i connection .restarted).Wired := h.setStage hi (by decide)
  refine ⟨hset.length.trans (congrArg List.length SidecarSessions.callbacks_update.symm),
    hset.announced, ?_⟩
  intro j other hj hlive x hx
  have hij : i ≠ j := by
    rintro rfl
    rcases of_getElem?_set hj with ⟨-, rfl⟩ | ⟨hne, -⟩
    · cases hlive
    · exact hne rfl
  have hx : (s.sessions.update i _).find? j = some x := hx
  rw [SidecarSessions.find?_update_ne hij] at hx
  exact hset.client j other hj hlive x hx

/-- What a step keeps, also where the entries are no longer right. -/
theorem Wired.restartFrom (h : s.Wired) (hi : s.connections[i]? = some connection)
    (launched : Bool) : (s.restartFrom grow i connection sess launched).Wired := by
  have hstart : ((s.tearDown i connection sess).connect grow sess.pluginDir sess.runtime
      launched).Wired := (h.tearDown hi).start _ _ _
  exact ⟨hstart.length, hstart.announced, hstart.client⟩

theorem Wired.lost (h : s.Wired) : ({ s with lost := true } : SidecarTools).Wired :=
  ⟨h.length, h.announced, h.client⟩

theorem Wired.step {m : Move} (h : s.Wired) (hstep : s.step grow text m = some t) : t.Wired := by
  cases m with
  | start pluginDir runtime launched =>
    cases hstep
    exact h.start pluginDir runtime launched
  | announce i announce =>
    obtain ⟨connection, hi, hcase⟩ := Option.bind_eq_some_iff.mp hstep
    split at hcase
    · rename_i hlive
      split at hcase
      · cases hcase
        exact h.lost
      · rename_i sess hsess
        split at hcase
        · cases hcase
        · rw [h.client i connection hi hlive sess hsess] at hcase
          split at hcase
          · cases hcase
            exact h.announceFrom hi
          · cases hcase
            exact h
    · cases hcase
  | exit i =>
    obtain ⟨connection, hi, hcase⟩ := Option.bind_eq_some_iff.mp hstep
    split at hcase
    · split at hcase
      · cases hcase
        exact h.lost
      · cases hcase
        exact h.setStage hi (by decide)
    · cases hcase
  | restart i launched =>
    obtain ⟨connection, hi, hcase⟩ := Option.bind_eq_some_iff.mp hstep
    split at hcase
    · split at hcase
      · cases hcase
        exact h.lost
      · cases hcase
        exact h.restartFrom hi launched
    · cases hcase

/-! ## The steps that keep the entries -/

/-- A new connection has announced nothing. -/
theorem ofLive_connect_iff {pluginDir : String} {runtime : SidecarRuntime} {launched : Bool}
    {e : RemoteEntry} : (s.connect grow pluginDir runtime launched).OfLive e ↔ s.OfLive e := by
  cases launched with
  | false => exact Iff.rfl
  | true =>
    constructor
    · rintro ⟨j, other, hj, hlive, hmem, hclient⟩
      rcases of_getElem?_concat hj with hj | ⟨-, rfl⟩
      · exact ⟨j, other, hj, hlive, hmem, hclient⟩
      · cases hmem
    · rintro ⟨j, other, hj, hrest⟩
      have hlt : j < s.connections.length := (List.getElem?_eq_some_iff.mp hj).1
      exact ⟨j, other, (List.getElem?_append_left hlt).trans hj, hrest⟩

/-- A connection without tools, or one that was not live, stops being live. -/
theorem ofLive_setStage_iff (hi : s.connections[i]? = some connection) {stage : ConnectionStage}
    (hnew : stage ≠ .live) (hold : connection.stage = .live → connection.announced = [])
    {e : RemoteEntry} : (s.setStage i connection stage).OfLive e ↔ s.OfLive e := by
  have hlt : i < s.connections.length := (List.getElem?_eq_some_iff.mp hi).1
  constructor
  · rintro ⟨j, other, hj, hlive, hrest⟩
    rcases of_getElem?_set hj with ⟨rfl, rfl⟩ | ⟨-, hj⟩
    · exact absurd hlive hnew
    · exact ⟨j, other, hj, hlive, hrest⟩
  · rintro ⟨j, other, hj, hlive, hmem, hclient⟩
    have hij : i ≠ j := by
      rintro rfl
      rw [hi] at hj
      cases hj
      rw [hold hlive] at hmem
      cases hmem
    exact ⟨j, other, (List.getElem?_set_ne hij).trans hj, hlive, hmem, hclient⟩

theorem owned_connect_iff {pluginDir : String} {runtime : SidecarRuntime} {launched : Bool} :
    (s.connect grow pluginDir runtime launched).Owned ↔ s.Owned :=
  ⟨fun h => ⟨h.kept, fun e => (h.exact e).trans ofLive_connect_iff, h.once⟩,
    fun h => ⟨h.kept, fun e => (h.exact e).trans ofLive_connect_iff.symm, h.once⟩⟩

theorem Owned.announceFrom (h : s.Owned) (hi : s.connections[i]? = some connection)
    (hlive : connection.stage = .live) (hnone : connection.announced = [])
    (hnodup : ((announcedEntries (some i) plugins).map entryKey).Nodup) :
    (s.announceFrom i connection (some i) plugins).Owned := by
  have hlt : i < s.connections.length := (List.getElem?_eq_some_iff.mp hi).1
  have hother : ∀ e ∈ s.remoteEntries, e.client ≠ some i := by
    rintro e he hclient
    obtain ⟨j, other, hj, -, hmem, hj'⟩ := (h.exact e).mp he
    cases hclient.symm.trans hj'
    rw [hi] at hj
    cases hj
    rw [hnone] at hmem
    cases hmem
  refine ⟨h.kept, ?_, ?_⟩
  · intro e
    constructor
    · intro he
      rcases List.mem_append.mp he with he | he
      · obtain ⟨j, other, hj, hrest⟩ := (h.exact e).mp he
        have hij : i ≠ j := fun heq => hother e he (hrest.2.2.trans (congrArg some heq.symm))
        exact ⟨j, other, (List.getElem?_set_ne hij).trans hj, hrest⟩
      · exact ⟨i, _, List.getElem?_set_self hlt, hlive, he, client_of_mem_announcedEntries he⟩
    · rintro ⟨j, other, hj, hlive', hmem, hclient⟩
      rcases of_getElem?_set hj with ⟨rfl, rfl⟩ | ⟨-, hj⟩
      · exact List.mem_append_right _ hmem
      · exact List.mem_append_left _ ((h.exact e).mpr ⟨j, other, hj, hlive', hmem, hclient⟩)
  · show ((s.remoteEntries ++ announcedEntries (some i) plugins).map entryKey).Nodup
    rw [List.map_append]
    refine List.nodup_append.mpr ⟨h.once, hnodup, ?_⟩
    intro k hold k' hnew heq
    obtain ⟨e, he, rfl⟩ := List.mem_map.mp hold
    obtain ⟨e', he', rfl⟩ := List.mem_map.mp hnew
    refine hother e he ?_
    rw [← client_of_mem_announcedEntries he']
    exact congrArg Prod.fst heq

/-- A clean-up that finds no entry. -/
theorem cleanUp_remoteEntries {runtime : SidecarRuntime}
    (h : ∀ e ∈ s.remoteEntries, ¬ s.Cleans runtime e.pluginId) :
    (s.cleanUp runtime).remoteEntries = s.remoteEntries :=
  List.filter_eq_self.mpr fun e he => decide_eq_true (h e he)

/-- The entries behind the teardown are right if those left by the clean-up were. -/
theorem owned_tearDown_iff (hi : s.connections[i]? = some connection)
    (hended : connection.stage = .ended) :
    (s.tearDown i connection sess).Owned ↔ (s.cleanUp sess.runtime).Owned := by
  have hlive : ∀ e, (s.tearDown i connection sess).OfLive e ↔ (s.cleanUp sess.runtime).OfLive e :=
    fun e => ofLive_setStage_iff (s := s) hi (by decide) (fun hlive => by
      rw [hended] at hlive
      cases hlive)
  exact ⟨fun h => ⟨h.kept, fun e => (h.exact e).trans (hlive e), h.once⟩,
    fun h => ⟨h.kept, fun e => (h.exact e).trans (hlive e).symm, h.once⟩⟩

theorem Owned.cleanUp (h : s.Owned) {runtime : SidecarRuntime}
    (hclean : ∀ e ∈ s.remoteEntries, ¬ s.Cleans runtime e.pluginId) :
    (s.cleanUp runtime).Owned :=
  ⟨h.kept, by rw [cleanUp_remoteEntries hclean]; exact h.exact,
    by rw [cleanUp_remoteEntries hclean]; exact h.once⟩

theorem restartFrom_lost (hkept : s.lost = false) (hsess : s.sessions.find? i = some sess)
    (launched : Bool) : (s.restartFrom grow i connection sess launched).lost = false ↔
      s.sessions.HasRoom := by
  have hfind : ((s.tearDown i connection sess).connect grow sess.pluginDir sess.runtime
      launched).sessions.find? i = _ := SidecarSessions.find?_update_start hsess launched
  show (s.lost || (SidecarSessions.find? _ i).isNone) = false ↔ _
  rw [hkept, hfind, Bool.false_or]
  split
  · rename_i hroom
    exact ⟨fun _ => hroom, fun _ => rfl⟩
  · rename_i hroom
    exact ⟨fun h => (nomatch h), fun h => absurd h hroom⟩

/-- A restart keeps the entries right if it loses no session and its clean-up does. -/
theorem owned_restartFrom_iff (hkept : s.lost = false) (hi : s.connections[i]? = some connection)
    (hended : connection.stage = .ended) (hsess : s.sessions.find? i = some sess)
    (launched : Bool) : (s.restartFrom grow i connection sess launched).Owned ↔
      s.sessions.HasRoom ∧ (s.cleanUp sess.runtime).Owned := by
  have hconnect : ((s.tearDown i connection sess).connect grow sess.pluginDir sess.runtime
      launched).Owned ↔ (s.tearDown i connection sess).Owned := owned_connect_iff
  rw [← restartFrom_lost hkept hsess launched, ← owned_tearDown_iff hi hended, ← hconnect]
  constructor
  · exact fun h => ⟨h.kept, hkept, h.exact, h.once⟩
  · exact fun ⟨hlost, h⟩ => ⟨hlost, h.exact, h.once⟩

theorem Owned.step {m : Move} (h : s.Owned) (hwired : s.Wired) (hm : s.KeepsOwn text m)
    (hstep : s.step grow text m = some t) : t.Owned := by
  cases m with
  | start pluginDir runtime launched =>
    cases hstep
    exact owned_connect_iff.mpr h
  | announce i announce =>
    obtain ⟨hfound, hm⟩ := hm
    obtain ⟨sess, hsess⟩ := Option.isSome_iff_exists.mp hfound
    obtain ⟨connection, hi, hcase⟩ := Option.bind_eq_some_iff.mp hstep
    split at hcase
    · rename_i hlive
      rw [hsess] at hcase
      dsimp only at hcase
      rw [hwired.client i connection hi hlive sess hsess] at hcase
      split at hcase
      · cases hcase
      · rename_i plugins hplugins
        split at hcase
        · rename_i harray
          obtain ⟨hnone, hnodup⟩ := hm connection hi plugins hplugins harray
          cases hcase
          exact h.announceFrom hi hlive hnone hnodup
        · cases hcase
          exact h
    · cases hcase
  | exit i =>
    obtain ⟨hfound, hm⟩ := hm
    obtain ⟨sess, hsess⟩ := Option.isSome_iff_exists.mp hfound
    obtain ⟨connection, hi, hcase⟩ := Option.bind_eq_some_iff.mp hstep
    split at hcase
    · rw [hsess] at hcase
      cases hcase
      have hlive : ∀ e, (s.setStage i connection .ended).OfLive e ↔ s.OfLive e :=
        fun e => ofLive_setStage_iff hi (by decide) fun _ => hm connection hi
      exact ⟨h.kept, fun e => (h.exact e).trans (hlive e).symm, h.once⟩
    · cases hcase
  | restart i launched =>
    obtain ⟨hfound, hroom, hm⟩ := hm
    obtain ⟨sess, hsess⟩ := Option.isSome_iff_exists.mp hfound
    obtain ⟨connection, hi, hcase⟩ := Option.bind_eq_some_iff.mp hstep
    split at hcase
    · rename_i hended
      rw [hsess] at hcase
      cases hcase
      exact (owned_restartFrom_iff h.kept hi hended hsess launched).mpr
        ⟨hroom, h.cleanUp (hm sess hsess)⟩
    · cases hcase

/-! ## The steps that break it -/

/-- Tools announced before stay in the registry. -/
theorem not_owned_of_announce (h : s.Owned) (hi : s.connections[i]? = some connection)
    (hlive : connection.stage = .live)
    (hclient : ∀ e ∈ connection.announced, e.client = some i)
    (hbad : ¬ (connection.announced = [] ∧
      ((announcedEntries (some i) plugins).map entryKey).Nodup)) :
    ¬ (s.announceFrom i connection (some i) plugins).Owned := by
  intro hown
  have hnodup : (s.remoteEntries.map entryKey ++
      (announcedEntries (some i) plugins).map entryKey).Nodup := by
    rw [← List.map_append]
    exact hown.once
  obtain ⟨-, hnew, hdisjoint⟩ := List.nodup_append.mp hnodup
  refine hbad ⟨?_, hnew⟩
  by_contra hne
  obtain ⟨e, he⟩ := List.exists_mem_of_ne_nil _ hne
  have hold : e ∈ s.remoteEntries := (h.exact e).mpr ⟨i, connection, hi, hlive, he, hclient e he⟩
  obtain ⟨j, other, hj, -, hmem, hj'⟩ := (hown.exact e).mp (List.mem_append_left _ hold)
  cases (hclient e he).symm.trans hj'
  rcases of_getElem?_set hj with ⟨-, rfl⟩ | ⟨hne, -⟩
  · exact hdisjoint _ (List.mem_map_of_mem hold) _ (List.mem_map_of_mem hmem) rfl
  · exact hne rfl

/-- The entries of a connection that ends stay in the registry. -/
theorem not_owned_of_exit (h : s.Owned) (hi : s.connections[i]? = some connection)
    (hlive : connection.stage = .live)
    (hclient : ∀ e ∈ connection.announced, e.client = some i) (hbad : connection.announced ≠ []) :
    ¬ (s.setStage i connection .ended).Owned := by
  intro hown
  obtain ⟨e, he⟩ := List.exists_mem_of_ne_nil _ hbad
  have hold : e ∈ s.remoteEntries := (h.exact e).mpr ⟨i, connection, hi, hlive, he, hclient e he⟩
  obtain ⟨j, other, hj, hlive', -, hj'⟩ := (hown.exact e).mp hold
  cases (hclient e he).symm.trans hj'
  rcases of_getElem?_set hj with ⟨-, rfl⟩ | ⟨hne, -⟩
  · cases hlive'
  · exact hne rfl

/-- A clean-up removes entries of live connections. -/
theorem not_owned_of_cleanUp (h : s.Owned) {runtime : SidecarRuntime}
    (hbad : ¬ ∀ e ∈ s.remoteEntries, ¬ s.Cleans runtime e.pluginId) :
    ¬ (s.cleanUp runtime).Owned := by
  intro hown
  refine hbad fun e he hclean => ?_
  have hleft : e ∈ (s.cleanUp runtime).remoteEntries := (hown.exact e).mpr ((h.exact e).mp he)
  exact of_decide_eq_true (List.mem_filter.mp hleft).2 hclean

theorem not_owned_of_lost : ¬ ({ s with lost := true } : SidecarTools).Owned :=
  fun h => nomatch h.kept

theorem not_owned_of_not_keepsOwn {m : Move} (h : s.Owned) (hwired : s.Wired)
    (hm : ¬ s.KeepsOwn text m) (hstep : s.step grow text m = some t) : ¬ t.Owned := by
  cases m with
  | start pluginDir runtime launched => exact absurd trivial hm
  | announce i announce =>
    obtain ⟨connection, hi, hcase⟩ := Option.bind_eq_some_iff.mp hstep
    split at hcase
    · rename_i hlive
      split at hcase
      · cases hcase
        exact not_owned_of_lost
      · rename_i sess hsess
        rw [hwired.client i connection hi hlive sess hsess] at hcase
        simp only [KeepsOwn, hsess, Option.isSome_some, true_and, not_forall] at hm
        obtain ⟨connection', hi', plugins, hplugins, harray, hbad⟩ := hm
        rw [Option.mem_def, hi] at hi'
        cases hi'
        rw [hplugins] at hcase
        dsimp only at hcase
        rw [if_pos harray] at hcase
        cases hcase
        exact not_owned_of_announce h hi hlive (hwired.announced i connection hi) hbad
    · cases hcase
  | exit i =>
    obtain ⟨connection, hi, hcase⟩ := Option.bind_eq_some_iff.mp hstep
    split at hcase
    · rename_i hlive
      split at hcase
      · cases hcase
        exact not_owned_of_lost
      · rename_i sess hsess
        cases hcase
        simp only [KeepsOwn, hsess, Option.isSome_some, true_and, not_forall] at hm
        obtain ⟨connection', hi', hbad⟩ := hm
        rw [Option.mem_def, hi] at hi'
        cases hi'
        exact not_owned_of_exit h hi hlive (hwired.announced i connection hi) hbad
    · cases hcase
  | restart i launched =>
    obtain ⟨connection, hi, hcase⟩ := Option.bind_eq_some_iff.mp hstep
    split at hcase
    · rename_i hended
      split at hcase
      · cases hcase
        exact not_owned_of_lost
      · rename_i sess hsess
        cases hcase
        rw [owned_restartFrom_iff h.kept hi hended hsess launched]
        rintro ⟨hroom, hcleaned⟩
        refine hm ⟨by rw [hsess]; rfl, hroom, ?_⟩
        intro found hfound
        rw [Option.mem_def, hsess] at hfound
        cases hfound
        by_contra hbad
        exact not_owned_of_cleanUp h hbad hcleaned
    · cases hcase

/-- Along a run the remote entries are those of the live connections exactly when every step
    keeps to its own. -/
theorem owned_iff (grow : Nat → Nat) (text : JsonText) (moves : List Move) :
    AllStates (step grow text) Owned {} moves ↔
      AllSteps (step grow text) (KeepsOwn text) {} moves := by
  refine allStates_iff_allSteps (I := fun s : SidecarTools => s.Owned ∧ s.Wired)
    (fun s h => h.1) ?_ ?_ ?_ moves
  · rintro s m t ⟨howned, hwired⟩ hm hstep
    exact ⟨howned.step hwired hm hstep, hwired.step hstep⟩
  · rintro s m t ⟨howned, hwired⟩ hm hstep
    exact not_owned_of_not_keepsOwn howned hwired hm hstep
  · constructor
    · refine ⟨rfl, fun e => ⟨fun he => (nomatch he), ?_⟩, List.nodup_nil⟩
      rintro ⟨i, connection, hi, -⟩
      cases hi
    · exact ⟨rfl, fun _ _ hi => (nomatch hi), fun _ _ hi => nomatch hi⟩

/-- An announce without a runtime, as the documentation has it. -/
def searchAnnounce : Json :=
  .object [("cid", .unsigned 0),
    ("plugins", .array [.object [("plugin_id", .string "my_plugin"),
      ("tool_defs", .array [.object [("qualified_name", .string "my_plugin.search"),
        ("schema_json", .string "\x7b\x7d")]])]]),
    ("type", .string "plugin_announce")]

/-- Of two sidecars the first announces behind the start of the second, which has moved the
    sessions: the callback reads the client of freed memory. -/
example : (run (step (2 * ·) { parse := fun _ => none, dump := fun _ => "" }) {}
    [.start "plugins/a" .python true, .start "plugins/my" .python true,
      .announce 0 searchAnnounce]).map (·.lost) = some true := by decide

/-- Behind two others, a sidecar crashes, is restarted and announces again. No session is lost,
    but its tool is there twice, and a call finds the entry of the dead connection first. -/
theorem restart_leaves_tools :
    let text : JsonText := { parse := fun _ => none, dump := fun _ => "" }
    let moves : List Move := [.start "plugins/a" .python true, .start "plugins/b" .python true,
      .start "plugins/my" .python true, .announce 2 searchAnnounce, .exit 2, .restart 2 true,
      .announce 3 searchAnnounce]
    (run (step (2 * ·) text) {} moves).map (fun s => (s.remoteEntries.map entryKey, s.lost)) =
        some ([(some 2, "my_plugin", "search"), (some 3, "my_plugin", "search")], false) ∧
      ¬ AllStates (step (2 * ·) text) Owned {} moves := by
  refine ⟨by decide, ?_⟩
  intro h
  have hlast := h.last (t := (run (step (2 * ·) { parse := fun _ => none, dump := fun _ => "" }) {}
    [.start "plugins/a" .python true, .start "plugins/b" .python true,
      .start "plugins/my" .python true, .announce 2 searchAnnounce, .exit 2, .restart 2 true,
      .announce 3 searchAnnounce]).get (by decide)) (by rfl)
  obtain ⟨i, connection, hi, hlive, -, hclient⟩ :=
    (hlast.exact ⟨"my_plugin", "search", "\x7b\x7d", "my_plugin.search", some 2⟩).mp (by decide)
  cases hclient
  cases hi
  cases hlive

end SidecarTools

end TruellmEngine.Bridge
