/-
  The socket paths of the sidecar sessions on a POSIX host: constructor, `listen_and_accept`
  and `close` of `IpcTransport`, and the connections of the processes the sessions launch.

  The file system maps a path to the session whose socket was bound there. The sessions of
  all server processes of the host are numbered together; a session launches one process,
  which goes by the same number. A session accepts the first connection to its socket.

  The path holds the tag of the runtime and nothing of the session or the server.
  `ownSidecar_iff`: every session talks to its own process, and no path is taken from under
  a listener, along exactly the runs in which sessions of one runtime keep apart.
-/
import TruellmEngine.Bridge.Restarts

namespace TruellmEngine.Bridge

open Lib

def SidecarRuntime.tag : SidecarRuntime → String
  | .python => "py"
  | .javaScript => "js"

/-- `socket_path_` -/
def socketPath (runtimeTag : String) : String := "/tmp/truellm-plugins-" ++ runtimeTag ++ ".sock"

inductive ListenStage where
  | constructed
  /-- `bind` and `listen` have succeeded; the socket is open. -/
  | listening
  /-- `bind` has failed. -/
  | failed
  | closed
deriving DecidableEq

structure Transport where
  server : Nat
  pluginDir : String
  path : String
  stage : ListenStage := .constructed
  launched : Bool := false
  /-- The process whose connection the session has accepted. -/
  accepted : Option Nat := none

structure Host where
  files : String → Option Nat := fun _ => none
  transports : List Transport := []
  /-- A constructor or `close` has removed the path of another session that listens. -/
  removedOther : Bool := false

namespace Host

inductive Move where
  | construct (server : Nat) (pluginDir : String) (runtime : SidecarRuntime)
  | launch (i : Nat)
  | bind (i : Nat)
  /-- The process that session `i` launched connects to the path it was given. -/
  | connect (i : Nat)
  | close (i : Nat)

def listens (s : Host) (i : Nat) : Bool :=
  s.transports[i]?.any fun transport => decide (transport.stage = .listening)

/-- The path belongs to a session other than `i` that listens. -/
def heldByOther (s : Host) (path : String) (i : Nat) : Prop :=
  ∃ j, s.files path = some j ∧ j ≠ i ∧ s.listens j = true

instance (s : Host) (path : String) (i : Nat) : Decidable (s.heldByOther path i) :=
  match h : s.files path with
  | none => .isFalse fun ⟨j, hj, _⟩ => by
      rw [h] at hj
      cases hj
  | some j => decidable_of_iff (j ≠ i ∧ s.listens j = true) (by
      constructor
      · exact fun hj => ⟨j, h, hj⟩
      · rintro ⟨k, hk, hj⟩
        rw [h] at hk
        cases hk
        exact hj)

/-- `unlink(path)` by session `i` -/
def unlink (s : Host) (path : String) (i : Nat) : Host :=
  { s with
    files := fun p => if p = path then none else s.files p
    removedOther := s.removedOther || decide (s.heldByOther path i) }

def setTransport (s : Host) (i : Nat) (transport : Transport) : Host :=
  { s with transports := s.transports.set i transport }

/-- The first connection to a socket is the one its session accepts. -/
def acceptFrom (s : Host) (i j : Nat) (transport : Transport) : Host :=
  if transport.stage = .listening ∧ transport.accepted = none then
    s.setTransport j { transport with accepted := some i }
  else s

def step (s : Host) : Move → Option Host
  | .construct server pluginDir runtime =>
    let path := socketPath runtime.tag
    let t := s.unlink path s.transports.length
    some { t with transports := t.transports ++ [{ server, pluginDir, path }] }
  | .launch i =>
    s.transports[i]?.bind fun transport =>
      if transport.stage = .constructed then
        some (s.setTransport i { transport with launched := true })
      else none
  | .bind i =>
    s.transports[i]?.bind fun transport =>
      if transport.stage = .constructed ∧ transport.launched = true then
        if s.files transport.path = none then
          some { s.setTransport i { transport with stage := .listening } with
            files := fun p => if p = transport.path then some i else s.files p }
        else some (s.setTransport i { transport with stage := .failed })
      else none
  | .connect i =>
    s.transports[i]?.bind fun transport =>
      if transport.launched = true then
        (s.files transport.path).bind fun j =>
          s.transports[j]?.map fun listener => s.acceptFrom i j listener
      else none
  | .close i =>
    s.transports[i]?.bind fun transport =>
      if transport.stage ≠ .closed then
        some ((s.unlink transport.path i).setTransport i { transport with stage := .closed })
      else none

/-- Every session talks to the process it launched, and no listener has lost its path. -/
structure OwnSidecar (s : Host) : Prop where
  own : ∀ i (transport : Transport), s.transports[i]? = some transport →
    ∀ process, transport.accepted = some process → process = i
  kept : s.removedOther = false

/-- No transport is constructed or closed while another session listens at its path, and no
    process connects to the socket of another session that still waits. -/
def Apart (s : Host) : Move → Prop
  | .construct _ _ runtime => ¬ s.heldByOther (socketPath runtime.tag) s.transports.length
  | .close i => ∀ transport ∈ s.transports[i]?, ¬ s.heldByOther transport.path i
  | .connect i => ∀ transport ∈ s.transports[i]?, ∀ j, s.files transport.path = some j →
      ∀ listener ∈ s.transports[j]?, listener.stage = .listening → listener.accepted = none → j = i
  | _ => True

variable {s t : Host}

/-- A session keeps the connection it has. -/
theorem OwnSidecar.set (h : s.OwnSidecar) {i : Nat} {new : Transport}
    (hnew : ∀ process, new.accepted = some process → process = i) :
    (s.setTransport i new).OwnSidecar := by
  refine ⟨?_, h.kept⟩
  intro k transport hk process hprocess
  simp only [setTransport, List.getElem?_set] at hk
  split at hk
  · rename_i heq
    split at hk
    · cases hk
      rw [← heq]
      exact hnew process hprocess
    · cases hk
  · exact h.own k transport hk process hprocess

theorem OwnSidecar.unlink (h : s.OwnSidecar) {path : String} {i : Nat}
    (hheld : ¬ s.heldByOther path i) : (s.unlink path i).OwnSidecar :=
  ⟨h.own, by simp [Host.unlink, h.kept, hheld]⟩

theorem OwnSidecar.append (h : s.OwnSidecar) {new : Transport} (hnew : new.accepted = none) :
    ({ s with transports := s.transports ++ [new] } : Host).OwnSidecar := by
  refine ⟨?_, h.kept⟩
  intro i transport hi process hprocess
  have hi : (s.transports ++ [new])[i]? = some transport := hi
  rcases List.mem_append.mp (List.mem_of_getElem? hi) with _ | hmem
  · by_cases hlt : i < s.transports.length
    · rw [List.getElem?_append_left hlt] at hi
      exact h.own i transport hi process hprocess
    · rw [List.getElem?_append_right (by omega)] at hi
      have hnone : transport = new :=
        List.mem_singleton.mp (List.mem_of_getElem? hi)
      rw [hnone, hnew] at hprocess
      cases hprocess
  · rw [List.mem_singleton.mp hmem, hnew] at hprocess
    cases hprocess

theorem OwnSidecar.step {m : Move} (h : s.OwnSidecar) (hm : s.Apart m)
    (hstep : s.step m = some t) : t.OwnSidecar := by
  cases m with
  | construct server pluginDir runtime =>
    cases hstep
    exact (h.unlink hm).append rfl
  | launch i =>
    obtain ⟨transport, hi, hcase⟩ := Option.bind_eq_some_iff.mp hstep
    split at hcase
    · cases hcase
      exact h.set (h.own i transport hi)
    · cases hcase
  | bind i =>
    obtain ⟨transport, hi, hcase⟩ := Option.bind_eq_some_iff.mp hstep
    split at hcase
    · split at hcase
      · cases hcase
        have hset : (s.setTransport i { transport with stage := .listening }).OwnSidecar :=
          h.set (h.own i transport hi)
        exact ⟨hset.own, hset.kept⟩
      · cases hcase
        exact h.set (h.own i transport hi)
    · cases hcase
  | connect i =>
    obtain ⟨transport, hi, hcase⟩ := Option.bind_eq_some_iff.mp hstep
    split at hcase
    · obtain ⟨j, hj, hcase⟩ := Option.bind_eq_some_iff.mp hcase
      obtain ⟨listener, hlistener, rfl⟩ := Option.map_eq_some_iff.mp hcase
      unfold acceptFrom
      split
      · rename_i hwaits
        have hji : j = i := hm transport hi j hj listener hlistener hwaits.1 hwaits.2
        refine h.set ?_
        intro process hprocess
        cases hprocess
        exact hji.symm
      · exact h
    · cases hcase
  | close i =>
    obtain ⟨transport, hi, hcase⟩ := Option.bind_eq_some_iff.mp hstep
    split at hcase
    · cases hcase
      exact (h.unlink (hm transport hi)).set (h.own i transport hi)
    · cases hcase

theorem not_ownSidecar_of_not_apart {m : Move} (hm : ¬ s.Apart m) (hstep : s.step m = some t) :
    ¬ t.OwnSidecar := by
  intro hown
  cases m with
  | construct server pluginDir runtime =>
    cases hstep
    have hkept : (s.removedOther || decide (s.heldByOther (socketPath runtime.tag)
      s.transports.length)) = false := hown.kept
    exact hm (of_decide_eq_false (Bool.or_eq_false_iff.mp hkept).2)
  | launch i => exact hm trivial
  | bind i => exact hm trivial
  | connect i =>
    obtain ⟨transport, hi, hcase⟩ := Option.bind_eq_some_iff.mp hstep
    split at hcase
    · obtain ⟨j, hj, hcase⟩ := Option.bind_eq_some_iff.mp hcase
      obtain ⟨listener, hlistener, rfl⟩ := Option.map_eq_some_iff.mp hcase
      refine hm fun x hx k hk y hy hlistens hnone => ?_
      rw [Option.mem_def, hi] at hx
      cases hx
      rw [hj] at hk
      cases hk
      rw [Option.mem_def, hlistener] at hy
      cases hy
      unfold acceptFrom at hown
      rw [if_pos ⟨hlistens, hnone⟩] at hown
      have hlt : j < s.transports.length := (List.getElem?_eq_some_iff.mp hlistener).1
      exact (hown.own j { listener with accepted := some i }
        (List.getElem?_set_self hlt) i rfl).symm
    · cases hcase
  | close i =>
    obtain ⟨transport, hi, hcase⟩ := Option.bind_eq_some_iff.mp hstep
    split at hcase
    · cases hcase
      have hkept : (s.removedOther || decide (s.heldByOther transport.path i)) = false := hown.kept
      refine hm fun x hx => ?_
      rw [Option.mem_def, hi] at hx
      cases hx
      exact of_decide_eq_false (Bool.or_eq_false_iff.mp hkept).2
    · cases hcase

/-- Along a run, each session has its own sidecar and its path exactly when the sessions of
    one runtime keep apart in every step. -/
theorem ownSidecar_iff (moves : List Move) :
    AllStates step OwnSidecar {} moves ↔ AllSteps step Apart {} moves :=
  allStates_iff_allSteps (I := OwnSidecar) (fun _ => id) (fun _ _ _ => OwnSidecar.step)
    (fun _ _ _ _ => not_ownSidecar_of_not_apart)
    ⟨fun _ _ hi => absurd (List.mem_of_getElem? hi) List.not_mem_nil, rfl⟩ moves

/-- Two servers with a Python sidecar each, the second started while the first waits: the
    path of the first is removed, and its process connects to the second session. -/
theorem first_meets_second :
    let moves : List Move := [.construct 0 "plugins/a" .python, .launch 0, .bind 0,
      .construct 1 "plugins/b" .python, .launch 1, .bind 1, .connect 0]
    ((run step {} moves).map fun s => (s.transports.map (·.accepted), s.removedOther)) =
        some ([none, some 0], true) ∧
      ¬ AllStates step OwnSidecar {} moves := by
  refine ⟨by decide, ?_⟩
  intro h
  have hlast := h.last (t := (run step {} [.construct 0 "plugins/a" .python, .launch 0, .bind 0,
    .construct 1 "plugins/b" .python, .launch 1, .bind 1, .connect 0]).get (by decide)) (by rfl)
  exact absurd hlast.kept (by decide)

end Host

end TruellmEngine.Bridge
