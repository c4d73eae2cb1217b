/-
  The restarts of crashed sidecars: `start_sidecar`, `on_sidecar_exit` and
  `restart_sidecar`, for any number of plugin directories. A sidecar that is launched
  connects, and a start is one step.

  `on_sidecar_exit` counts in the session. `restart_sidecar` starts a new session, whose
  count is 0, and resets the count of the old one, which no process belongs to any more. Both
  look for their session where it was when it was started; where the vector of the sessions
  has grown since, they look in freed memory, and nothing is known of what follows (`lost`).
  A process remembers here how many restarts of its directory it comes after, and a restart
  is recorded with its number in the row and its delay.

  `restarts_bounded_iff`: number and delays are as configured along exactly the runs in
  which no process that a restart has started is restarted itself, and no exit and no restart
  loses its session (`FirstInPlace`).
-/
import TruellmEngine.Bridge.SidecarSessions
import TruellmEngine.Lib.Run
import Mathlib.Algebra.Order.Ring.Int

namespace TruellmEngine.Bridge

open Lib

structure RestartConfig where
  restartOnCrash : Bool := true
  maxRestartAttempts : Int := 3

/-- A 32-bit `int` that wraps around. -/
def toInt32 (x : Int) : Int := Int.bmod x 4294967296

/-- The delay computed from the restart count. -/
def backoff (restartCount : Nat) : Int :=
  min (toInt32 (1000 * toInt32 (2 ^ restartCount))) 30000

/-- `on_sidecar_exit`: the session behind it, and the delay of the restart it schedules. -/
def onSidecarExit (cfg : RestartConfig) (sess : SidecarSession) (exitCode : Int) :
    SidecarSession × Option Int :=
  if sess.shuttingDown || exitCode == 0 then (sess, none)
  else if !cfg.restartOnCrash then (sess, none)
  else if (sess.restartCount : Int) ≥ cfg.maxRestartAttempts then
    ({ sess with ready := false }, none)
  else ({ sess with restartCount := sess.restartCount + 1 }, some (backoff sess.restartCount))

inductive ProcessStage where
  | running
  /-- A thread sleeps, then restarts the session. -/
  | waiting (delayMs : Int)
  | ended
deriving DecidableEq

/-- The process of a session; `after` is the number of restarts in the row that led to it. -/
structure SidecarProcess where
  stage : ProcessStage := .running
  after : Nat := 0

structure Restart where
  pluginDir : String
  nth : Nat
  delayMs : Int
deriving DecidableEq

structure Sidecars where
  sessions : SidecarSessions := .empty
  processes : List SidecarProcess := []
  restarts : List Restart := []
  /-- A callback or a restart has followed a pointer to freed memory. -/
  lost : Bool := false

/-- `start_sidecar`: a new session, which stays if its process is launched. -/
def startSidecar (grow : Nat → Nat) (s : Sidecars) (pluginDir : String)
    (runtime : SidecarRuntime) (launched : Bool) (after : Nat) : Sidecars :=
  let sess : SidecarSession :=
    { pluginDir := pluginDir, runtime := runtime, client := some s.processes.length }
  { s with
    sessions := s.sessions.start sess grow launched
    processes := if launched then s.processes ++ [{ after := after }] else s.processes }

/-- The teardown at the head of `restart_sidecar`. -/
def tearDown (s : Sidecars) (i : Nat) (process : SidecarProcess) (sess : SidecarSession)
    (delayMs : Int) : Sidecars :=
  { s with
    sessions := s.sessions.update i { sess with client := none, ready := false }
    processes := s.processes.set i { process with stage := .ended }
    restarts := s.restarts ++ [⟨sess.pluginDir, process.after + 1, delayMs⟩] }

/-- `restart_sidecar` of the session of process `i`, behind its delay. It ends with a look at
    the session, to reset the count or for the message that the start has failed. -/
def restartSidecar (grow : Nat → Nat) (s : Sidecars) (i : Nat) (process : SidecarProcess)
    (sess : SidecarSession) (delayMs : Int) (launched : Bool) : Sidecars :=
  let started := startSidecar grow (tearDown s i process sess delayMs) sess.pluginDir
    sess.runtime launched (process.after + 1)
  match started.sessions.find? i with
  | none => { started with lost := true }
  | some old =>
    if launched then
      { started with sessions := started.sessions.update i { old with restartCount := 0 } }
    else started

namespace Sidecars

inductive Move where
  | start (pluginDir : String) (runtime : SidecarRuntime) (launched : Bool)
  /-- The monitor of a process reports its exit. -/
  | exit (i : Nat) (exitCode : Int)
  | restart (i : Nat) (launched : Bool)
  /-- The destructor marks all sessions. -/
  | shutdown
  /-- The destructor is done with them. -/
  | clear

/-- The monitor of process `i` calls `on_sidecar_exit`. -/
def exitOf (cfg : RestartConfig) (s : Sidecars) (i : Nat) (process : SidecarProcess)
    (exitCode : Int) : Sidecars :=
  match s.sessions.find? i with
  | none => { s with lost := true }
  | some sess =>
    let left := onSidecarExit cfg sess exitCode
    { s with
      sessions := s.sessions.update i left.1
      processes := s.processes.set i { process with
        stage := match left.2 with
          | some delayMs => .waiting delayMs
          | none => .ended } }

def step (grow : Nat → Nat) (cfg : RestartConfig) (s : Sidecars) : Move → Option Sidecars
  | .start pluginDir runtime launched => some (startSidecar grow s pluginDir runtime launched 0)
  | .exit i exitCode =>
    s.processes[i]?.bind fun process =>
      if process.stage = .running then some (s.exitOf cfg i process exitCode) else none
  | .restart i launched =>
    s.processes[i]?.bind fun process =>
      match process.stage with
      | .waiting delayMs =>
        match s.sessions.find? i with
        | none => some { s with lost := true }
        | some sess => some (restartSidecar grow s i process sess delayMs launched)
      | _ => none
  | .shutdown => some { s with sessions := s.sessions.markShuttingDown }
  | .clear => some { s with sessions := s.sessions.clear }

/-- No session has been lost, and every restart is one of the permitted number and comes after
    the configured delay. -/
structure Bounded (cfg : RestartConfig) (s : Sidecars) : Prop where
  kept : s.lost = false
  restarts : ∀ r ∈ s.restarts, (r.nth : Int) ≤ cfg.maxRestartAttempts ∧
    r.delayMs = min (1000 * 2 ^ (r.nth - 1)) 30000 ∧ 1000 ≤ r.delayMs ∧ r.delayMs ≤ 30000

/-- An exit and a restart find the session of their process. The restart moves no session, and
    is not of a process that a restart has started. -/
def FirstInPlace (s : Sidecars) : Move → Prop
  | .exit i _ => (s.sessions.find? i).isSome
  | .restart i _ => (s.sessions.find? i).isSome ∧ s.sessions.HasRoom ∧
      ∀ process ∈ s.processes[i]?, process.after = 0
  | _ => True

/-- A running process has crashed no session before, and a waiting one has waited for none. -/
structure Inv (cfg : RestartConfig) (s : Sidecars) : Prop where
  kept : s.lost = false
  length : s.processes.length = s.sessions.callbacks.length
  running : ∀ (i : Nat) (process : SidecarProcess), s.processes[i]? = some process →
    process.stage = .running → ∀ sess ∈ s.sessions.find? i, sess.restartCount = 0
  waiting : ∀ (i : Nat) (process : SidecarProcess), s.processes[i]? = some process →
    ∀ delayMs, process.stage = .waiting delayMs → delayMs = 1000 ∧ 1 ≤ cfg.maxRestartAttempts
  restarts : ∀ r ∈ s.restarts, r.nth = 1 ∧ r.delayMs = 1000 ∧ 1 ≤ cfg.maxRestartAttempts

variable {grow : Nat → Nat} {cfg : RestartConfig} {s t : Sidecars}

/-- The first crash in a session. -/
theorem onSidecarExit_delay {sess : SidecarSession} (hcount : sess.restartCount = 0)
    {exitCode delayMs : Int} (h : (onSidecarExit cfg sess exitCode).2 = some delayMs) :
    delayMs = 1000 ∧ 1 ≤ cfg.maxRestartAttempts := by
  unfold onSidecarExit at h
  split at h
  · cases h
  · split at h
    · cases h
    · split at h
      · cases h
      · rename_i hmax
        rw [hcount] at hmax h
        cases h
        exact ⟨by decide, by omega⟩

theorem Inv.start (h : Inv cfg s) (pluginDir : String) (runtime : SidecarRuntime)
    (launched : Bool) (after : Nat) :
    Inv cfg (startSidecar grow s pluginDir runtime launched after) := by
  have hold : ∀ (i : Nat) (process : SidecarProcess), s.processes[i]? = some process →
      process.stage = .running → ∀ sess ∈ (startSidecar grow s pluginDir runtime launched
        after).sessions.find? i, sess.restartCount = 0 := by
    intro i process hprocess hrunning sess hsess
    have hlt : i < s.sessions.callbacks.length := by
      rw [← h.length]
      exact (List.getElem?_eq_some_iff.mp hprocess).1
    have hsess : (s.sessions.start _ grow launched).find? i = some sess := hsess
    rw [SidecarSessions.find?_start hlt] at hsess
    split at hsess
    · exact h.running i process hprocess hrunning sess hsess
    · cases hsess
  cases launched with
  | false =>
    exact ⟨h.kept, h.length.trans (SidecarSessions.length_start false).symm, hold, h.waiting,
      h.restarts⟩
  | true =>
    refine ⟨h.kept, ?_, ?_, ?_, h.restarts⟩
    · show (s.processes ++ [_]).length = _
      rw [List.length_append, h.length]
      exact (SidecarSessions.length_start true).symm
    · intro i process hprocess hrunning sess hsess
      rcases of_getElem?_concat hprocess with hprocess | ⟨rfl, -⟩
      · exact hold i process hprocess hrunning sess hsess
      · have hsess : (s.sessions.start _ grow true).find? s.processes.length = some sess := hsess
        rw [h.length, SidecarSessions.find?_start_self] at hsess
        cases hsess
        rfl
    · intro i process hprocess delayMs hstage
      rcases of_getElem?_concat hprocess with hprocess | ⟨-, rfl⟩
      · exact h.waiting i process hprocess delayMs hstage
      · cases hstage

/-- Process `i` stops running and leaves its session changed. -/
theorem Inv.stop (h : Inv cfg s) (i : Nat) (process : SidecarProcess) (sess : SidecarSession)
    (hrunning : process.stage ≠ .running)
    (hwaiting : ∀ delayMs, process.stage = .waiting delayMs →
      delayMs = 1000 ∧ 1 ≤ cfg.maxRestartAttempts) :
    Inv cfg { s with
      sessions := s.sessions.update i sess
      processes := s.processes.set i process } := by
  refine ⟨h.kept, ?_, ?_, ?_, h.restarts⟩
  · dsimp only
    rw [List.length_set, SidecarSessions.callbacks_update, h.length]
  · intro j other hother hstage x hx
    by_cases hij : i = j
    · subst hij
      have hother : (s.processes.set i process)[i]? = some other := hother
      rw [List.getElem?_set_self'] at hother
      obtain ⟨_, -, rfl⟩ := Option.map_eq_some_iff.mp hother
      exact absurd hstage hrunning
    · rw [SidecarSessions.find?_update_ne hij] at hx
      exact h.running j other ((List.getElem?_set_ne hij).symm.trans hother) hstage x hx
  · intro j other hother delayMs hstage
    by_cases hij : i = j
    · subst hij
      have hother : (s.processes.set i process)[i]? = some other := hother
      rw [List.getElem?_set_self'] at hother
      obtain ⟨_, -, rfl⟩ := Option.map_eq_some_iff.mp hother
      exact hwaiting delayMs hstage
    · exact h.waiting j other ((List.getElem?_set_ne hij).symm.trans hother) delayMs hstage

/-- The sessions change, but no count of a session that is found grows. -/
theorem Inv.sessions (h : Inv cfg s) {sessions : SidecarSessions}
    (hcallbacks : sessions.callbacks = s.sessions.callbacks)
    (hcount : ∀ i, ∀ sess ∈ sessions.find? i, ∃ old ∈ s.sessions.find? i,
      sess.restartCount ≤ old.restartCount) : Inv cfg { s with sessions := sessions } := by
  refine ⟨h.kept, ?_, ?_, h.waiting, h.restarts⟩
  · rw [h.length, hcallbacks]
  · intro i process hprocess hstage sess hsess
    obtain ⟨old, hold, hle⟩ := hcount i sess hsess
    rw [h.running i process hprocess hstage old hold] at hle
    exact Nat.le_zero.mp hle

theorem Inv.resetCount (h : Inv cfg s) (i : Nat) {old : SidecarSession}
    (hold : s.sessions.find? i = some old) :
    Inv cfg { s with sessions := s.sessions.update i { old with restartCount := 0 } } := by
  refine h.sessions SidecarSessions.callbacks_update ?_
  intro j sess hsess
  by_cases hij : i = j
  · subst hij
    rw [SidecarSessions.find?_update_self, hold] at hsess
    cases hsess
    exact ⟨old, hold, Nat.zero_le _⟩
  · rw [SidecarSessions.find?_update_ne hij] at hsess
    exact ⟨sess, hsess, Nat.le_refl _⟩

theorem Inv.exitOf (h : Inv cfg s) {i : Nat} {process : SidecarProcess}
    (hprocess : s.processes[i]? = some process) (hstage : process.stage = .running)
    (hfound : (s.sessions.find? i).isSome) (exitCode : Int) :
    Inv cfg (s.exitOf cfg i process exitCode) := by
  obtain ⟨sess, hsess⟩ := Option.isSome_iff_exists.mp hfound
  unfold Sidecars.exitOf
  rw [hsess]
  refine h.stop _ _ _ ?_ ?_
  · dsimp only
    split <;> exact fun heq => nomatch heq
  · intro delayMs hwaiting
    dsimp only at hwaiting
    split at hwaiting
    · rename_i delayMs' hdelay
      cases hwaiting
      exact onSidecarExit_delay (h.running i process hprocess hstage sess hsess) hdelay
    · cases hwaiting

theorem Inv.tearDown (h : Inv cfg s) {i : Nat} {process : SidecarProcess}
    (hprocess : s.processes[i]? = some process) {delayMs : Int}
    (hstage : process.stage = .waiting delayMs) (hafter : process.after = 0)
    (sess : SidecarSession) : Inv cfg (tearDown s i process sess delayMs) := by
  have hstop := h.stop i { process with stage := .ended }
    { sess with client := none, ready := false } (fun heq => nomatch heq) (fun _ heq => nomatch heq)
  refine ⟨hstop.kept, hstop.length, hstop.running, hstop.waiting, ?_⟩
  intro r hr
  rcases List.mem_append.mp hr with hr | hr
  · exact h.restarts r hr
  · rw [List.mem_singleton.mp hr, hafter]
    exact ⟨rfl, h.waiting i process hprocess delayMs hstage⟩

/-- The first restart in a row is the first one, a second behind the crash. -/
theorem Inv.restart (h : Inv cfg s) {i : Nat} {process : SidecarProcess} {sess : SidecarSession}
    (hprocess : s.processes[i]? = some process) {delayMs : Int}
    (hstage : process.stage = .waiting delayMs) (hafter : process.after = 0)
    (hsess : s.sessions.find? i = some sess) (hroom : s.sessions.HasRoom) (launched : Bool) :
    Inv cfg (restartSidecar grow s i process sess delayMs launched) := by
  have hstarted : Inv cfg (startSidecar grow (Bridge.tearDown s i process sess delayMs)
      sess.pluginDir sess.runtime launched (process.after + 1)) :=
    (h.tearDown hprocess hstage hafter sess).start _ _ _ _
  have hfind : (startSidecar grow (Bridge.tearDown s i process sess delayMs) sess.pluginDir
      sess.runtime launched (process.after + 1)).sessions.find? i = some _ :=
    (SidecarSessions.find?_update_start hsess launched).trans (if_pos hroom)
  unfold restartSidecar
  dsimp only
  rw [hfind]
  dsimp only
  split
  · exact hstarted.resetCount i hfind
  · exact hstarted

theorem Inv.step {m : Move} (h : Inv cfg s) (hm : s.FirstInPlace m)
    (hstep : s.step grow cfg m = some t) : Inv cfg t := by
  cases m with
  | start pluginDir runtime launched =>
    cases hstep
    exact h.start pluginDir runtime launched 0
  | exit i exitCode =>
    obtain ⟨process, hprocess, hcase⟩ := Option.bind_eq_some_iff.mp hstep
    split at hcase
    · rename_i hrunning
      cases hcase
      exact h.exitOf hprocess hrunning hm exitCode
    · cases hcase
  | restart i launched =>
    obtain ⟨hfound, hroom, hafter⟩ := hm
    obtain ⟨process, hprocess, hcase⟩ := Option.bind_eq_some_iff.mp hstep
    obtain ⟨sess, hsess⟩ := Option.isSome_iff_exists.mp hfound
    split at hcase
    · rename_i delayMs hstage
      rw [hsess] at hcase
      cases hcase
      exact h.restart hprocess hstage (hafter process hprocess) hsess hroom launched
    · cases hcase
  | shutdown =>
    cases hstep
    refine h.sessions SidecarSessions.callbacks_markShuttingDown ?_
    intro i sess hsess
    rw [SidecarSessions.find?_markShuttingDown] at hsess
    obtain ⟨old, hold, rfl⟩ := Option.map_eq_some_iff.mp hsess
    exact ⟨old, hold, Nat.le_refl _⟩
  | clear =>
    cases hstep
    refine h.sessions SidecarSessions.callbacks_clear ?_
    intro i sess hsess
    rw [SidecarSessions.find?_clear] at hsess
    cases hsess

theorem Inv.bounded (h : Inv cfg s) : s.Bounded cfg := by
  refine ⟨h.kept, ?_⟩
  intro r hr
  obtain ⟨hnth, hdelay, hmax⟩ := h.restarts r hr
  rw [hnth, hdelay]
  exact ⟨hmax, by decide, by decide, by decide⟩

/-- A restart that moves the sessions loses its own. -/
theorem restartSidecar_lost {i : Nat} {process : SidecarProcess} {sess : SidecarSession}
    {delayMs : Int} (hsess : s.sessions.find? i = some sess) (hroom : ¬ s.sessions.HasRoom)
    (launched : Bool) : (restartSidecar grow s i process sess delayMs launched).lost = true := by
  have hfind : (startSidecar grow (Bridge.tearDown s i process sess delayMs) sess.pluginDir
      sess.runtime launched (process.after + 1)).sessions.find? i = none :=
    (SidecarSessions.find?_update_start hsess launched).trans (if_neg hroom)
  unfold restartSidecar
  dsimp only
  rw [hfind]

theorem restartSidecar_restarts (i : Nat) (process : SidecarProcess) (sess : SidecarSession)
    (delayMs : Int) (launched : Bool) :
    (restartSidecar grow s i process sess delayMs launched).restarts =
      s.restarts ++ [⟨sess.pluginDir, process.after + 1, delayMs⟩] := by
  unfold restartSidecar
  dsimp only
  split
  · rfl
  · split <;> rfl

/-- A later restart in a row comes after one second too. -/
theorem Inv.not_bounded_of_again (h : Inv cfg s) {i : Nat} {process : SidecarProcess}
    {sess : SidecarSession} (hprocess : s.processes[i]? = some process) {delayMs : Int}
    (hstage : process.stage = .waiting delayMs) (hafter : process.after ≠ 0) (launched : Bool) :
    ¬ (restartSidecar grow s i process sess delayMs launched).Bounded cfg := by
  intro hbounded
  have hdelay := (hbounded.restarts ⟨sess.pluginDir, process.after + 1, delayMs⟩ (by
    rw [restartSidecar_restarts]
    exact List.mem_append_right _ List.mem_cons_self)).2.1
  dsimp only at hdelay
  rw [(h.waiting i process hprocess delayMs hstage).1, Nat.add_sub_cancel] at hdelay
  have hpow : (2 : Int) ^ 1 ≤ 2 ^ process.after :=
    pow_le_pow_right₀ (by decide) (Nat.one_le_iff_ne_zero.mpr hafter)
  omega

theorem Inv.not_bounded {m : Move} (h : Inv cfg s) (hm : ¬ s.FirstInPlace m)
    (hstep : s.step grow cfg m = some t) : ¬ t.Bounded cfg := by
  cases m with
  | exit i exitCode =>
    obtain ⟨process, -, hcase⟩ := Option.bind_eq_some_iff.mp hstep
    split at hcase
    · cases hcase
      have hnone : s.sessions.find? i = none := Option.not_isSome_iff_eq_none.mp hm
      unfold Sidecars.exitOf
      rw [hnone]
      exact fun hbounded => nomatch hbounded.kept
    · cases hcase
  | restart i launched =>
    obtain ⟨process, hprocess, hcase⟩ := Option.bind_eq_some_iff.mp hstep
    split at hcase
    · rename_i delayMs hstage
      split at hcase
      · cases hcase
        exact fun hbounded => nomatch hbounded.kept
      · rename_i sess hsess
        cases hcase
        by_cases hroom : s.sessions.HasRoom
        · refine h.not_bounded_of_again hprocess hstage ?_ launched
          intro hzero
          refine hm ⟨by rw [hsess]; rfl, hroom, fun other hother => ?_⟩
          rw [Option.mem_def, hprocess] at hother
          cases hother
          exact hzero
        · intro hbounded
          have hkept := hbounded.kept
          rw [restartSidecar_lost hsess hroom launched] at hkept
          cases hkept
    · cases hcase
  | start pluginDir runtime launched => exact absurd trivial hm
  | shutdown => exact absurd trivial hm
  | clear => exact absurd trivial hm

/-- The restarts along a run are bounded exactly when no restarted process is restarted, and
    no exit and no restart loses its session. -/
theorem restarts_bounded_iff (grow : Nat → Nat) (cfg : RestartConfig) (moves : List Move) :
    AllStates (step grow cfg) (Bounded cfg) {} moves ↔
      AllSteps (step grow cfg) FirstInPlace {} moves := by
  refine allStates_iff_allSteps (I := Inv cfg) (fun _ => Inv.bounded) (fun _ _ _ => Inv.step)
    (fun _ _ _ => Inv.not_bounded) ?_ moves
  exact ⟨rfl, rfl, fun _ _ hprocess => (nomatch hprocess), fun _ _ hprocess => (nomatch hprocess),
    fun _ hmem => absurd hmem List.not_mem_nil⟩

/-- With one plugin directory and a capacity that doubles, the first restart writes the count
    of its old session into freed memory. -/
example : (run (step (2 * ·) {}) {}
    [.start "plugins/web" .python true, .exit 0 1, .restart 0 true]).map (·.lost) = some true := by
  decide

/-- One restart is permitted. Behind four others, the sidecar of a fifth directory connects and
    crashes twice; its sessions find room, and it is restarted twice, each time after one
    second. -/
theorem crash_loop :
    let cfg : RestartConfig := { maxRestartAttempts := 1 }
    let moves : List Move := [.start "plugins/a" .python true, .start "plugins/b" .python true,
      .start "plugins/c" .python true, .start "plugins/d" .python true,
      .start "plugins/web" .python true, .exit 4 1, .restart 4 true, .exit 5 1, .restart 5 true]
    (run (step (2 * ·) cfg) {} moves).map (fun s => (s.restarts, s.lost)) =
        some ([⟨"plugins/web", 1, 1000⟩, ⟨"plugins/web", 2, 1000⟩], false) ∧
      ¬ AllStates (step (2 * ·) cfg) (Bounded cfg) {} moves := by
  refine ⟨by decide, ?_⟩
  intro h
  have hlast := h.last (t := (run (step (2 * ·) { maxRestartAttempts := 1 }) {}
    [.start "plugins/a" .python true, .start "plugins/b" .python true,
      .start "plugins/c" .python true, .start "plugins/d" .python true,
      .start "plugins/web" .python true, .exit 4 1, .restart 4 true, .exit 5 1,
      .restart 5 true]).get (by decide)) (by rfl)
  exact absurd (hlast.restarts ⟨"plugins/web", 2, 1000⟩ (by decide)).1 (by decide)

end Sidecars

end TruellmEngine.Bridge
