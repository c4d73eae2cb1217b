/-
  The sidecar launcher on POSIX: the child process, the monitor thread that waits for it,
  and `stop()`, which sends SIGTERM, polls, sends SIGKILL and waits.

  `waitpid` reaps a child once. Later calls fail and leave the status they were given as it
  was, which is 0 for both callers; the monitor decodes it as an exit with code 0. A signal
  to a child that has been reaped goes to whatever process has its number by then.

  `exits_truthful_iff`: what is reported is true, and no reaped child is signalled, if
  `stop()` and the monitor keep out of each other's way (`Apart`); in a run in which both
  come to an end, only if they do.
-/
import TruellmEngine.Bridge.Restarts

namespace TruellmEngine.Bridge

open Lib

/-- How a process ended. -/
inductive Ending where
  | exited (status : UInt8)
  | killed (signal : Nat)
deriving DecidableEq

inductive Child where
  | alive
  | zombie (ending : Ending)
  | reaped (ending : Ending)
deriving DecidableEq

def Child.ending : Child → Option Ending
  | .alive => none
  | .zombie e => some e
  | .reaped e => some e

/-- The code the monitor reads off a status. -/
def Ending.code : Ending → Int
  | .exited status => status.toNat
  | .killed _ => -1

/-- The status 0 that a failed `waitpid` leaves. -/
def untouched : Ending := .exited 0

inductive StopAt where
  | idle
  | polling (timeoutMs elapsed : Nat)
  | killing
  | waiting
deriving DecidableEq

/-- `hasPid` is false when `process_pid_` is 0. The last fields are the callback's session and
    the delay of the restart it has scheduled, the codes it was called with, and whether a
    reaped child was signalled. -/
structure Launcher where
  child : Child := .alive
  hasPid : Bool := true
  stop : StopAt := .idle
  monitorReturned : Bool := false
  sess : SidecarSession
  restartDelay : Option Int := none
  reported : List Int := []
  signalledReaped : Bool := false

namespace Launcher

inductive Move where
  /-- The child ends, of itself or by a signal. -/
  | childEnds (ending : Ending)
  | stopCalled (timeoutMs : Nat)
  /-- One turn of the loop in `stop()`, or the end of the loop. -/
  | stopPolls
  | stopKills
  /-- The last `waitpid` of `stop()` returns. -/
  | stopWaits
  /-- The monitor's `waitpid` returns, and the callback runs. -/
  | monitorReturns

/-- `kill(process_pid_, …)` -/
def signal (s : Launcher) : Launcher :=
  match s.child with
  | .reaped _ => { s with signalledReaped := true }
  | _ => s

/-- The callback, with the status the monitor has. -/
def report (cfg : RestartConfig) (s : Launcher) (status : Ending) : Launcher :=
  let left := onSidecarExit cfg s.sess status.code
  { s with
    monitorReturned := true
    reported := s.reported ++ [status.code]
    sess := left.1
    restartDelay := left.2 }

def step (cfg : RestartConfig) (s : Launcher) : Move → Option Launcher
  | .childEnds ending =>
    match s.child with
    | .alive => some { s with child := .zombie ending }
    | _ => none
  | .stopCalled timeoutMs =>
    match s.stop with
    | .idle => some (if s.hasPid then { s.signal with stop := .polling timeoutMs 0 } else s)
    | _ => none
  | .stopPolls =>
    match s.stop with
    | .polling timeoutMs elapsed =>
      if elapsed < timeoutMs then
        match s.child with
        | .zombie e => some { s with child := .reaped e, stop := .killing }
        | _ => some { s with stop := .polling timeoutMs (elapsed + 50) }
      else some { s with stop := .killing }
    | _ => none
  | .stopKills =>
    match s.stop with
    | .killing => some { s.signal with stop := .waiting }
    | _ => none
  | .stopWaits =>
    match s.stop, s.child with
    | .waiting, .zombie e => some { s with child := .reaped e, hasPid := false, stop := .idle }
    | .waiting, .reaped _ => some { s with hasPid := false, stop := .idle }
    | _, _ => none
  | .monitorReturns =>
    if s.monitorReturned then none
    else
      match s.child with
      | .alive => none
      | .zombie e => some (report cfg { s with child := .reaped e } e)
      | .reaped _ => some (report cfg s untouched)

/-- What is reported is true, and only a child that can still be waited for is signalled. -/
structure Truthful (cfg : RestartConfig) (start : SidecarSession) (s : Launcher) : Prop where
  once : s.reported.length = if s.monitorReturned then 1 else 0
  reports : s.child ≠ .alive → s.monitorReturned = false → (step cfg s .monitorReturns).isSome
  zero : 0 ∈ s.reported → s.child.ending = some (.exited 0)
  crash : ∀ signal, s.child.ending = some (.killed signal) → s.monitorReturned = true →
    ∃ code ≠ 0, (s.sess, s.restartDelay) = onSidecarExit cfg start code
  signals : s.signalledReaped = false

/-- `stop()` is called while the child has not been reaped. From then until its SIGKILL
    nobody reaps the child, and behind it the monitor does, or the child has exited with 0. -/
def Apart (s : Launcher) : Move → Prop
  | .stopCalled _ => s.hasPid = true → ∀ e, s.child ≠ .reaped e
  | .stopPolls => ∀ timeoutMs elapsed, s.stop = .polling timeoutMs elapsed →
      elapsed < timeoutMs → ∀ e, s.child ≠ .zombie e
  | .stopWaits => ∀ e, s.child = .zombie e → e = .exited 0
  | .monitorReturns => (∀ e, s.child ≠ .zombie e) ∨ s.stop = .idle ∨ s.stop = .waiting
  | _ => True

/-- What holds while `stop()` and the monitor keep apart. -/
structure Inv (cfg : RestartConfig) (start : SidecarSession) (s : Launcher) : Prop where
  pending : s.monitorReturned = false → s.sess = start ∧ s.reported = [] ∧
    ∀ e, s.child = .reaped e → e = .exited 0
  returned : s.monitorReturned = true → ∃ e, s.child = .reaped e ∧ s.reported = [e.code] ∧
    (s.sess, s.restartDelay) = onSidecarExit cfg start e.code
  busy : s.stop ≠ .idle → s.stop ≠ .waiting → ∀ e, s.child ≠ .reaped e
  signals : s.signalledReaped = false

variable {cfg : RestartConfig} {start : SidecarSession} {s t : Launcher}

theorem code_eq_zero {e : Ending} (h : e.code = 0) : e = .exited 0 := by
  cases e with
  | exited status =>
    have hstatus : status.toNat = 0 := Int.ofNat_eq_zero.mp h
    rw [UInt8.toNat_inj.mp (hstatus.trans UInt8.toNat_zero.symm)]
  | killed signal => exact absurd h (by decide : (-1 : Int) ≠ 0)

theorem signal_of_not_reaped (h : ∀ e, s.child ≠ .reaped e) : s.signal = s := by
  unfold signal
  split
  · rename_i e hchild
    exact absurd hchild (h e)
  · rfl

theorem signal_of_reaped {e : Ending} (h : s.child = .reaped e) :
    s.signal = { s with signalledReaped := true } := by
  unfold signal
  rw [h]

theorem monitorReturns_isSome (hchild : s.child ≠ .alive) (hret : s.monitorReturned = false) :
    (step cfg s .monitorReturns).isSome := by
  show (if s.monitorReturned = true then none else _ : Option Launcher).isSome
  rw [if_neg (by simp [hret])]
  split
  · rename_i halive
    exact absurd halive hchild
  · rfl
  · rfl

theorem childEnds_cases {ending : Ending} (h : s.step cfg (.childEnds ending) = some t) :
    s.child = .alive ∧ t = { s with child := .zombie ending } := by
  simp only [Launcher.step] at h
  split at h
  · rename_i halive
    cases h
    exact ⟨halive, rfl⟩
  · cases h

theorem stopCalled_cases {timeoutMs : Nat} (h : s.step cfg (.stopCalled timeoutMs) = some t) :
    s.hasPid = true ∧ t = { s.signal with stop := .polling timeoutMs 0 } ∨
      s.hasPid = false ∧ t = s := by
  simp only [Launcher.step] at h
  split at h
  · cases h
    split
    · rename_i hpid
      exact Or.inl ⟨hpid, rfl⟩
    · rename_i hpid
      exact Or.inr ⟨Bool.not_eq_true _ ▸ hpid, rfl⟩
  · cases h

/-- The poll reaps the child, or it goes on, or its time is over. -/
theorem stopPolls_cases (h : s.step cfg .stopPolls = some t) :
    ∃ timeoutMs elapsed, s.stop = .polling timeoutMs elapsed ∧
      ((∃ e, s.child = .zombie e ∧ elapsed < timeoutMs ∧
          t = { s with child := .reaped e, stop := .killing }) ∨
        ∃ next, next ≠ .idle ∧ next ≠ .waiting ∧
          (elapsed < timeoutMs → ∀ e, s.child ≠ .zombie e) ∧ t = { s with stop := next }) := by
  simp only [Launcher.step] at h
  split at h
  · rename_i timeoutMs elapsed hpolling
    refine ⟨timeoutMs, elapsed, hpolling, ?_⟩
    split at h
    · rename_i hlt
      split at h
      · rename_i e hzombie
        cases h
        exact Or.inl ⟨e, hzombie, hlt, rfl⟩
      · rename_i hneq
        cases h
        exact Or.inr ⟨.polling timeoutMs (elapsed + 50), fun he => (nomatch he),
          fun he => (nomatch he), fun _ e he => hneq e he, rfl⟩
    · rename_i hover
      cases h
      exact Or.inr ⟨.killing, fun he => (nomatch he), fun he => (nomatch he),
        fun hlt => absurd hlt hover, rfl⟩
  · cases h

theorem stopKills_cases (h : s.step cfg .stopKills = some t) :
    s.stop = .killing ∧ t = { s.signal with stop := .waiting } := by
  simp only [Launcher.step] at h
  split at h
  · rename_i hkilling
    cases h
    exact ⟨hkilling, rfl⟩
  · cases h

theorem stopWaits_cases (h : s.step cfg .stopWaits = some t) :
    s.stop = .waiting ∧ ∃ e, (s.child = .zombie e ∨ s.child = .reaped e) ∧
      t = { s with child := .reaped e, hasPid := false, stop := .idle } := by
  simp only [Launcher.step] at h
  split at h
  · rename_i e hwaiting hzombie
    cases h
    exact ⟨hwaiting, e, Or.inl hzombie, rfl⟩
  · rename_i e hwaiting hreaped
    cases h
    exact ⟨hwaiting, e, Or.inr hreaped, by rw [← hreaped]⟩
  · cases h

theorem monitorReturns_cases (h : s.step cfg .monitorReturns = some t) :
    s.monitorReturned = false ∧
      ((∃ e, s.child = .zombie e ∧ t = report cfg { s with child := .reaped e } e) ∨
        ∃ e, s.child = .reaped e ∧ t = report cfg s untouched) := by
  simp only [Launcher.step] at h
  split at h
  · cases h
  · rename_i hret
    refine ⟨Bool.not_eq_true _ ▸ hret, ?_⟩
    split at h
    · cases h
    · rename_i e hzombie
      cases h
      exact Or.inl ⟨e, hzombie, rfl⟩
    · rename_i e hreaped
      cases h
      exact Or.inr ⟨e, hreaped, rfl⟩

theorem Inv.truthful (h : Inv cfg start s) : Truthful cfg start s := by
  cases hret : s.monitorReturned with
  | false =>
    obtain ⟨-, hreported, -⟩ := h.pending hret
    refine ⟨by simp [hreported, hret], monitorReturns_isSome, ?_, ?_, h.signals⟩
    · intro hzero
      rw [hreported] at hzero
      cases hzero
    · intro _ _ hret'
      rw [hret] at hret'
      cases hret'
  | true =>
    obtain ⟨e, hchild, hreported, hsess⟩ := h.returned hret
    refine ⟨by simp [hreported, hret], monitorReturns_isSome, ?_, ?_, h.signals⟩
    · intro hzero
      rw [hreported, List.mem_singleton] at hzero
      rw [hchild, code_eq_zero hzero.symm]
      rfl
    · intro signal hending _
      rw [hchild] at hending
      cases hending
      exact ⟨-1, by decide, hsess⟩

/-- `stop()` goes on without touching the child. -/
theorem Inv.stops (h : Inv cfg start s) (at' : StopAt) (hasPid : Bool)
    (hbusy : at' ≠ .idle → at' ≠ .waiting → ∀ e, s.child ≠ .reaped e) :
    Inv cfg start { s with stop := at', hasPid := hasPid } :=
  ⟨h.pending, h.returned, hbusy, h.signals⟩

/-- The monitor waits for a child that nobody has reaped. -/
theorem Inv.pending_of_not_reaped (h : Inv cfg start s) (hfree : ∀ e, s.child ≠ .reaped e) :
    s.monitorReturned = false := by
  rw [← Bool.not_eq_true]
  intro hret
  obtain ⟨e, he, -⟩ := h.returned hret
  exact hfree e he

/-- The callback runs once the child is reaped, with the status it was reaped with. -/
theorem Inv.report (h : Inv cfg start s) (hret : s.monitorReturned = false) (e : Ending)
    (hfree : s.stop ≠ .idle → s.stop ≠ .waiting → False) :
    Inv cfg start (report cfg { s with child := .reaped e } e) := by
  obtain ⟨hsess, hreported, -⟩ := h.pending hret
  refine ⟨fun hret' => (nomatch hret'), ?_, fun hidle hwaiting => (hfree hidle hwaiting).elim,
    h.signals⟩
  intro _
  refine ⟨e, rfl, ?_, ?_⟩
  · show s.reported ++ [e.code] = [e.code]
    rw [hreported]
    rfl
  · show onSidecarExit cfg s.sess e.code = _
    rw [hsess]

theorem Inv.step {m : Move} (h : Inv cfg start s) (hm : s.Apart m)
    (hstep : s.step cfg m = some t) : Inv cfg start t := by
  cases m with
  | childEnds ending =>
    obtain ⟨halive, rfl⟩ := childEnds_cases hstep
    have hfree : ∀ e, s.child ≠ .reaped e := fun _ => halive.trans_ne fun he => nomatch he
    have hret := h.pending_of_not_reaped hfree
    obtain ⟨hsess, hreported, -⟩ := h.pending hret
    exact ⟨fun _ => ⟨hsess, hreported, fun _ he => nomatch he⟩,
      fun hret' => absurd (hret.symm.trans hret') (by decide), fun _ _ _ he => (nomatch he),
      h.signals⟩
  | stopCalled timeoutMs =>
    rcases stopCalled_cases hstep with ⟨hpid, rfl⟩ | ⟨-, rfl⟩
    · rw [signal_of_not_reaped (hm hpid)]
      exact h.stops _ s.hasPid fun _ _ => hm hpid
    · exact h
  | stopPolls =>
    obtain ⟨timeoutMs, elapsed, hpolling, hcase⟩ := stopPolls_cases hstep
    rcases hcase with ⟨e, hzombie, hlt, -⟩ | ⟨next, -, -, -, rfl⟩
    · exact absurd hzombie (hm timeoutMs elapsed hpolling hlt e)
    · have hfree := h.busy (hpolling.trans_ne (fun he => nomatch he))
        (hpolling.trans_ne (fun he => nomatch he))
      exact h.stops next s.hasPid fun _ _ => hfree
  | stopKills =>
    obtain ⟨hkilling, rfl⟩ := stopKills_cases hstep
    have hfree := h.busy (hkilling.trans_ne (by decide)) (hkilling.trans_ne (by decide))
    rw [signal_of_not_reaped hfree]
    exact h.stops _ s.hasPid fun _ hneq => absurd rfl hneq
  | stopWaits =>
    obtain ⟨-, e, hzombie | hreaped, rfl⟩ := stopWaits_cases hstep
    · have hfree : ∀ e, s.child ≠ .reaped e := fun _ => hzombie.trans_ne fun he => nomatch he
      have hret := h.pending_of_not_reaped hfree
      obtain ⟨hsess, hreported, -⟩ := h.pending hret
      refine ⟨fun _ => ⟨hsess, hreported, ?_⟩,
        fun hret' => absurd (hret.symm.trans hret') (by decide), fun hneq => absurd rfl hneq,
        h.signals⟩
      intro e' he'
      cases he'
      exact hm e hzombie
    · rw [← hreaped]
      exact h.stops _ false fun hneq => absurd rfl hneq
  | monitorReturns =>
    obtain ⟨hret, ⟨e, hzombie, rfl⟩ | ⟨e, hreaped, rfl⟩⟩ := monitorReturns_cases hstep
    · refine h.report hret e fun hidle hwaiting => ?_
      rcases hm with hfree | hfree | hfree
      · exact hfree e hzombie
      · exact hidle hfree
      · exact hwaiting hfree
    · -- `stop()` has reaped a child that exited with 0, which is what the monitor reads
      obtain rfl := (h.pending hret).2.2 e hreaped
      have hreport := h.report hret untouched fun hidle hwaiting =>
        h.busy hidle hwaiting _ hreaped
      rw [untouched, ← hreaped] at hreport
      exact hreport

/-! ## What comes of a race -/

/-- The child has been reaped in front of a SIGKILL, or by `stop()` though it did not exit
    with 0. -/
def Doomed (s : Launcher) : Prop :=
  ∃ e, s.child = .reaped e ∧
    (s.stop ≠ .idle ∧ s.stop ≠ .waiting ∨ s.monitorReturned = false ∧ e ≠ .exited 0)

theorem Doomed.step {m : Move} (h : s.Doomed) (hstep : s.step cfg m = some t) :
    ¬ Truthful cfg start t ∨ t.Doomed := by
  obtain ⟨e, hchild, hcase⟩ := h
  cases m with
  | childEnds ending =>
    obtain ⟨halive, -⟩ := childEnds_cases hstep
    rw [hchild] at halive
    cases halive
  | stopCalled timeoutMs =>
    rcases stopCalled_cases hstep with ⟨-, rfl⟩ | ⟨-, rfl⟩
    · rw [signal_of_reaped hchild]
      exact Or.inl fun htruthful => nomatch htruthful.signals
    · exact Or.inr ⟨e, hchild, hcase⟩
  | stopPolls =>
    obtain ⟨_, _, -, hpolled⟩ := stopPolls_cases hstep
    rcases hpolled with ⟨e', hzombie, -⟩ | ⟨next, hidle, hwaiting, -, rfl⟩
    · rw [hchild] at hzombie
      cases hzombie
    · exact Or.inr ⟨e, hchild, Or.inl ⟨hidle, hwaiting⟩⟩
  | stopKills =>
    obtain ⟨-, rfl⟩ := stopKills_cases hstep
    rw [signal_of_reaped hchild]
    exact Or.inl fun htruthful => nomatch htruthful.signals
  | stopWaits =>
    obtain ⟨hwaiting, e', hzombie | hreaped, rfl⟩ := stopWaits_cases hstep
    · rw [hchild] at hzombie
      cases hzombie
    · rw [hchild] at hreaped
      cases hreaped
      rcases hcase with ⟨-, hneq⟩ | hlate
      · exact absurd hwaiting hneq
      · exact Or.inr ⟨e, rfl, Or.inr hlate⟩
  | monitorReturns =>
    obtain ⟨-, ⟨e', hzombie, -⟩ | ⟨e', -, rfl⟩⟩ := monitorReturns_cases hstep
    · rw [hchild] at hzombie
      cases hzombie
    · rcases hcase with hbusy | ⟨-, hneq⟩
      · exact Or.inr ⟨e, hchild, Or.inl hbusy⟩
      · left
        intro htruthful
        have hzero := htruthful.zero (List.mem_append_right _ List.mem_cons_self)
        rw [show (Launcher.report cfg s untouched).child = s.child from rfl, hchild] at hzero
        exact hneq (Option.some.inj hzero)

theorem Inv.doomed_of_not_apart {m : Move} (h : Inv cfg start s) (hm : ¬ s.Apart m)
    (hstep : s.step cfg m = some t) : ¬ Truthful cfg start t ∨ t.Doomed := by
  cases m with
  | childEnds ending => exact absurd trivial hm
  | stopKills => exact absurd trivial hm
  | stopCalled timeoutMs =>
    simp only [Apart, Classical.not_imp, not_forall, not_not] at hm
    obtain ⟨hpid, e, hreaped⟩ := hm
    rcases stopCalled_cases hstep with ⟨-, rfl⟩ | ⟨hnone, -⟩
    · rw [signal_of_reaped hreaped]
      exact Or.inl fun htruthful => nomatch htruthful.signals
    · exact absurd (hpid.symm.trans hnone) (by decide)
  | stopPolls =>
    simp only [Apart, not_forall, not_not] at hm
    obtain ⟨timeoutMs, elapsed, hpolling, hlt, e, hzombie⟩ := hm
    obtain ⟨timeoutMs', elapsed', hpolling', hcase⟩ := stopPolls_cases hstep
    rw [hpolling] at hpolling'
    cases hpolling'
    rcases hcase with ⟨e', -, -, rfl⟩ | ⟨-, -, -, hneq, -⟩
    · exact Or.inr ⟨e', rfl, Or.inl ⟨fun he => (nomatch he), fun he => nomatch he⟩⟩
    · exact absurd hzombie (hneq hlt e)
  | stopWaits =>
    simp only [Apart, not_forall] at hm
    obtain ⟨e, hzombie, hneq⟩ := hm
    have hfree : ∀ e, s.child ≠ .reaped e := fun _ => hzombie.trans_ne fun he => nomatch he
    obtain ⟨-, e', hzombie' | hreaped, rfl⟩ := stopWaits_cases hstep
    · rw [hzombie] at hzombie'
      cases hzombie'
      exact Or.inr ⟨e, rfl, Or.inr ⟨h.pending_of_not_reaped hfree, hneq⟩⟩
    · exact absurd hreaped (hfree e')
  | monitorReturns =>
    simp only [Apart, not_or, not_forall, not_not] at hm
    obtain ⟨⟨e, hzombie⟩, hidle, hwaiting⟩ := hm
    obtain ⟨-, ⟨e', -, rfl⟩ | ⟨e', hreaped, -⟩⟩ := monitorReturns_cases hstep
    · exact Or.inr ⟨e', rfl, Or.inl ⟨hidle, hwaiting⟩⟩
    · rw [hzombie] at hreaped
      cases hreaped

theorem inv_start (cfg : RestartConfig) (start : SidecarSession) :
    Inv cfg start { sess := start } :=
  ⟨fun _ => ⟨rfl, rfl, fun _ he => nomatch he⟩, fun hret => (nomatch hret),
    fun hidle => absurd rfl hidle, rfl⟩

/-- What is reported is true if `stop()` and the monitor keep apart; and only then in a run
    that ends with both of them done. -/
theorem exits_truthful_iff (cfg : RestartConfig) (start : SidecarSession) (moves : List Move) :
    (AllSteps (step cfg) Apart { sess := start } moves →
      AllStates (step cfg) (Truthful cfg start) { sess := start } moves) ∧
    ∀ t, run (step cfg) { sess := start } moves = some t → t.stop = .idle →
      t.monitorReturned = true →
      AllStates (step cfg) (Truthful cfg start) { sess := start } moves →
      AllSteps (step cfg) Apart { sess := start } moves := by
  constructor
  · intro hapart
    exact (allStates_of_invariant (fun _ _ _ => Inv.step) (inv_start cfg start) hapart).mono
      fun _ => Inv.truthful
  · intro t hrun hidle hret
    refine allSteps_of_doom (I := Inv cfg start) (D := Doomed) (fun _ _ _ => Inv.step)
      (fun _ _ _ => Inv.doomed_of_not_apart) (fun _ _ _ => Doomed.step)
      (inv_start cfg start) hrun ?_
    rintro ⟨e, -, ⟨hbusy, -⟩ | ⟨hpending, -⟩⟩
    · exact hbusy hidle
    · rw [hret] at hpending
      cases hpending

/-- The health monitor stops a sidecar that hangs; it dies of the SIGTERM and the poll reaps
    it. The monitor reports code 0, so the session counts as cleanly exited, and SIGKILL goes
    to a number that is free. -/
theorem killed_reported_clean :
    let start : SidecarSession := { pluginDir := "plugins/web", runtime := .python }
    let moves : List Move := [.stopCalled 1000, .stopPolls, .childEnds (.killed 15), .stopPolls,
      .stopKills, .stopWaits, .monitorReturns]
    ((run (step {}) { sess := start } moves).map fun s =>
        (s.reported, s.restartDelay, s.signalledReaped)) = some ([0], none, true) ∧
      ¬ AllStates (step {}) (Truthful {} start) { sess := start } moves := by
  refine ⟨by decide, ?_⟩
  intro h
  have hlast := h.last (t := (run (step {})
    { sess := { pluginDir := "plugins/web", runtime := .python } }
    [.stopCalled 1000, .stopPolls, .childEnds (.killed 15), .stopPolls, .stopKills, .stopWaits,
      .monitorReturns]).get (by decide)) (by rfl)
  exact absurd (hlast.zero (by decide)) (by decide)

end Launcher

end TruellmEngine.Bridge
