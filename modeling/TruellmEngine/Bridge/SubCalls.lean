/-
  The sub-calls of one request: the invocations of `call_engine` that plugin code makes
  with the request's context, from a tool or a preprocessor of the request, or inside
  another invocation, where the preprocessor chain runs again and where tokens are handed
  to `on_token`.

  A run is a list of moves, so it stands for any behaviour of the plugins, on any number of
  threads. An invocation remembers the depth it was judged at. Beside it stand how many
  invocations it is made in, and the depth its caller was judged at, which the code knows
  nothing of.

  The depth is read from the context, which all levels share and nothing writes.
  `subCalls_bounded_iff`: the nesting is bounded, and each sub-call judged one deeper than
  its caller, along exactly the runs in which no sub-call is admitted inside another.
-/
import TruellmEngine.Bridge.PreprocessorChain
import TruellmEngine.Lib.Run

namespace TruellmEngine.Bridge

open Lib

structure SubCallConfig where
  maxHierarchyDepth : Int
  hasEngine : Bool
  hasPreprocessors : Bool

/-- Where an invocation is. Plugin code runs in both places. -/
inductive Phase where
  | chain
  | generating
deriving DecidableEq

structure Invocation where
  id : Nat
  subDepth : Int
  phase : Phase
  /-- The invocations it is made in, with itself. -/
  nesting : Nat
  /-- The depth its caller was judged at; the request itself is at 0. -/
  callerDepth : Int
deriving DecidableEq

/-- The context of a request, its invocations and the counters. -/
structure RequestCalls where
  recursionDepth : Int := 0
  active : List Invocation := []
  callEngineSubcalls : Nat := 0
  callEngineDepthAborts : Nat := 0
  maxRecursionDepthReached : Int := 0
  returned : List PluginError := []

namespace RequestCalls

inductive Move where
  /-- Plugin code calls `call_engine`: the request's own, or what runs inside `caller`. -/
  | enter (caller : Option Nat) (hasMessages runPreprocessors : Bool)
  /-- The chain of an invocation has run. -/
  | chainEnds (id : Nat) (decision : Decision)
  /-- `generate` has returned. -/
  | generated (id : Nat) (ok : Bool)

def find (s : RequestCalls) (id : Nat) : Option Invocation := s.active.find? (·.id == id)

/-- An invocation returns to its caller. -/
def leave (s : RequestCalls) (id : Nat) (ec : PluginError) : RequestCalls :=
  { s with active := s.active.filter (·.id != id), returned := s.returned ++ [ec] }

/-- The head of `vtable_call_engine`; the caller's nesting and depth are 0 and 0 for the
    request itself. -/
def callEngine (cfg : SubCallConfig) (s : RequestCalls) (callerNesting : Nat)
    (callerDepth : Int) (hasMessages runPreprocessors : Bool) : RequestCalls :=
  if !cfg.hasEngine then { s with returned := s.returned ++ [.internal] }
  else if !hasMessages then { s with returned := s.returned ++ [.invalid] }
  else
    let subDepth := s.recursionDepth + 1
    let counted := { s with
      callEngineSubcalls := s.callEngineSubcalls + 1
      maxRecursionDepthReached := max s.maxRecursionDepthReached subDepth }
    if subDepth > cfg.maxHierarchyDepth then
      { counted with
        callEngineDepthAborts := s.callEngineDepthAborts + 1
        returned := s.returned ++ [.abort] }
    else
      { counted with
        active :=
          { id := s.callEngineSubcalls
            subDepth := subDepth
            phase := if runPreprocessors && cfg.hasPreprocessors then .chain else .generating
            nesting := callerNesting + 1
            callerDepth := callerDepth } :: s.active }

def step (cfg : SubCallConfig) (s : RequestCalls) : Move → Option RequestCalls
  | .enter none hasMessages runPreprocessors =>
    some (s.callEngine cfg 0 0 hasMessages runPreprocessors)
  | .enter (some caller) hasMessages runPreprocessors =>
    (s.find caller).map fun inv =>
      s.callEngine cfg inv.nesting inv.subDepth hasMessages runPreprocessors
  | .chainEnds id decision =>
    (s.find id).bind fun inv =>
      if inv.phase = .chain then
        match decision with
        | .abort => some (s.leave id .invalid)
        | .respond => some (s.leave id .ok)
        | .pass => some { s with
            active := s.active.map fun x =>
              if x.id = id then { x with phase := .generating } else x }
      else none
  | .generated id ok =>
    (s.find id).bind fun inv =>
      if inv.phase = .generating then some (s.leave id (if ok then .ok else .internal)) else none

/-- No invocation is nested deeper than the limit, and each was judged one deeper than its
    caller. -/
def Bounded (cfg : SubCallConfig) (s : RequestCalls) : Prop :=
  ∀ inv ∈ s.active, inv.nesting ≤ cfg.maxHierarchyDepth ∧ inv.subDepth = inv.callerDepth + 1

/-- What the checks of `vtable_call_engine` let through. -/
def Admits (cfg : SubCallConfig) (s : RequestCalls) (hasMessages : Bool) : Prop :=
  cfg.hasEngine = true ∧ hasMessages = true ∧ s.recursionDepth + 1 ≤ cfg.maxHierarchyDepth

/-- No sub-call is admitted inside another. -/
def NotNested (cfg : SubCallConfig) (s : RequestCalls) : Move → Prop
  | .enter (some _) hasMessages _ => ¬ s.Admits cfg hasMessages
  | _ => True

/-- The invocations there are without nesting. -/
structure Flat (cfg : SubCallConfig) (s : RequestCalls) : Prop where
  depth : s.recursionDepth = 0
  active : ∀ inv ∈ s.active, inv.subDepth = 1 ∧ inv.nesting = 1 ∧ inv.callerDepth = 0 ∧
    1 ≤ cfg.maxHierarchyDepth

variable {cfg : SubCallConfig} {s t : RequestCalls}

theorem callEngine_of_not_admits (nesting : Nat) (depth : Int) {hasMessages : Bool} (runP : Bool)
    (h : ¬ s.Admits cfg hasMessages) :
    (s.callEngine cfg nesting depth hasMessages runP).active = s.active ∧
    (s.callEngine cfg nesting depth hasMessages runP).recursionDepth = s.recursionDepth := by
  unfold callEngine
  split
  · exact ⟨rfl, rfl⟩
  · rename_i hengine
    split
    · exact ⟨rfl, rfl⟩
    · rename_i hmessages
      dsimp only
      rw [if_pos]
      · exact ⟨rfl, rfl⟩
      · by_contra hle
        exact h ⟨by simpa using hengine, by simpa using hmessages, by omega⟩

/-- An admitted call is judged by the context alone. -/
theorem callEngine_of_admits (nesting : Nat) (depth : Int) {hasMessages : Bool} (runP : Bool)
    (h : s.Admits cfg hasMessages) :
    ∃ inv, (s.callEngine cfg nesting depth hasMessages runP).active = inv :: s.active ∧
      inv.subDepth = s.recursionDepth + 1 ∧ inv.nesting = nesting + 1 ∧
      inv.callerDepth = depth ∧
      (s.callEngine cfg nesting depth hasMessages runP).recursionDepth = s.recursionDepth := by
  obtain ⟨hengine, hmessages, hle⟩ := h
  unfold callEngine
  rw [if_neg (by simp [hengine]), if_neg (by simp [hmessages])]
  dsimp only
  rw [if_neg (by omega)]
  exact ⟨_, rfl, rfl, rfl, rfl, rfl⟩

theorem find_mem {id : Nat} {inv : Invocation} (h : s.find id = some inv) : inv ∈ s.active :=
  List.mem_of_find?_eq_some h

/-- What is left of the invocations by a move that is no call. -/
theorem Flat.of_active (h : s.Flat cfg) (hdepth : t.recursionDepth = s.recursionDepth)
    (hactive : ∀ inv ∈ t.active, ∃ old ∈ s.active, inv.subDepth = old.subDepth ∧
      inv.nesting = old.nesting ∧ inv.callerDepth = old.callerDepth) : t.Flat cfg := by
  refine ⟨hdepth.trans h.depth, ?_⟩
  intro inv hinv
  obtain ⟨old, hold, h1, h2, h3⟩ := hactive inv hinv
  rw [h1, h2, h3]
  exact h.active old hold

theorem Flat.leave (h : s.Flat cfg) (id : Nat) (ec : PluginError) : (s.leave id ec).Flat cfg :=
  h.of_active rfl fun inv hinv => ⟨inv, (List.mem_filter.mp hinv).1, rfl, rfl, rfl⟩

theorem Flat.generates (h : s.Flat cfg) (id : Nat) :
    ({ s with active := s.active.map fun x =>
        if x.id = id then { x with phase := .generating } else x } : RequestCalls).Flat cfg := by
  refine h.of_active rfl ?_
  intro inv hinv
  obtain ⟨old, hold, rfl⟩ := List.mem_map.mp hinv
  refine ⟨old, hold, ?_⟩
  split <;> exact ⟨rfl, rfl, rfl⟩

theorem Flat.callEngine_request (h : s.Flat cfg) (hasMessages runP : Bool) :
    (s.callEngine cfg 0 0 hasMessages runP).Flat cfg := by
  by_cases hadmits : s.Admits cfg hasMessages
  · obtain ⟨inv, hactive, hsub, hnest, hcaller, hdepth⟩ :=
      callEngine_of_admits 0 0 runP hadmits
    refine ⟨hdepth.trans h.depth, ?_⟩
    rw [hactive]
    refine List.forall_mem_cons.mpr ⟨?_, h.active⟩
    have hle := hadmits.2.2
    rw [h.depth] at hsub hle
    exact ⟨hsub, hnest, hcaller, hle⟩
  · obtain ⟨hactive, hdepth⟩ :=
      callEngine_of_not_admits 0 0 runP hadmits
    exact ⟨hdepth.trans h.depth, by rw [hactive]; exact h.active⟩

/-- A run without nested sub-calls stays flat. -/
theorem Flat.step {m : Move} (h : s.Flat cfg) (hm : s.NotNested cfg m)
    (hstep : s.step cfg m = some t) : t.Flat cfg := by
  cases m with
  | enter caller hasMessages runP =>
    cases caller with
    | none =>
      cases hstep
      exact h.callEngine_request hasMessages runP
    | some caller =>
      obtain ⟨inv, -, rfl⟩ := Option.map_eq_some_iff.mp hstep
      obtain ⟨hactive, hdepth⟩ := callEngine_of_not_admits inv.nesting inv.subDepth runP hm
      exact ⟨hdepth.trans h.depth, by rw [hactive]; exact h.active⟩
  | chainEnds id decision =>
    obtain ⟨inv, -, hcase⟩ := Option.bind_eq_some_iff.mp hstep
    split at hcase
    · cases decision with
      | pass =>
        cases hcase
        exact h.generates id
      | respond =>
        cases hcase
        exact h.leave id .ok
      | abort =>
        cases hcase
        exact h.leave id .invalid
    · cases hcase
  | generated id ok =>
    obtain ⟨inv, -, hcase⟩ := Option.bind_eq_some_iff.mp hstep
    split at hcase
    · cases hcase
      exact h.leave id _
    · cases hcase

theorem Flat.bounded (h : s.Flat cfg) : s.Bounded cfg := by
  intro inv hinv
  obtain ⟨hsub, hnest, hcaller, hmax⟩ := h.active inv hinv
  rw [hsub, hnest, hcaller]
  exact ⟨by omega, by omega⟩

/-- An admitted nested sub-call is judged at its caller's depth. -/
theorem Flat.not_bounded_of_nested {m : Move} (h : s.Flat cfg) (hm : ¬ s.NotNested cfg m)
    (hstep : s.step cfg m = some t) : ¬ t.Bounded cfg := by
  cases m with
  | enter caller hasMessages runP =>
    cases caller with
    | none => exact absurd trivial hm
    | some caller =>
      obtain ⟨inv, hfind, rfl⟩ := Option.map_eq_some_iff.mp hstep
      have hadmits : s.Admits cfg hasMessages := not_not.mp hm
      obtain ⟨new, hactive, hsub, -, hcaller, -⟩ := callEngine_of_admits inv.nesting
        inv.subDepth runP hadmits
      intro hbounded
      have hnew := (hbounded new (by rw [hactive]; exact List.mem_cons_self)).2
      rw [hsub, hcaller, h.depth, (h.active inv (find_mem hfind)).1] at hnew
      omega
  | chainEnds id decision => exact absurd trivial hm
  | generated id ok => exact absurd trivial hm

/-- Along a run of a request's moves the sub-calls are bounded exactly when none is admitted
    inside another. -/
theorem subCalls_bounded_iff (cfg : SubCallConfig) (moves : List Move) :
    AllStates (step cfg) (Bounded cfg) {} moves ↔ AllSteps (step cfg) (NotNested cfg) {} moves :=
  allStates_iff_allSteps (I := Flat cfg) (fun _ => Flat.bounded) (fun _ _ _ => Flat.step)
    (fun _ _ _ => Flat.not_bounded_of_nested)
    ⟨rfl, fun _ hinv => absurd hinv List.not_mem_nil⟩ moves

/-- Limit 1: a preprocessor that runs on a sub-call makes a sub-call in it, and so on. -/
theorem nested_twice :
    let cfg : SubCallConfig := ⟨1, true, true⟩
    let moves : List Move := [.enter none true true, .enter (some 0) true true]
    ((run (step cfg) {} moves).map fun s => s.active.map fun inv => (inv.nesting, inv.subDepth)) =
        some [(2, 1), (1, 1)] ∧
      ¬ AllStates (step cfg) (Bounded cfg) {} moves := by
  refine ⟨by decide, ?_⟩
  intro h
  have hlast := h.last (t := (run (step ⟨1, true, true⟩) {}
    [.enter none true true, .enter (some 0) true true]).get (by decide)) (by rfl)
  exact absurd (hlast ⟨1, 1, .chain, 2, 1⟩ (by decide)).1 (by decide)

end RequestCalls

end TruellmEngine.Bridge
