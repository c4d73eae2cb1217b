/-
  The exits of `CudaEngine::generate`.

  A call holds the blocks of its sequence and an entry of the session table. Every return
  gives the blocks back by hand, the entry belongs to a guard. An exception, of a CUDA check,
  of a compression pass or of `on_token`, runs the guard only.

  `clean_iff`: all blocks and entries of ended calls are back along a run exactly when no call
  of the run ends by an exception. The entries are gone in any case (`unregistered`).
-/
import TruellmEngine.Cuda.BlockCount
import Mathlib.Data.List.AList

namespace TruellmEngine.Cuda

open Lib Allocator

variable {ι Cell Logits Capture Book : Type*}

/-- `active_sessions_`: the sequence of a request, and its length. -/
abbrev ActiveSessions := AList fun _ : Bytes => UInt64 × Nat

namespace ActiveSessions

def register (t : ActiveSessions) (requestId : Bytes) (seqId : UInt64) : ActiveSessions :=
  if requestId = [] then t else t.insert requestId (seqId, 0)

def unregister (t : ActiveSessions) (requestId : Bytes) : ActiveSessions :=
  if requestId = [] then t else t.erase requestId

def updateKvLen (t : ActiveSessions) (requestId : Bytes) (newLen : Nat) : ActiveSessions :=
  if requestId = [] then t
  else
    match t.lookup requestId with
    | none => t
    | some entry => t.insert requestId (entry.1, newLen)

end ActiveSessions

/-- The calls on a device, and the session table. -/
structure Serving (ι Cell Logits Capture Book : Type*) where
  calls : Calls ι Cell Logits Capture Book
  activeSessions : ActiveSessions

/-- The phases with a CUDA check, a compression pass or the `on_token` callback. -/
def Phase.throws : Phase → Bool
  | .reduce | .prefill | .sample | .decode => true
  | _ => false

namespace Serving

/-- A step of call `i`, or an exception in it, which leaves pool cells, logits and captured
    tensors as the arguments say. -/
inductive Move (ι Cell Logits Capture Book : Type*) where
  | act (i : ι)
  | throw (i : ι) (kv : Nat → Written ι Cell) (logits : Written ι Logits) (capture : Capture)
    (codebook : Book)

variable (e : Engine Cell Logits Capture Book) (seqId : ι → UInt64)

/-- What a step of a call, from `c` to `c'`, does to the session table. -/
def sessionsAfter (i : ι) (c c' : Call) (t : ActiveSessions) : ActiveSessions :=
  match c.phase with
  | .allocate =>
    if c'.phase = .returned then t else t.register c.req.requestId (seqId i)
  | .prefill =>
    if e.useMegakernel = true ∧ c'.passes ≠ c.passes then
      t.updateKvLen c.req.requestId c'.seqPos
    else t
  | .decode => if c'.passes ≠ c.passes then t.updateKvLen c.req.requestId c'.seqPos else t
  | .release => t.unregister c.req.requestId
  | _ => t

variable [DecidableEq ι]

def step (w : Serving ι Cell Logits Capture Book) :
    Move ι Cell Logits Capture Book → Option (Serving ι Cell Logits Capture Book)
  | .act i =>
    let calls := w.calls.next (Cuda.act e seqId) i
    some {
      calls := calls
      activeSessions :=
        sessionsAfter e seqId i (w.calls.locals i) (calls.locals i) w.activeSessions }
  | .throw i kv logits capture codebook =>
    if (w.calls.locals i).phase.throws then
      some {
        calls := { w.calls with
          shared := { w.calls.shared with
            kv := kv, logits := logits, capture := capture, codebook := codebook }
          locals := Function.update w.calls.locals i { w.calls.locals i with phase := .returned } }
        activeSessions := w.activeSessions.unregister (w.calls.locals i).req.requestId }
    else none

def start (reqs : ι → GenerateRequest) : Serving ι Cell Logits Capture Book where
  calls := Threads.start (e.newDevice ι) (issued reqs)
  activeSessions := ∅

/-- The session table has no entry for the sequence of call `i`. -/
def Unregistered (w : Serving ι Cell Logits Capture Book) (i : ι) : Prop :=
  ∀ requestId len, w.activeSessions.lookup requestId ≠ some (seqId i, len)

/-- A call that has ended has neither blocks nor a session. With no call in flight, all
    blocks of the pool are free. -/
structure Clean (w : Serving ι Cell Logits Capture Book) : Prop where
  blocks : ∀ i, (w.calls.locals i).phase = .returned →
    w.calls.shared.alloc.blockTables.lookup (seqId i) = none
  sessions : ∀ i, (w.calls.locals i).phase = .returned → Unregistered seqId w i
  idle : (∀ i, (w.calls.locals i).phase.live = false) →
    w.calls.shared.alloc.freeList.length = e.maxNumBlocks

/-- The move is no exception. -/
def NoThrow (_ : Serving ι Cell Logits Capture Book) : Move ι Cell Logits Capture Book → Prop
  | .act _ => True
  | .throw _ _ _ _ _ => False

end Serving

/-! ## The session table -/

theorem ActiveSessions.lookup_unregister {t : ActiveSessions} {requestId other : Bytes}
    {entry : UInt64 × Nat} (h : (t.unregister other).lookup requestId = some entry) :
    t.lookup requestId = some entry ∧ (requestId = other → other = []) := by
  unfold ActiveSessions.unregister at h
  split at h
  · rename_i hnil
    exact ⟨h, fun _ => hnil⟩
  · by_cases heq : requestId = other
    · rw [heq, AList.lookup_erase] at h
      cases h
    · rw [AList.lookup_erase_ne heq] at h
      exact ⟨h, fun h => absurd h heq⟩

/-- An update keeps the sequences of the entries. -/
theorem ActiveSessions.lookup_updateKvLen {t : ActiveSessions} {requestId other : Bytes}
    {newLen : Nat} {entry : UInt64 × Nat}
    (h : (t.updateKvLen other newLen).lookup requestId = some entry) :
    ∃ len, t.lookup requestId = some (entry.1, len) := by
  unfold ActiveSessions.updateKvLen at h
  split at h
  · exact ⟨entry.2, h⟩
  split at h
  · exact ⟨entry.2, h⟩
  · rename_i old hold
    by_cases heq : requestId = other
    · rw [heq, AList.lookup_insert, Option.some.injEq] at h
      rw [heq, ← h]
      exact ⟨old.2, hold⟩
    · rw [AList.lookup_insert_ne heq] at h
      exact ⟨entry.2, h⟩

/-- What a step of a call does to its phase. -/
structure PhaseStep (c c' : Call) : Prop where
  req : c'.req = c.req
  begins : c.phase = .allocate → c'.phase = .reduce ∨ c'.phase = .returned
  goesOn : c.phase ≠ .allocate → c.phase ≠ .release → c.phase ≠ .returned → c'.phase.live = true
  ends : c.phase = .release ∨ c.phase = .returned → c'.phase = .returned

theorem PhaseStep.between {c c' : Call} (hreq : c'.req = c.req) (hlive : c'.phase.live = true)
    (hallocate : c.phase ≠ .allocate) (hrelease : c.phase ≠ .release)
    (hreturned : c.phase ≠ .returned) : PhaseStep c c' where
  req := hreq
  begins := fun h => absurd h hallocate
  goesOn := fun _ _ _ => hlive
  ends := fun h => h.elim (fun h => absurd h hrelease) fun h => absurd h hreturned

theorem beginPrefill_req {e : Engine Cell Logits Capture Book} (c : Call) :
    (c.beginPrefill e).req = c.req := by
  rcases beginPrefill_cases (e := e) c with ⟨k, -, h⟩ | h | ⟨-, -, h⟩
  · rw [h]
  · rw [h]
  · rw [h]

theorem afterExtend_req {e : Engine Cell Logits Capture Book} (c : Call) (k : Nat) :
    (c.afterExtend e k).req = c.req := by
  rcases afterExtend_cases (e := e) c k with ⟨k', -, h⟩ | h
  · rw [h]
  · rw [h]

theorem afterPrefill_req {e : Engine Cell Logits Capture Book} (c : Call) :
    (c.afterPrefill e).req = c.req := by
  rcases afterPrefill_cases (e := e) c with h | ⟨-, h⟩ | ⟨-, -, h⟩
  · rw [h]
  · rw [h]
  · rw [h]

theorem afterSample_req {e : Engine Cell Logits Capture Book} (c : Call) (token : Token) :
    (c.afterSample e token).req = c.req := by
  obtain ⟨r, h | h | ⟨-, h⟩⟩ := afterSample_cases (e := e) c token
  · rw [h]
  · rw [h]
  · rw [h]

variable {e : Engine Cell Logits Capture Book} {seqId : ι → UInt64}

theorem phaseStep (i : ι) (s : Device ι Cell Logits Capture Book) (c : Call) :
    PhaseStep c (act e seqId i s c).2 := by
  unfold act
  cases hphase : c.phase with
  | allocate =>
    dsimp only
    split
    · exact ⟨rfl, fun _ => Or.inl rfl, fun h => absurd hphase h, by simp [hphase]⟩
    · exact ⟨rfl, fun _ => Or.inr rfl, fun h => absurd hphase h, by simp [hphase]⟩
  | reduce =>
    apply PhaseStep.between _ (beginPrefill_live _)
    · simp [hphase]
    · simp [hphase]
    · simp [hphase]
    · exact beginPrefill_req _
  | extend k =>
    dsimp only
    split
    · exact PhaseStep.between rfl rfl (by simp [hphase]) (by simp [hphase]) (by simp [hphase])
    · exact PhaseStep.between (afterExtend_req c k) (afterExtend_live c k) (by simp [hphase])
        (by simp [hphase]) (by simp [hphase])
  | prefill =>
    dsimp only
    split
    · exact PhaseStep.between rfl rfl (by simp [hphase]) (by simp [hphase]) (by simp [hphase])
    · apply PhaseStep.between _ (afterPrefill_live _)
      · simp [hphase]
      · simp [hphase]
      · simp [hphase]
      · exact afterPrefill_req _
  | sample =>
    exact PhaseStep.between (afterSample_req c _) (afterSample_live c _) (by simp [hphase])
      (by simp [hphase]) (by simp [hphase])
  | decodeExtend =>
    dsimp only
    split
    · exact PhaseStep.between rfl rfl (by simp [hphase]) (by simp [hphase]) (by simp [hphase])
    · exact PhaseStep.between rfl rfl (by simp [hphase]) (by simp [hphase]) (by simp [hphase])
  | decode =>
    dsimp only
    split
    · exact PhaseStep.between rfl rfl (by simp [hphase]) (by simp [hphase]) (by simp [hphase])
    · exact PhaseStep.between rfl rfl (by simp [hphase]) (by simp [hphase]) (by simp [hphase])
  | release => exact ⟨rfl, by simp [hphase], by simp [hphase], fun _ => rfl⟩
  | returned => exact ⟨rfl, by simp [hphase], by simp [hphase], fun _ => hphase⟩

namespace Serving

/-- Every entry of the session table is that of a call in flight, under its name. -/
def SessionsLive (seqId : ι → UInt64) (w : Serving ι Cell Logits Capture Book) : Prop :=
  ∀ requestId entry, w.activeSessions.lookup requestId = some entry →
    ∃ j, seqId j = entry.1 ∧ (w.calls.locals j).phase.live = true ∧
      (w.calls.locals j).req.requestId = requestId ∧ requestId ≠ []

theorem SessionsLive.unregistered {w : Serving ι Cell Logits Capture Book}
    (hinj : Function.Injective seqId) (h : SessionsLive seqId w) {i : ι}
    (hi : (w.calls.locals i).phase.live = false) : Unregistered seqId w i := by
  intro requestId len hlook
  obtain ⟨j, hj, hlive, -⟩ := h requestId _ hlook
  have hji : j = i := hinj hj
  rw [hji, hi] at hlive
  cases hlive

theorem SessionsLive.named {w : Serving ι Cell Logits Capture Book} (h : SessionsLive seqId w)
    {requestId : Bytes} {entry : UInt64 × Nat}
    (hlook : w.activeSessions.lookup requestId = some entry) : requestId ≠ [] := by
  obtain ⟨-, -, -, -, hne⟩ := h requestId entry hlook
  exact hne

variable [DecidableEq ι]

/-- What is left to check of a move of call `i`: its own entries. -/
theorem SessionsLive.move {w w' : Serving ι Cell Logits Capture Book} (h : SessionsLive seqId w)
    {i : ι} (hothers : ∀ j, j ≠ i → w'.calls.locals j = w.calls.locals j)
    (hreq : (w'.calls.locals i).req = (w.calls.locals i).req)
    (hentries : ∀ requestId entry, w'.activeSessions.lookup requestId = some entry →
      (∃ len, w.activeSessions.lookup requestId = some (entry.1, len) ∧
        (requestId = (w.calls.locals i).req.requestId → (w.calls.locals i).phase.live = true →
          (w'.calls.locals i).phase.live = true)) ∨
      (entry.1 = seqId i ∧ requestId = (w.calls.locals i).req.requestId ∧ requestId ≠ [] ∧
        (w'.calls.locals i).phase.live = true)) : SessionsLive seqId w' := by
  intro requestId entry hlook
  rcases hentries requestId entry hlook with ⟨len, hold, hlives⟩ | ⟨hseq, hname, hne, hlive⟩
  · obtain ⟨j, hj, hlive, hname, hne⟩ := h requestId _ hold
    refine ⟨j, hj, ?_⟩
    by_cases hji : j = i
    · subst hji
      rw [hreq]
      exact ⟨hlives hname.symm hlive, hname, hne⟩
    · rw [hothers j hji]
      exact ⟨hlive, hname, hne⟩
  · refine ⟨i, hseq.symm, hlive, ?_, hne⟩
    rw [hreq, hname]

theorem sessionsLive_act {w : Serving ι Cell Logits Capture Book} (h : SessionsLive seqId w) (i : ι)
    {w' : Serving ι Cell Logits Capture Book} (hst : step e seqId w (.act i) = some w') :
    SessionsLive seqId w' := by
  cases hst
  have hstep : PhaseStep (w.calls.locals i) ((w.calls.next (act e seqId) i).locals i) := by
    have hact : PhaseStep (w.calls.locals i) (act e seqId i w.calls.shared (w.calls.locals i)).2 :=
      phaseStep i w.calls.shared (w.calls.locals i)
    simpa [Threads.next] using hact
  apply h.move (i := i) (fun j hj => by simp [Threads.next, hj]) hstep.req
  intro requestId entry hlook
  dsimp only at hlook ⊢
  generalize (w.calls.next (act e seqId) i).locals i = c' at hstep hlook
  unfold sessionsAfter at hlook
  have hstays : ∀ {ph : Phase}, (w.calls.locals i).phase = ph → ph ≠ .allocate → ph ≠ .release →
      ph ≠ .returned → c'.phase.live = true := by
    rintro ph rfl hallocate hrelease hreturned
    exact hstep.goesOn hallocate hrelease hreturned
  cases hphase : (w.calls.locals i).phase with
  | allocate =>
    rw [hphase] at hlook
    have hquiet : ∀ {q : Prop}, Phase.allocate.live = true → q := by
      intro q hlive
      cases hlive
    dsimp only at hlook
    split at hlook
    · exact Or.inl ⟨entry.2, hlook, fun _ => hquiet⟩
    · rename_i hnot
      have hreduce := (hstep.begins hphase).resolve_right hnot
      unfold ActiveSessions.register at hlook
      split at hlook
      · exact Or.inl ⟨entry.2, hlook, fun _ => hquiet⟩
      · rename_i hname
        by_cases heq : requestId = (w.calls.locals i).req.requestId
        · rw [heq, AList.lookup_insert, Option.some.injEq] at hlook
          rw [← hlook]
          exact Or.inr ⟨rfl, heq, heq ▸ hname, by rw [hreduce]; rfl⟩
        · rw [AList.lookup_insert_ne heq] at hlook
          exact Or.inl ⟨entry.2, hlook, fun _ => hquiet⟩
  | prefill =>
    rw [hphase] at hlook
    have hlive := hstays hphase (by simp) (by simp) (by simp)
    dsimp only at hlook
    split at hlook
    · obtain ⟨len, hold⟩ := ActiveSessions.lookup_updateKvLen hlook
      exact Or.inl ⟨len, hold, fun _ _ => hlive⟩
    · exact Or.inl ⟨entry.2, hlook, fun _ _ => hlive⟩
  | decode =>
    rw [hphase] at hlook
    have hlive := hstays hphase (by simp) (by simp) (by simp)
    dsimp only at hlook
    split at hlook
    · obtain ⟨len, hold⟩ := ActiveSessions.lookup_updateKvLen hlook
      exact Or.inl ⟨len, hold, fun _ _ => hlive⟩
    · exact Or.inl ⟨entry.2, hlook, fun _ _ => hlive⟩
  | release =>
    rw [hphase] at hlook
    obtain ⟨hold, hempty⟩ := ActiveSessions.lookup_unregister hlook
    refine Or.inl ⟨entry.2, hold, ?_⟩
    exact fun heq _ => absurd (heq.trans (hempty heq)) (h.named hold)
  | reduce | extend k | sample | decodeExtend =>
    rw [hphase] at hlook
    exact Or.inl ⟨entry.2, hlook, fun _ _ => hstays hphase (by simp) (by simp) (by simp)⟩
  | returned =>
    rw [hphase] at hlook
    refine Or.inl ⟨entry.2, hlook, ?_⟩
    intro _ hlive
    cases hlive

theorem sessionsLive_throw {w w' : Serving ι Cell Logits Capture Book} (h : SessionsLive seqId w)
    (i : ι) {kv : Nat → Written ι Cell} {logits : Written ι Logits} {capture : Capture}
    {codebook : Book} (hst : step e seqId w (.throw i kv logits capture codebook) = some w') :
    SessionsLive seqId w' := by
  unfold step at hst
  dsimp only at hst
  split at hst
  · cases hst
    apply h.move (i := i) (fun j hj => by simp [hj]) (by simp)
    intro requestId entry hlook
    obtain ⟨hold, hempty⟩ := ActiveSessions.lookup_unregister hlook
    refine Or.inl ⟨entry.2, hold, ?_⟩
    exact fun heq _ => absurd (heq.trans (hempty heq)) (h.named hold)
  · cases hst

theorem sessionsLive_step {w w' : Serving ι Cell Logits Capture Book} (h : SessionsLive seqId w)
    {m : Move ι Cell Logits Capture Book} (hst : step e seqId w m = some w') :
    SessionsLive seqId w' := by
  cases m with
  | act i => exact sessionsLive_act h i hst
  | throw i kv logits capture codebook => exact sessionsLive_throw h i hst

omit [DecidableEq ι] in
theorem sessionsLive_start (e : Engine Cell Logits Capture Book) (seqId : ι → UInt64)
    (reqs : ι → GenerateRequest) : SessionsLive seqId (start e reqs) := by
  intro requestId entry hlook
  cases hlook

/-- However the calls end, the session table has no entry of an ended call. -/
theorem unregistered (e : Engine Cell Logits Capture Book) (seqId : ι ↪ UInt64)
    (reqs : ι → GenerateRequest) (ms : List (Move ι Cell Logits Capture Book)) :
    AllStates (step e seqId)
      (fun w => ∀ i, (w.calls.locals i).phase = .returned → Unregistered seqId w i)
      (start e reqs) ms := by
  have hrun : AllStates (step e seqId) (SessionsLive seqId) (start e reqs) ms :=
    allStates_of_kept (fun w m w' hw hst => sessionsLive_step hw hst)
      (sessionsLive_start e seqId reqs) ms
  apply hrun.mono
  intro w hw i hi
  exact hw.unregistered seqId.injective (by rw [hi]; rfl)

/-! ## The blocks -/

/-- The calls in flight are those with a block table, and no other sequence has one. -/
structure Held (e : Engine Cell Logits Capture Book) (seqId : ι → UInt64)
    (w : Serving ι Cell Logits Capture Book) : Prop where
  inv : Inv e seqId w.calls
  strangers : ∀ q, (∀ i, seqId i ≠ q) → w.calls.shared.alloc.blockTables.lookup q = none
  sessions : SessionsLive seqId w

omit [DecidableEq ι] in
theorem Held.clean {w : Serving ι Cell Logits Capture Book} (hinj : Function.Injective seqId)
    (h : Held e seqId w) : Clean e seqId w := by
  have hnone : ∀ i, (w.calls.locals i).phase.live = false →
      w.calls.shared.alloc.blockTables.lookup (seqId i) = none := by
    intro i hi
    have hlive := h.inv.live i
    rw [hi] at hlive
    simpa using hlive
  refine ⟨?_, ?_, ?_⟩
  · exact fun i hi => hnone i (by rw [hi]; rfl)
  · exact fun i hi => h.sessions.unregistered hinj (by rw [hi]; rfl)
  · intro hidle
    have hroom := h.inv.pool.exclusive.room
    have hempty : total List.length w.calls.shared.alloc.blockTables = 0 := by
      apply total_eq_zero
      intro q
      by_cases hq : ∃ i, seqId i = q
      · obtain ⟨i, rfl⟩ := hq
        exact hnone i (hidle i)
      · exact h.strangers q (not_exists.mp hq)
    rw [hempty, h.inv.pool.blocks] at hroom
    exact hroom

theorem Held.act {w w' : Serving ι Cell Logits Capture Book} (hinj : Function.Injective seqId)
    (h : Held e seqId w) {i : ι} (hst : step e seqId w (.act i) = some w') :
    Held e seqId w' := by
  have hsessions := sessionsLive_act h.sessions i hst
  have hother := (act_pool h.inv.pool (h.inv.live i)).2.1
  cases hst
  refine ⟨inv_next hinj h.inv i, ?_, hsessions⟩
  intro q hq
  exact (hother.tables q (Ne.symm (hq i))).trans (h.strangers q hq)

/-- An exception leaves the call's table in the pool. -/
theorem Held.not_clean {w w' : Serving ι Cell Logits Capture Book} (h : Held e seqId w) {i : ι}
    {kv : Nat → Written ι Cell} {logits : Written ι Logits} {capture : Capture} {codebook : Book}
    (hst : step e seqId w (.throw i kv logits capture codebook) = some w') :
    ¬ Clean e seqId w' := by
  unfold step at hst
  dsimp only at hst
  split at hst
  · rename_i hthrows
    cases hst
    intro hclean
    have hnone := hclean.blocks i (by simp)
    have hlive := h.inv.live i
    dsimp only at hnone
    rw [hnone] at hlive
    cases hphase : (w.calls.locals i).phase with
    | reduce | prefill | sample | decode =>
      rw [hphase] at hlive
      cases hlive
    | allocate | extend k | decodeExtend | release | returned =>
      rw [hphase] at hthrows
      cases hthrows
  · cases hst

/-- The ended calls have given blocks and sessions back, and without a call in flight the
    whole pool is free, in all states of a run exactly when no call of the run ends by an
    exception. -/
theorem clean_iff (e : Engine Cell Logits Capture Book) (seqId : ι ↪ UInt64)
    (reqs : ι → GenerateRequest) (ms : List (Move ι Cell Logits Capture Book)) :
    AllStates (step e seqId) (Clean e seqId) (start e reqs) ms ↔
      AllSteps (step e seqId) NoThrow (start e reqs) ms := by
  apply allStates_iff_allSteps (I := Held e seqId) (fun w h => h.clean seqId.injective)
  · intro w m w' h hok hst
    cases m with
    | act i => exact h.act seqId.injective hst
    | throw i kv logits capture codebook => exact hok.elim
  · intro w m w' h hbad hst
    cases m with
    | act i => exact absurd trivial hbad
    | throw i kv logits capture codebook => exact h.not_clean hst
  · exact ⟨(accounted_start e seqId reqs).inv, fun q _ => rfl, sessionsLive_start e seqId reqs⟩

/-- The `on_token` callback throws at the first token. -/
def throwAtToken : List (Move Unit Unit Unit Unit Unit) :=
  [.act (), .act (), .act (), .throw () (fun _ => ⟨(), none⟩) ⟨(), none⟩ () ()]

/-- A prompt of one token, whose callback throws: one block of two is free, and no call is in
    flight. -/
theorem throw_not_clean :
    ¬ AllStates (step twoBlockEngine fun _ : Unit => 1) (Clean twoBlockEngine fun _ : Unit => 1)
      (start twoBlockEngine fun _ => { tokens := [5] }) throwAtToken := by
  have hrun : (run (step twoBlockEngine fun _ : Unit => 1)
      (start twoBlockEngine fun _ => { tokens := [5] }) throwAtToken).map
      (fun w => ((w.calls.locals ()).phase, w.calls.shared.alloc.freeList.length)) =
        some (.returned, 1) := by
    decide +kernel
  obtain ⟨w, hw, hview⟩ := Option.map_eq_some_iff.mp hrun
  simp only [Prod.mk.injEq] at hview
  obtain ⟨hphase, hfree⟩ := hview
  intro h
  have hidle := (h.last hw).idle fun _ => by rw [hphase]; rfl
  rw [hfree] at hidle
  cases hidle

end Serving

end TruellmEngine.Cuda
