/-
  The launches of `CudaEngine::generate` and `inject_tokens` against the buffers that are
  allocated at load time.

  Both check that the pool has the blocks, and neither compares its lengths with the sizes of
  the buffers. `launchWithin_iff`: all launches of a run stay within the buffers exactly if
  each has a number of tokens, or a context, that fits (`LaunchFits`). The positions need no
  such condition: the blocks of a call cover them (`Roomy`), and those of an injection as long
  as the entry of the session table has the length of its own sequence. That is so where no
  two requests share an id (`kvLen_within`).

  An injection is one step. What a launch leaves in the pool, the logits and the captured
  tensors is an argument of it.
-/
import TruellmEngine.Cuda.CallExits
import TruellmEngine.Cuda.FailedInjection
import TruellmEngine.Cuda.ForwardScratch

namespace TruellmEngine.Cuda

open Lib Allocator

variable {ι Cell Logits Capture Book : Type*}

inductive Launch where
  | megakernel (p : Pass)
  | paged (maxCtx : Nat)

namespace Launch

variable (m : Scratch)

def Within : Launch → Prop
  | .megakernel p => m.MegakernelWithin p
  | .paged maxCtx => m.PagedWithin maxCtx

/-- The number of tokens or the context fits. -/
def Fits : Launch → Prop
  | .megakernel p => m.MegakernelFits p
  | .paged maxCtx => m.PagedFits maxCtx

/-- The positions of a pass of the megakernel fit the pool. -/
def KvWithin : Launch → Prop
  | .megakernel p => p.kvSeqLen ≤ m.mkKvCap
  | .paged _ => True

variable {m}

theorem within_iff (l : Launch) : l.Within m ↔ l.KvWithin m ∧ l.Fits m := by
  cases l with
  | megakernel p => exact Scratch.megakernelWithin_iff
  | paged maxCtx => exact Scratch.pagedWithin_iff.trans (iff_of_eq (true_and _)).symm

end Launch

/-- The sizes of the buffers are those of the engine's pool. -/
def Engine.scratch (e : Engine Cell Logits Capture Book) (dims : Dims) : Scratch where
  toDims := dims
  blockSize := e.blockSize
  numTotalBlocks := e.maxNumBlocks
  blockSize_pos := e.blockSize_pos

/-- The launch of the next forward pass. -/
def Call.launch (e : Engine Cell Logits Capture Book) (c : Call) : Option Launch :=
  match c.phase with
  | .prefill =>
    if e.useMegakernel then some (.megakernel ⟨c.prompt.length, c.prompt.length⟩)
    else some (.paged (c.seqPos + 1))
  | .decode =>
    if e.useMegakernel then some (.megakernel ⟨1, c.seqPos + 1⟩)
    else some (.paged (c.seqPos + 1))
  | _ => none

namespace Launching

/-- A step of `generate` or an exception in it, or an injection, with what its launch leaves
    behind and whether it succeeds. -/
inductive Move (ι Cell Logits Capture Book : Type*) where
  | serve (m : Serving.Move ι Cell Logits Capture Book)
  | inject (requestId : Bytes) (pos : Int) (tokens : List Token) (passed : Bool)
      (kv : Nat → Written ι Cell) (logits : Written ι Logits) (capture : Capture)
      (codebook : Book)

variable (e : Engine Cell Logits Capture Book) (seqId : ι → UInt64)

/-- The session that `inject_tokens` appends to, once its arguments are accepted. -/
def accepted (w : Serving ι Cell Logits Capture Book) (requestId : Bytes) (pos : Int)
    (tokens : List Token) : Option (UInt64 × Nat) :=
  if tokens = [] then none
  else if e.useMegakernel = false then none
  else
    match w.activeSessions.lookup requestId with
    | none => none
    | some session => if pos ≠ session.2 then none else some session

/-- The blocks of the appended positions. -/
def reserved (w : Serving ι Cell Logits Capture Book) (session : UInt64 × Nat) (n : Nat) :
    Bool × Allocator Unit :=
  Live.reserve e session.1 w.calls.shared.alloc session.2 n

/-- The launch of a move. -/
def launch (w : Serving ι Cell Logits Capture Book) :
    Move ι Cell Logits Capture Book → Option Launch
  | .serve (.act i) | .serve (.throw i _ _ _ _) => (w.calls.locals i).launch e
  | .inject requestId pos tokens _ _ _ _ _ =>
    match accepted e w requestId pos tokens with
    | none => none
    | some session =>
      if (reserved e w session tokens.length).1 then
        some (.megakernel ⟨tokens.length, session.2 + tokens.length⟩)
      else none

variable [DecidableEq ι]

def step (w : Serving ι Cell Logits Capture Book) :
    Move ι Cell Logits Capture Book → Option (Serving ι Cell Logits Capture Book)
  | .serve m => Serving.step e seqId w m
  | .inject requestId pos tokens passed kv logits capture codebook =>
    match accepted e w requestId pos tokens with
    | none => some w
    | some session =>
      let r := reserved e w session tokens.length
      let d := { w.calls.shared with alloc := r.2 }
      if r.1 then
        some {
          calls := { w.calls with
            shared := { d with
              kv := kv, logits := logits, capture := capture, codebook := codebook } }
          activeSessions :=
            if passed then
              w.activeSessions.updateKvLen requestId (session.2 + tokens.length)
            else w.activeSessions }
      else some { w with calls := { w.calls with shared := d } }

omit [DecidableEq ι]

/-- The launch of a move stays within the buffers. -/
def LaunchWithin (dims : Dims) (w : Serving ι Cell Logits Capture Book)
    (m : Move ι Cell Logits Capture Book) : Prop :=
  ∀ l, launch e w m = some l → l.Within (e.scratch dims)

/-- An injection finds a length that the blocks of the sequence cover, or stays within the
    pool all the same. -/
def SessionFits (w : Serving ι Cell Logits Capture Book) : Move ι Cell Logits Capture Book → Prop
  | .serve _ => True
  | .inject requestId _ tokens _ _ _ _ _ =>
    ∀ session, w.activeSessions.lookup requestId = some session →
      session.2 ≤ (w.calls.shared.alloc.tableOf session.1).length * e.blockSize ∨
        session.2 + tokens.length ≤ e.maxNumBlocks * e.blockSize

def LaunchFits (dims : Dims) (w : Serving ι Cell Logits Capture Book)
    (m : Move ι Cell Logits Capture Book) : Prop :=
  ∀ l, launch e w m = some l → l.Fits (e.scratch dims) ∧ SessionFits e w m

/-! ## The blocks of a call -/

variable {e seqId}

theorem le_blocks {b n x : Nat} (hb : 0 < b) (h : (x - 1) / b < n) : x ≤ n * b := by
  rw [Nat.div_lt_iff_lt_mul hb] at h
  omega

/-- The positions of a call are in its blocks. -/
theorem seqPos_le {n : Nat} {c : Call} (h : Counted e n c) (hrelease : c.phase ≠ .release)
    (hreturned : c.phase ≠ .returned) : c.seqPos ≤ n * e.blockSize := by
  have hsize := e.blockSize_pos
  have hblocks : 0 < e.blocksFor c.req.tokens.length := blocksFor_pos _
  unfold Counted at h
  cases hphase : c.phase with
  | allocate =>
    rw [hphase] at h
    rw [h]
    exact Nat.zero_le _
  | reduce =>
    rw [hphase] at h
    rw [h.2]
    exact Nat.zero_le _
  | extend k =>
    rw [hphase] at h
    obtain ⟨⟨m, -, rfl, hn⟩, -, hpos⟩ := h
    have hle : m * e.blockSize ≤ n * e.blockSize := Nat.mul_le_mul_right _ (by omega)
    split at hpos
    · omega
    · omega
  | prefill =>
    rw [hphase] at h
    obtain ⟨hn, hpos⟩ := h
    split at hpos
    · omega
    · rename_i hmk
      rw [nextLen_legacy (by simpa using hmk) hphase hpos] at hn
      have hle : c.seqPos + 1 ≤ n * e.blockSize := le_blocks hsize (by omega)
      omega
  | sample =>
    rw [hphase] at h
    exact le_blocks hsize (by omega)
  | decodeExtend =>
    rw [hphase] at h
    exact le_blocks hsize (by omega)
  | decode =>
    rw [hphase] at h
    have hle : c.seqPos + 1 ≤ n * e.blockSize :=
      le_blocks hsize (by rw [Nat.add_sub_cancel]; omega)
    omega
  | release => exact absurd hphase hrelease
  | returned => exact absurd hphase hreturned

theorem kvWithin_of_counted (dims : Dims) {n : Nat} {c : Call} (h : Counted e n c)
    (hn : n ≤ e.maxNumBlocks) {l : Launch} (hl : c.launch e = some l) :
    l.KvWithin (e.scratch dims) := by
  have hsize := e.blockSize_pos
  have hblocks : 0 < e.blocksFor c.req.tokens.length := blocksFor_pos _
  have hpool : n * e.blockSize ≤ e.maxNumBlocks * e.blockSize := Nat.mul_le_mul_right _ hn
  unfold Counted at h
  unfold Call.launch at hl
  cases hphase : c.phase with
  | prefill =>
    rw [hphase] at h hl
    obtain ⟨hcount, hpos⟩ := h
    dsimp only at hl
    split at hl
    · rename_i hmk
      rw [if_pos hmk] at hpos
      rw [nextLen_megakernel hmk hphase hpos] at hcount
      cases hl
      have hle : c.prompt.length ≤ n * e.blockSize := le_blocks hsize (by omega)
      exact hle.trans hpool
    · cases hl
      trivial
  | decode =>
    rw [hphase] at h hl
    dsimp only at hl
    split at hl
    · cases hl
      have hle : c.seqPos + 1 ≤ n * e.blockSize :=
        le_blocks hsize (by rw [Nat.add_sub_cancel]; omega)
      exact hle.trans hpool
    · cases hl
      trivial
  | allocate | reduce | extend k | sample | decodeExtend | release | returned =>
    rw [hphase] at hl
    cases hl

/-! ## The blocks of an injection -/

/-- With a block at each boundary, the blocks go on to cover the positions. -/
theorem boundaries_cover {b len k : Nat} (hk : 0 < k) (hlen : len ≤ k * b) (hb : 0 < b) (n : Nat) :
    len + n ≤ (k + Live.boundaries b len n) * b := by
  induction n generalizing len k with
  | zero => exact hlen.trans (Nat.mul_le_mul_right _ (Nat.le_add_right _ _))
  | succ n ih =>
    by_cases hp : 0 < len ∧ len % b = 0
    · have hnext : len + 1 ≤ (k + 1) * b := by
        rw [Nat.add_mul, Nat.one_mul]
        omega
      have hrest := ih (Nat.succ_pos k) hnext
      have hcount : k + (Live.boundaries b (len + 1) n + 1) =
          k + 1 + Live.boundaries b (len + 1) n := by omega
      rw [Live.boundaries_succ_of hp, hcount, Nat.add_comm n, ← Nat.add_assoc]
      exact hrest
    · have hnext : len + 1 ≤ k * b := by
        by_contra hfull
        have heq : len = k * b := by omega
        apply hp
        rw [heq]
        exact ⟨Nat.mul_pos hk hb, Nat.mul_mod_left _ _⟩
      have hrest := ih hk hnext
      rw [Live.boundaries_succ_of_not hp, Nat.add_comm n, ← Nat.add_assoc]
      exact hrest

theorem tableOf_pos {a : Allocator Unit} {q : UInt64} (h : 0 < (a.tableOf q).length) :
    ∃ bt, a.blockTables.lookup q = some bt ∧ a.tableOf q = bt := by
  cases hbt : a.blockTables.lookup q with
  | none =>
    rw [tableOf, hbt] at h
    cases h
  | some bt => exact ⟨bt, rfl, tableOf_some hbt⟩

/-- The blocks cover a sequence and what is appended to it, if they cover the sequence. -/
theorem reserved_covers {a : Allocator Unit} {q : UInt64} {len n : Nat}
    (hblocks : 0 < (a.tableOf q).length) (hlen : len ≤ (a.tableOf q).length * e.blockSize)
    (hdone : (Live.reserve e q a len n).1 = true) :
    len + n ≤ ((Live.reserve e q a len n).2.tableOf q).length * e.blockSize := by
  obtain ⟨bt, hbt, htable⟩ := tableOf_pos hblocks
  obtain ⟨hfirst, hlook⟩ := Live.reserve_eq e q hbt len n
  rw [hfirst, decide_eq_true_iff] at hdone
  rw [tableOf_some hlook, List.length_append, List.length_take, min_eq_left hdone, ← htable]
  exact boundaries_cover hblocks hlen e.blockSize_pos n

theorem reserve_frame {a : Allocator Unit} (hp : PoolOk e a) {q : UInt64} {bt : List Nat}
    (hbt : a.blockTables.lookup q = some bt) (len n : Nat) :
    PoolOk e (Live.reserve e q a len n).2 ∧ OtherTables q a (Live.reserve e q a len n).2 := by
  induction n generalizing a bt len with
  | zero => exact ⟨hp, OtherTables.same q a⟩
  | succ n ih =>
    unfold Live.reserve
    split
    · rcases extendSequence_spec hp.exclusive hbt with
        ⟨-, a', id, hr, hex, hother, hlook⟩ | ⟨-, hr⟩
      · rw [hr]
        obtain ⟨hpool, hrest⟩ := ih (hp.move hex hother) hlook (len + 1)
        refine ⟨hpool, hrest.blocks.trans hother.blocks, hrest.size.trans hother.size, ?_⟩
        exact fun q' hq' => (hrest.tables q' hq').trans (hother.tables q' hq')
      · rw [hr]
        exact ⟨hp, OtherTables.same q a⟩
    · exact ih hp hbt (len + 1)

/-- A reservation keeps the pool in order, and takes no block from the sequence. -/
theorem reserve_pool {a : Allocator Unit} (hp : PoolOk e a) (q : UInt64) (len n : Nat) :
    PoolOk e (Live.reserve e q a len n).2 ∧ OtherTables q a (Live.reserve e q a len n).2 ∧
      (((Live.reserve e q a len n).2.blockTables.lookup q).isSome =
        (a.blockTables.lookup q).isSome) ∧
      ∃ d, ((Live.reserve e q a len n).2.tableOf q).length = (a.tableOf q).length + d := by
  cases hbt : a.blockTables.lookup q with
  | none =>
    rw [Live.reserve_unknown e q hbt, hbt]
    exact ⟨hp, OtherTables.same q a, rfl, 0, rfl⟩
  | some bt =>
    obtain ⟨hpool, hother⟩ := reserve_frame hp hbt len n
    have hlook := (Live.reserve_eq e q hbt len n).2
    rw [hlook]
    refine ⟨hpool, hother, rfl, (a.freeList.take (Live.boundaries e.blockSize len n)).length, ?_⟩
    rw [tableOf_some hlook, tableOf_some hbt, List.length_append]

theorem reserved_within {a : Allocator Unit} (hp : PoolOk e a) {q : UInt64} {len n : Nat}
    (hblocks : 0 < (a.tableOf q).length) (hlen : len ≤ (a.tableOf q).length * e.blockSize)
    (hdone : (Live.reserve e q a len n).1 = true) :
    len + n ≤ e.maxNumBlocks * e.blockSize := by
  have hfree := (reserve_pool hp q len n).1.free_le q
  exact (reserved_covers hblocks hlen hdone).trans (Nat.mul_le_mul_right _ (by omega))

/-! ## Steps and runs -/

/-- A call has the blocks of its positions, and more after an injection. One that an exception
    ended may have left them. -/
structure Housed (e : Engine Cell Logits Capture Book) (a : Allocator Unit) (q : UInt64)
    (c : Call) : Prop where
  live : c.phase ≠ .returned → (a.blockTables.lookup q).isSome = c.phase.live
  blocks : c.phase.live = true → 0 < (a.tableOf q).length
  counted : ∃ n d, (a.tableOf q).length = n + d ∧ Counted e n c

namespace Housed

variable {a a' : Allocator Unit} {q : UInt64} {c : Call}

theorem frame (h : Housed e a q c) (hsame : a'.blockTables.lookup q = a.blockTables.lookup q) :
    Housed e a' q c := by
  have htable : a'.tableOf q = a.tableOf q := by rw [tableOf, tableOf, hsame]
  refine ⟨?_, ?_, ?_⟩
  · rw [hsame]
    exact h.live
  · rw [htable]
    exact h.blocks
  · rw [htable]
    exact h.counted

theorem reserve (h : Housed e a q c) (hp : PoolOk e a) (q' : UInt64) (len n : Nat) :
    Housed e (Live.reserve e q' a len n).2 q c := by
  obtain ⟨-, hother, hsome, d', hmore⟩ := reserve_pool hp q' len n
  by_cases hq : q = q'
  · subst hq
    obtain ⟨k, d, hlen, hcounted⟩ := h.counted
    refine ⟨?_, ?_, k, d + d', by omega, hcounted⟩
    · rw [hsome]
      exact h.live
    · intro hlive
      have hblocks := h.blocks hlive
      omega
  · exact h.frame (hother.tables q hq)

/-- The positions are in the blocks. -/
theorem seqPos_le (h : Housed e a q c) (hrelease : c.phase ≠ .release)
    (hreturned : c.phase ≠ .returned) : c.seqPos ≤ (a.tableOf q).length * e.blockSize := by
  obtain ⟨n, d, hlen, hcounted⟩ := h.counted
  have hle := Launching.seqPos_le hcounted hrelease hreturned
  exact hle.trans (Nat.mul_le_mul_right _ (by omega))

theorem exception (e : Engine Cell Logits Capture Book) (a : Allocator Unit) (q : UInt64)
    (c : Call) : Housed e a q { c with phase := .returned } where
  live hne := absurd rfl hne
  blocks hlive := nomatch hlive
  counted := ⟨_, 0, rfl, trivial⟩

/-- A step of the call. If the call goes on, it keeps its blocks. -/
theorem act {i : ι} {s : Device ι Cell Logits Capture Book} (hp : PoolOk e s.alloc)
    (h : Housed e s.alloc (seqId i) c) :
    PoolOk e (act e seqId i s c).1.alloc ∧
      OtherTables (seqId i) s.alloc (Cuda.act e seqId i s c).1.alloc ∧
      Housed e (Cuda.act e seqId i s c).1.alloc (seqId i) (Cuda.act e seqId i s c).2 ∧
      ((Cuda.act e seqId i s c).2.phase.live = true → (s.alloc.tableOf (seqId i)).length ≤
        ((Cuda.act e seqId i s c).1.alloc.tableOf (seqId i)).length) := by
  by_cases hphase : c.phase = .returned
  · have hsame : Cuda.act e seqId i s c = (s, c) := by
      unfold Cuda.act
      rw [hphase]
    rw [hsame]
    exact ⟨hp, OtherTables.same (seqId i) s.alloc, h, fun _ => le_rfl⟩
  have hlive := h.live hphase
  obtain ⟨n, d, hlen, hcounted⟩ := h.counted
  obtain ⟨hpool, hother, hlive'⟩ := act_pool hp hlive
  obtain ⟨n', hcounted', hmoved⟩ := counted_shift hp hlive hlen hcounted
  refine ⟨hpool, hother, ⟨fun _ => hlive', ?_, ?_⟩, ?_⟩
  · intro hnext
    obtain ⟨hle, hlen'⟩ := hmoved hnext
    cases hbefore : c.phase.live with
    | true =>
      have hblocks := h.blocks hbefore
      omega
    | false =>
      -- the call begins, with the blocks of the prompt
      have hallocate : c.phase = .allocate := by
        cases hc : c.phase with
        | allocate => rfl
        | returned => exact absurd hc hphase
        | reduce | extend k | prefill | sample | decodeExtend | decode | release =>
          rw [hc] at hbefore
          cases hbefore
      have hreduce : (Cuda.act e seqId i s c).2.phase = .reduce := by
        refine ((phaseStep i s c).begins hallocate).resolve_right fun hreturned => ?_
        rw [hreturned] at hnext
        cases hnext
      unfold Counted at hcounted'
      rw [hreduce] at hcounted'
      have hblocks : 0 < e.blocksFor (Cuda.act e seqId i s c).2.req.tokens.length :=
        blocksFor_pos _
      have hcount := hcounted'.1
      omega
  · cases hnext : (Cuda.act e seqId i s c).2.phase.live with
    | true => exact ⟨n', d, (hmoved hnext).2, hcounted'⟩
    | false => exact ⟨_, 0, rfl, hcounted'.of_not_live hnext⟩
  · intro hnext
    obtain ⟨hle, hlen'⟩ := hmoved hnext
    omega

end Housed

structure Roomy (e : Engine Cell Logits Capture Book) (seqId : ι → UInt64)
    (w : Serving ι Cell Logits Capture Book) : Prop where
  pool : PoolOk e w.calls.shared.alloc
  housed : ∀ i, Housed e w.calls.shared.alloc (seqId i) (w.calls.locals i)
  sessions : Serving.SessionsLive seqId w

theorem roomy_start (e : Engine Cell Logits Capture Book) (seqId : ι → UInt64)
    (reqs : ι → GenerateRequest) : Roomy e seqId (Serving.start e reqs) := by
  have h := accounted_start e seqId reqs
  refine ⟨h.inv.pool, ?_, Serving.sessionsLive_start e seqId reqs⟩
  intro i
  exact ⟨fun _ => h.inv.live i, fun hlive => (nomatch hlive), _, 0, rfl, h.counted i⟩

namespace Roomy

variable {w w' : Serving ι Cell Logits Capture Book}

/-- The session of an entry has blocks. -/
theorem session_blocks (h : Roomy e seqId w) {requestId : Bytes} {session : UInt64 × Nat}
    (hlook : w.activeSessions.lookup requestId = some session) :
    0 < (w.calls.shared.alloc.tableOf session.1).length := by
  obtain ⟨j, hj, hlive, -⟩ := h.sessions requestId session hlook
  rw [← hj]
  exact (h.housed j).blocks hlive

/-- The launch of a call is within the pool. -/
theorem call_within (h : Roomy e seqId w) (dims : Dims) (i : ι) {l : Launch}
    (hl : (w.calls.locals i).launch e = some l) : l.KvWithin (e.scratch dims) := by
  obtain ⟨n, d, hlen, hcounted⟩ := (h.housed i).counted
  have hfree := h.pool.free_le (seqId i)
  exact kvWithin_of_counted dims hcounted (by omega) hl

variable [DecidableEq ι]

theorem serve (hinj : Function.Injective seqId) (h : Roomy e seqId w)
    {m : Serving.Move ι Cell Logits Capture Book} (hst : Serving.step e seqId w m = some w') :
    Roomy e seqId w' := by
  have hsessions := Serving.sessionsLive_step h.sessions hst
  cases m with
  | act i =>
    cases hst
    obtain ⟨hpool, hother, hhoused, -⟩ := (h.housed i).act h.pool
    refine ⟨hpool, ?_, hsessions⟩
    intro j
    by_cases hj : j = i
    · subst hj
      simpa [Threads.next] using hhoused
    · have hframe := (h.housed j).frame (hother.tables (seqId j) fun heq => hj (hinj heq))
      simpa [Threads.next, hj] using hframe
  | throw i kv logits capture codebook =>
    unfold Serving.step at hst
    dsimp only at hst
    split at hst
    · cases hst
      refine ⟨h.pool, ?_, hsessions⟩
      intro j
      by_cases hj : j = i
      · subst hj
        simpa using Housed.exception e w.calls.shared.alloc (seqId j) (w.calls.locals j)
      · simpa [hj] using h.housed j
    · cases hst

theorem inject (h : Roomy e seqId w) {requestId : Bytes} {pos : Int} {tokens : List Token}
    {passed : Bool} {kv : Nat → Written ι Cell} {logits : Written ι Logits} {capture : Capture}
    {codebook : Book}
    (hst : step e seqId w
      (.inject requestId pos tokens passed kv logits capture codebook) = some w') :
    Roomy e seqId w' := by
  unfold step at hst
  dsimp only at hst
  split at hst
  · cases hst
    exact h
  rename_i session haccepted
  obtain ⟨hpool, -⟩ := reserve_pool h.pool session.1 session.2 tokens.length
  have hhoused := fun i => (h.housed i).reserve h.pool session.1 session.2 tokens.length
  split at hst
  · cases hst
    refine ⟨hpool, hhoused, ?_⟩
    intro requestId' entry hlook
    dsimp only at hlook
    split at hlook
    · obtain ⟨len, hold⟩ := ActiveSessions.lookup_updateKvLen hlook
      exact h.sessions requestId' (entry.1, len) hold
    · exact h.sessions requestId' entry hlook
  · cases hst
    exact ⟨hpool, hhoused, h.sessions⟩

theorem step (hinj : Function.Injective seqId) (h : Roomy e seqId w)
    {m : Move ι Cell Logits Capture Book} (hst : step e seqId w m = some w') :
    Roomy e seqId w' := by
  cases m with
  | serve m => exact h.serve hinj hst
  | inject requestId pos tokens passed kv logits capture codebook => exact h.inject hst

end Roomy

/-- What is accepted is an entry of the session table. -/
theorem accepted_some {w : Serving ι Cell Logits Capture Book} {requestId : Bytes} {pos : Int}
    {tokens : List Token} {session : UInt64 × Nat}
    (h : accepted e w requestId pos tokens = some session) :
    w.activeSessions.lookup requestId = some session := by
  unfold accepted at h
  split at h
  · cases h
  split at h
  · cases h
  split at h
  · cases h
  rename_i entry hlook
  split at h
  · cases h
  · rw [hlook, h]

/-- The positions of a launch are within the pool, those of an injection if and only if it
    finds its sequence so. -/
theorem kvWithin_iff {w : Serving ι Cell Logits Capture Book} (h : Roomy e seqId w) (dims : Dims)
    {m : Move ι Cell Logits Capture Book} {l : Launch} (hl : launch e w m = some l) :
    l.KvWithin (e.scratch dims) ↔ SessionFits e w m := by
  cases m with
  | serve m =>
    refine iff_of_true ?_ trivial
    cases m with
    | act i => exact h.call_within dims i hl
    | throw i kv logits capture codebook => exact h.call_within dims i hl
  | inject requestId pos tokens passed kv logits capture codebook =>
    unfold launch at hl
    dsimp only at hl
    split at hl
    · cases hl
    rename_i session haccepted
    have hlook := accepted_some haccepted
    split at hl
    · rename_i hdone
      cases hl
      constructor
      · intro hwithin session' hlook'
        cases hlook.symm.trans hlook'
        exact .inr hwithin
      · intro hfits
        rcases hfits session hlook with hcovered | hwithin
        · exact reserved_within h.pool (h.session_blocks hlook) hcovered hdone
        · exact hwithin
    · cases hl

theorem launch_within_iff {w : Serving ι Cell Logits Capture Book} (h : Roomy e seqId w)
    (dims : Dims) (m : Move ι Cell Logits Capture Book) :
    LaunchWithin e dims w m ↔ LaunchFits e dims w m := by
  unfold LaunchWithin LaunchFits
  refine forall_congr' fun l => imp_congr_right fun hl => ?_
  rw [l.within_iff, and_comm, kvWithin_iff h dims hl]

/-- All launches of a run stay within the buffers exactly if the tokens or the context of each
    fit, and each injection finds its sequence at a length that its blocks cover (or is within
    the pool all the same). -/
theorem launchWithin_iff [DecidableEq ι] (e : Engine Cell Logits Capture Book) (seqId : ι ↪ UInt64)
    (dims : Dims) (reqs : ι → GenerateRequest) (ms : List (Move ι Cell Logits Capture Book)) :
    AllSteps (step e seqId) (LaunchWithin e dims) (Serving.start e reqs) ms ↔
      AllSteps (step e seqId) (LaunchFits e dims) (Serving.start e reqs) ms :=
  allSteps_congr (I := Roomy e seqId) (fun _ _ _ h hst => h.step seqId.injective hst)
    (fun _ m h => launch_within_iff h dims m) (roomy_start e seqId reqs) ms

/-- An engine with three blocks of two tokens, configured for a context of two. -/
def threeBlocks : Engine Unit Unit Unit Unit :=
  { Live.blank with blockSize := 2, blockSize_pos := Nat.two_pos, maxNumBlocks := 3 }

def contextOfTwo : Dims where
  nLayers := 1
  nHeads := 1
  headDim := 2
  hiddenSize := 2
  ffnHiddenSize := 4
  nCtxTrain := 4
  contextSize := 2
  megakernelSaveAttn := false
  megakernelSaveHidden := false
  nLayers_pos := Nat.one_pos
  nHeads_pos := Nat.one_pos
  hiddenSize_pos := Nat.two_pos

/-- A prompt of three tokens is admitted, and goes to the megakernel as it is. -/
theorem longPrompt_overruns :
    ¬ AllSteps (step threeBlocks fun _ : Unit => 1) (LaunchWithin threeBlocks contextOfTwo)
      (Serving.start threeBlocks fun _ => { tokens := [5, 6, 7] })
      (List.replicate 4 (.serve (.act ()))) := by
  intro h
  have hlast := ((((h _ rfl).2 _ rfl).2 _ rfl).2 _ rfl).1
  have hwithin : Scratch.MegakernelWithin (threeBlocks.scratch contextOfTwo) ⟨3, 3⟩ :=
    hlast (.megakernel ⟨3, 3⟩) rfl
  exact absurd hwithin.seqLen (by decide)

/-! ## The entries of the session table -/

/-- No two requests have the same id. -/
def Distinct (reqs : ι → GenerateRequest) : Prop :=
  ∀ i j, (reqs i).requestId = (reqs j).requestId → (reqs i).requestId ≠ [] → i = j

/-- Every entry has a length that the blocks of its sequence cover. -/
structure Recorded (e : Engine Cell Logits Capture Book) (seqId : ι → UInt64)
    (w : Serving ι Cell Logits Capture Book) : Prop extends Roomy e seqId w where
  distinct : Distinct fun i => (w.calls.locals i).req
  covered : ∀ requestId session, w.activeSessions.lookup requestId = some session →
    session.2 ≤ (w.calls.shared.alloc.tableOf session.1).length * e.blockSize

theorem afterPrefill_goes_on (c : Call) : (c.afterPrefill e).phase ≠ .release := by
  rcases afterPrefill_cases (e := e) c with h | ⟨-, h⟩ | ⟨-, -, h⟩
  · rw [h]
    exact Phase.noConfusion
  · rw [h]
    exact Phase.noConfusion
  · rw [h]
    exact Phase.noConfusion

/-- A forward pass that succeeds is not followed by the release. -/
theorem pass_goes_on {i : ι} {s : Device ι Cell Logits Capture Book} {c : Call}
    (hphase : c.phase = .prefill ∨ c.phase = .decode)
    (hpasses : (act e seqId i s c).2.passes ≠ c.passes) :
    (act e seqId i s c).2.phase ≠ .release := by
  unfold act at hpasses ⊢
  rcases hphase with hphase | hphase
  · rw [hphase] at hpasses ⊢
    dsimp only at hpasses ⊢
    split at hpasses
    · exact absurd rfl hpasses
    · exact afterPrefill_goes_on _
  · rw [hphase] at hpasses ⊢
    dsimp only at hpasses ⊢
    split at hpasses
    · exact absurd rfl hpasses
    · exact Phase.noConfusion

/-- An entry behind an update is as before, or has the new length. -/
theorem updateKvLen_cases {t : ActiveSessions} {requestId other : Bytes} {newLen : Nat}
    {session : UInt64 × Nat}
    (h : (t.updateKvLen other newLen).lookup requestId = some session) :
    t.lookup requestId = some session ∨
      (∃ len, t.lookup requestId = some (session.1, len)) ∧ requestId = other ∧
        session.2 = newLen := by
  by_cases hname : requestId = other
  · have hold := ActiveSessions.lookup_updateKvLen h
    unfold ActiveSessions.updateKvLen at h
    split at h
    · exact .inl h
    split at h
    · exact .inl h
    · rw [hname, AList.lookup_insert, Option.some.injEq] at h
      exact .inr ⟨hold, hname, by rw [← h]⟩
  · left
    unfold ActiveSessions.updateKvLen at h
    split at h
    · exact h
    split at h
    · exact h
    · rwa [AList.lookup_insert_ne hname] at h

/-- An entry behind a step of a call is as before, where the step does not remove it, or new
    with length 0, or has the length of the call behind a forward pass. -/
theorem sessionsAfter_cases {i : ι} {c c' : Call} {t : ActiveSessions} {requestId : Bytes}
    {session : UInt64 × Nat}
    (h : (Serving.sessionsAfter e seqId i c c' t).lookup requestId = some session) :
    (t.lookup requestId = some session ∧
      (c.phase = .release → requestId = c.req.requestId → requestId = [])) ∨
    session = (seqId i, 0) ∨
    ((∃ len, t.lookup requestId = some (session.1, len)) ∧ requestId = c.req.requestId ∧
      session.2 = c'.seqPos) ∧ (c.phase = .prefill ∨ c.phase = .decode) ∧
      c'.passes ≠ c.passes := by
  unfold Serving.sessionsAfter at h
  cases hphase : c.phase with
  | allocate =>
    rw [hphase] at h
    dsimp only at h
    split at h
    · exact .inl ⟨h, fun hr => nomatch hr⟩
    unfold ActiveSessions.register at h
    split at h
    · exact .inl ⟨h, fun hr => nomatch hr⟩
    by_cases hname : requestId = c.req.requestId
    · rw [hname, AList.lookup_insert, Option.some.injEq] at h
      exact .inr (.inl h.symm)
    · rw [AList.lookup_insert_ne hname] at h
      exact .inl ⟨h, fun hr => nomatch hr⟩
  | prefill =>
    rw [hphase] at h
    dsimp only at h
    split at h
    · rename_i hran
      rcases updateKvLen_cases h with hold | hnew
      · exact .inl ⟨hold, fun hr => nomatch hr⟩
      · exact .inr (.inr ⟨hnew, .inl rfl, hran.2⟩)
    · exact .inl ⟨h, fun hr => nomatch hr⟩
  | decode =>
    rw [hphase] at h
    dsimp only at h
    split at h
    · rename_i hran
      rcases updateKvLen_cases h with hold | hnew
      · exact .inl ⟨hold, fun hr => nomatch hr⟩
      · exact .inr (.inr ⟨hnew, .inr rfl, hran⟩)
    · exact .inl ⟨h, fun hr => nomatch hr⟩
  | release =>
    rw [hphase] at h
    obtain ⟨hold, hname⟩ := ActiveSessions.lookup_unregister h
    exact .inl ⟨hold, fun _ heq => heq.trans (hname heq)⟩
  | reduce | extend k | sample | decodeExtend | returned =>
    rw [hphase] at h
    exact .inl ⟨h, fun hr => nomatch hr⟩

namespace Recorded

variable [DecidableEq ι] {w w' : Serving ι Cell Logits Capture Book}

/-- A call that goes on keeps its request. -/
theorem distinct_update (h : Recorded e seqId w) {i : ι} {call : Call}
    (hreq : call.req = (w.calls.locals i).req) :
    Distinct fun j => (Function.update w.calls.locals i call j).req := by
  have hsame : (fun j => (Function.update w.calls.locals i call j).req) =
      fun j => (w.calls.locals j).req := by
    funext j
    by_cases hj : j = i
    · rw [hj, Function.update_self, hreq]
    · rw [Function.update_of_ne hj]
  rw [hsame]
  exact h.distinct

theorem act (hinj : Function.Injective seqId) (h : Recorded e seqId w) {i : ι}
    (hst : Serving.step e seqId w (.act i) = some w') : Recorded e seqId w' := by
  have hroomy := h.toRoomy.serve hinj hst
  have hstep : PhaseStep (w.calls.locals i)
      (Cuda.act e seqId i w.calls.shared (w.calls.locals i)).2 :=
    phaseStep i w.calls.shared (w.calls.locals i)
  obtain ⟨-, hother, hhoused, hkeeps⟩ := (h.housed i).act h.pool
  cases hst
  refine ⟨hroomy, ?_, ?_⟩
  · exact h.distinct_update hstep.req
  · intro requestId session hlook
    dsimp only [Threads.next] at hlook ⊢
    rw [Function.update_self] at hlook
    rcases sessionsAfter_cases hlook with
      ⟨hold, hremoved⟩ | hnew | ⟨⟨⟨len, hold⟩, hname, hlen⟩, hphase, hpasses⟩
    · have hcovered := h.covered requestId session hold
      obtain ⟨j, hj, hlive, hname, hne⟩ := h.sessions requestId session hold
      rw [← hj] at hcovered ⊢
      by_cases hji : j = i
      · subst hji
        have hgoes :
            (Cuda.act e seqId j w.calls.shared (w.calls.locals j)).2.phase.live = true := by
          apply hstep.goesOn
          · intro hphase
            rw [hphase] at hlive
            cases hlive
          · exact fun hphase => hne (hremoved hphase hname.symm)
          · intro hphase
            rw [hphase] at hlive
            cases hlive
        exact hcovered.trans (Nat.mul_le_mul_right _ (hkeeps hgoes))
      · rw [tableOf, hother.tables (seqId j) fun heq => hji (hinj heq)]
        exact hcovered
    · rw [hnew]
      exact Nat.zero_le _
    · -- the entry is that of the call itself
      obtain ⟨j, hj, hlive, hjname, hne⟩ := h.sessions requestId (session.1, len) hold
      obtain rfl : j = i := h.distinct j i (hjname.trans hname) (by rw [hjname]; exact hne)
      have hgoes : (Cuda.act e seqId j w.calls.shared (w.calls.locals j)).2.phase.live = true := by
        rcases hphase with hphase | hphase
        · apply hstep.goesOn <;> simp [hphase]
        · apply hstep.goesOn <;> simp [hphase]
      have hreturned : (Cuda.act e seqId j w.calls.shared (w.calls.locals j)).2.phase ≠
          .returned := by
        intro hreturned
        rw [hreturned] at hgoes
        cases hgoes
      have hpos := hhoused.seqPos_le (pass_goes_on hphase hpasses) hreturned
      rw [hlen, ← show seqId j = session.1 from hj]
      exact hpos

theorem throw (hinj : Function.Injective seqId) (h : Recorded e seqId w) {i : ι}
    {kv : Nat → Written ι Cell} {logits : Written ι Logits} {capture : Capture} {codebook : Book}
    (hst : Serving.step e seqId w (.throw i kv logits capture codebook) = some w') :
    Recorded e seqId w' := by
  have hroomy := h.toRoomy.serve hinj hst
  unfold Serving.step at hst
  dsimp only at hst
  split at hst
  · cases hst
    refine ⟨hroomy, ?_, ?_⟩
    · exact h.distinct_update rfl
    · intro requestId session hlook
      exact h.covered requestId session (ActiveSessions.lookup_unregister hlook).1
  · cases hst

theorem inject (h : Recorded e seqId w) {requestId : Bytes} {pos : Int} {tokens : List Token}
    {passed : Bool} {kv : Nat → Written ι Cell} {logits : Written ι Logits} {capture : Capture}
    {codebook : Book}
    (hst : step e seqId w
      (.inject requestId pos tokens passed kv logits capture codebook) = some w') :
    Recorded e seqId w' := by
  have hroomy := h.toRoomy.inject hst
  unfold step at hst
  dsimp only at hst
  split at hst
  · cases hst
    exact h
  rename_i session haccepted
  have hsession := accepted_some haccepted
  have hcovered : ∀ requestId' entry, w.activeSessions.lookup requestId' = some entry →
      entry.2 ≤ ((reserved e w session tokens.length).2.tableOf entry.1).length *
        e.blockSize := by
    intro requestId' entry hlook
    have hold := h.covered requestId' entry hlook
    obtain ⟨-, hother, -, d, hmore⟩ := reserve_pool h.pool session.1 session.2 tokens.length
    by_cases hq : entry.1 = session.1
    · rw [hq] at hold ⊢
      exact hold.trans (Nat.mul_le_mul_right _ (hmore.symm ▸ Nat.le_add_right _ d))
    · rw [tableOf, show (reserved e w session tokens.length).2.blockTables.lookup entry.1 =
        w.calls.shared.alloc.blockTables.lookup entry.1 from hother.tables entry.1 hq]
      exact hold
  split at hst
  · rename_i hdone
    cases hst
    refine ⟨hroomy, h.distinct, ?_⟩
    intro requestId' entry hlook
    dsimp only at hlook
    split at hlook
    · rcases updateKvLen_cases hlook with hold | ⟨⟨len, hold⟩, rfl, hlen⟩
      · exact hcovered requestId' entry hold
      · cases hsession.symm.trans hold
        rw [hlen]
        exact reserved_covers (h.session_blocks hsession) (h.covered _ _ hsession) hdone
    · exact hcovered requestId' entry hlook
  · cases hst
    exact ⟨hroomy, h.distinct, hcovered⟩

theorem step (hinj : Function.Injective seqId) (h : Recorded e seqId w)
    {m : Move ι Cell Logits Capture Book} (hst : step e seqId w m = some w') :
    Recorded e seqId w' := by
  cases m with
  | serve m =>
    cases m with
    | act i => exact h.act hinj hst
    | throw i kv logits capture codebook => exact h.throw hinj hst
  | inject requestId pos tokens passed kv logits capture codebook => exact h.inject hst

end Recorded

/-- Where no two requests share an id, the positions of every launch are within the pool. -/
theorem kvLen_within [DecidableEq ι] (e : Engine Cell Logits Capture Book) (seqId : ι ↪ UInt64)
    (dims : Dims) {reqs : ι → GenerateRequest} (hdistinct : Distinct reqs)
    (ms : List (Move ι Cell Logits Capture Book)) :
    AllSteps (step e seqId) (fun w m => ∀ l, launch e w m = some l → l.KvWithin (e.scratch dims))
      (Serving.start e reqs) ms := by
  have hstart : Recorded e seqId (Serving.start e reqs) :=
    ⟨roomy_start e seqId reqs, hdistinct, fun _ _ hlook => nomatch hlook⟩
  have hfits : ∀ w (m : Move ι Cell Logits Capture Book),
      Recorded e seqId w → SessionFits e w m := by
    intro w m h
    cases m with
    | serve m => trivial
    | inject requestId pos tokens passed kv logits capture codebook =>
      exact fun session hlook => .inl (h.covered requestId session hlook)
  apply (allSteps_congr (I := Recorded e seqId) (fun _ _ _ h hst => h.step seqId.injective hst)
    (fun w m h => ?_) hstart ms).mp (allSteps_of_labels (C := fun _ => True) fun _ _ => trivial)
  exact iff_of_true trivial fun l hl => (kvWithin_iff h.toRoomy dims hl).mpr (hfits w m h)

end Launching

end TruellmEngine.Cuda
