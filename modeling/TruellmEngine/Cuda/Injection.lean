/-
  `inject_tokens` beside a running `CudaEngine::generate`: which slot each token's K and V go
  to, and at which rotary position.

  `generate` keeps its position in a local variable, `inject_tokens` takes it from the
  session table (`active_sessions_`), where both store it. The kernel adds the position the
  host passes (`rope_offset`) to a slot that it computes itself from two lengths.

  * `ropeExact_iff`: the rotary positions are the slots exactly while each pass of the
    megakernel begins at slot 0.
  * `writtenOnce_iff`: each slot is written once, and the table has the right length, exactly
    while `generate` runs no forward pass after an injection (and no legacy prefill, which
    does not update the table).

  A call of `generate` is `act` of `Calls`. Whatever other calls do to the device between two
  moves is an argument. An injection is one move: it may fall between any two steps of
  `generate`, also where `on_token` is called.
-/
import TruellmEngine.Cuda.Calls

namespace TruellmEngine.Cuda

open Lib

variable {Cell Logits Capture Book : Type*}

/-- A token in a forward pass: the slot of its K and V, and the rotary positions of its K and
    its Q. -/
structure TokenWrite where
  slot : Nat
  kPos : Nat
  qPos : Nat
  deriving DecidableEq, Repr

/-- The K and Q projections of the megakernel. -/
def megakernelTokens (kvSeqLen seqLen ropeOffset : Nat) : List TokenWrite :=
  let kvWritePos := kvSeqLen - seqLen
  (List.range seqLen).map fun tok =>
    let kvPos := kvWritePos + tok
    { slot := kvPos, kPos := ropeOffset + kvPos, qPos := ropeOffset + kvWritePos + tok }

/-- The RoPE of `run_forward`: `pos` is `seq_pos`. -/
def legacyTokens (seqPos : Nat) : List TokenWrite :=
  [{ slot := seqPos, kPos := seqPos, qPos := seqPos }]

/-- A forward pass over `n` tokens from position `pos` on. `run_forward_megakernel` is called
    with `kv_seq_len = pos + n` and `kv_write_offset = pos`, which becomes `rope_offset`. -/
def Engine.tokenWrites (e : Engine Cell Logits Capture Book) (pos n : Nat) : List TokenWrite :=
  if e.useMegakernel then megakernelTokens (pos + n) n pos else legacyTokens pos

/-- A call of `generate` with its entry of the session table, the length `kv_seq_len`. As
    ghosts, what the forward passes wrote, and how many tokens of which kind. -/
structure Live (Cell Logits Capture Book : Type*) where
  device : Device Unit Cell Logits Capture Book
  call : Call
  session : Option Nat := none
  writes : List TokenWrite := []
  prompt : Nat := 0
  decoded : Nat := 0
  injected : Nat := 0

/-- The next pass is one of the prefill. -/
def Call.MidPrefill (c : Call) : Prop := c.phase = .prefill ∨ ∃ k, c.phase = .extend k

/-- What a step of `generate` does to its position. -/
structure CallStep (e : Engine Cell Logits Capture Book) (c c' : Call) : Prop where
  begun : c'.phase ≠ .allocate
  reduce : c'.phase = .reduce → c.phase = .allocate
  ends : c.phase = .release ∨ c.phase = .returned → c'.phase = .returned
  /-- Only a forward pass moves the position, by its tokens. -/
  seqPos : c'.passes = c.passes ∧ c'.seqPos = c.seqPos ∨
    (c.phase = .prefill ∨ c.phase = .decode) ∧ c'.passes ≠ c.passes ∧
      c'.seqPos = c.seqPos + (c.forwardTokens e).length
  /-- On the legacy path a prefill goes on while tokens are left. -/
  legacy : e.useMegakernel = false → c'.MidPrefill → c'.seqPos < c'.prompt.length ∨
    c.phase = .reduce ∧ c'.seqPos = c.seqPos ∧ c'.prompt ≠ [] ∨
    c.MidPrefill ∧ c'.seqPos = c.seqPos ∧ c'.prompt = c.prompt

namespace Live

def start (d : Device Unit Cell Logits Capture Book) (req : GenerateRequest) :
    Live Cell Logits Capture Book where
  device := d
  call := { req := req }

/-- All tokens written. -/
def total (s : Live Cell Logits Capture Book) : Nat := s.prompt + s.decoded + s.injected

variable (e : Engine Cell Logits Capture Book) (seqId : UInt64)

/-! ## The moves -/

/-- The next step of `generate` itself. -/
def stepped (s : Live Cell Logits Capture Book) : Device Unit Cell Logits Capture Book × Call :=
  act e (fun _ => seqId) () s.device s.call

/-- A step of `generate`, with what it does to the session table: `register_active_session`
    behind the allocation, `update_session_kv_len` behind a megakernel prefill and behind each
    decode pass, and the session guard's removal. -/
def generateStep (s : Live Cell Logits Capture Book) : Live Cell Logits Capture Book :=
  let r := s.stepped e seqId
  let s' := { s with device := r.1, call := r.2 }
  match s.call.phase with
  | .allocate =>
    if r.2.phase = .returned ∨ s.call.req.requestId = [] then s' else { s' with session := some 0 }
  | .prefill =>
    -- a failed pass leaves the count of passes
    if r.2.passes = s.call.passes then s'
    else
      { s' with
        writes := s.writes ++ e.tokenWrites s.call.seqPos (s.call.chunk e).length
        prompt := s.prompt + (s.call.chunk e).length
        session := if e.useMegakernel then s.session.map fun _ => r.2.seqPos else s.session }
  | .decode =>
    if r.2.passes = s.call.passes then s'
    else
      { s' with
        writes := s.writes ++ e.tokenWrites s.call.seqPos 1
        decoded := s.decoded + 1
        session := s.session.map fun _ => r.2.seqPos }
  | .release => { s' with session := none }
  | _ => s'

/-- The loop of `inject_tokens` that reserves the blocks of the positions from `p` on. -/
def reserve : (a : Allocator Unit) → (p left : Nat) → Bool × Allocator Unit
  | a, _, 0 => (true, a)
  | a, p, left + 1 =>
    if 0 < p ∧ p % e.blockSize = 0 then
      match a.extendSequence seqId with
      | (none, a) => (false, a)
      | (some _, a) => reserve a (p + 1) left
    else reserve a (p + 1) left

/-- The state behind a refused injection still has the blocks that were reserved. -/
def injectTokens (s : Live Cell Logits Capture Book) (pos : Int) (tokens : List Token) :
    Except (ErrorCode × Live Cell Logits Capture Book) (Live Cell Logits Capture Book) :=
  if tokens = [] then .error (.invalidArgument, s)
  else if e.useMegakernel = false then .error (.notImplemented, s)
  else
    match s.session with
    | none => .error (.invalidArgument, s)
    | some kvSeqLen =>
      if pos ≠ kvSeqLen then .error (.invalidArgument, s)
      else
        let (reserved, a) := reserve e seqId s.device.alloc kvSeqLen tokens.length
        let d := { s.device with alloc := a }
        if reserved = false then .error (.unavailable, { s with device := d })
        else
          match runForward e () seqId s.call.passes d kvSeqLen tokens with
          | .error ec => .error (ec, { s with device := d })
          | .ok d => .ok { s with
              device := d.compressed e tokens.length
              writes := s.writes ++ e.tokenWrites kvSeqLen tokens.length
              injected := s.injected + tokens.length
              session := some (kvSeqLen + tokens.length) }

/-- A step of `generate`, a call of `inject_tokens`, or steps of other calls that leave the
    device as `d`. -/
inductive Move (Cell Logits Capture Book : Type*) where
  | generate
  | inject (pos : Int) (tokens : List Token)
  | others (d : Device Unit Cell Logits Capture Book)

def step (s : Live Cell Logits Capture Book) :
    Move Cell Logits Capture Book → Option (Live Cell Logits Capture Book)
  | .generate => some (s.generateStep e seqId)
  | .inject pos tokens =>
    match s.injectTokens e seqId pos tokens with
    | .error (_, s) => some s
    | .ok s => some s
  | .others d => some { s with device := d }

/-- The forward pass that a move runs to its end: its first position and its tokens. -/
def ran (s : Live Cell Logits Capture Book) : Move Cell Logits Capture Book → Option (Nat × Nat)
  | .generate =>
    if (s.call.phase = .prefill ∨ s.call.phase = .decode) ∧
        (s.stepped e seqId).2.passes ≠ s.call.passes then
      some (s.call.seqPos, (s.call.forwardTokens e).length)
    else none
  | .inject pos tokens =>
    match s.injectTokens e seqId pos tokens with
    | .error _ => none
    | .ok _ => some (s.session.getD 0, tokens.length)
  | .others _ => none

variable {e : Engine Cell Logits Capture Book} {seqId : UInt64}

/-- A refused injection changes the device at most. -/
theorem injectTokens_error {s t : Live Cell Logits Capture Book} {pos : Int} {tokens : List Token}
    {ec : ErrorCode} (h : s.injectTokens e seqId pos tokens = .error (ec, t)) :
    ∃ d, t = { s with device := d } := by
  unfold injectTokens at h
  split at h
  · cases h
    exact ⟨s.device, rfl⟩
  split at h
  · cases h
    exact ⟨s.device, rfl⟩
  split at h
  · cases h
    exact ⟨s.device, rfl⟩
  split at h
  · cases h
    exact ⟨s.device, rfl⟩
  dsimp only at h
  split at h
  · cases h
    exact ⟨_, rfl⟩
  split at h
  · cases h
    exact ⟨_, rfl⟩
  · cases h

/-- An injection appends its tokens behind the length in the session table. -/
theorem injectTokens_ok {s t : Live Cell Logits Capture Book} {pos : Int} {tokens : List Token}
    (h : s.injectTokens e seqId pos tokens = .ok t) :
    tokens ≠ [] ∧ e.useMegakernel = true ∧ ∃ len d, s.session = some len ∧ t = { s with
      device := d
      writes := s.writes ++ e.tokenWrites len tokens.length
      injected := s.injected + tokens.length
      session := some (len + tokens.length) } := by
  unfold injectTokens at h
  split at h
  · cases h
  rename_i htokens
  split at h
  · cases h
  rename_i hmk
  split at h
  · cases h
  rename_i len hsession
  split at h
  · cases h
  dsimp only at h
  split at h
  · cases h
  split at h
  · cases h
  · cases h
    exact ⟨htokens, by simpa using hmk, len, _, hsession, rfl⟩

/-- The moves write what their forward passes write. -/
theorem writes_step {s t : Live Cell Logits Capture Book} {m : Move Cell Logits Capture Book}
    (h : step e seqId s m = some t) :
    t.writes = s.writes ++ (ran e seqId s m).elim [] fun r => e.tokenWrites r.1 r.2 := by
  cases m with
  | generate =>
    cases h
    unfold generateStep ran stepped Call.forwardTokens
    cases hphase : s.call.phase with
    | prefill =>
      dsimp only
      split
      · rename_i hsame
        simp [hsame]
      · rename_i hran
        simp [hran]
    | decode =>
      dsimp only
      split
      · rename_i hsame
        simp [hsame]
      · rename_i hran
        simp [hran]
    | allocate =>
      dsimp only
      split
      · simp
      · simp
    | reduce => simp
    | extend i => simp
    | sample => simp
    | decodeExtend => simp
    | release => simp
    | returned => simp
  | inject pos tokens =>
    cases hinject : s.injectTokens e seqId pos tokens with
    | error r =>
      simp only [step, ran, hinject] at h ⊢
      cases h
      obtain ⟨d, hd⟩ := injectTokens_error hinject
      rw [hd]
      simp
    | ok u =>
      simp only [step, ran, hinject] at h ⊢
      cases h
      obtain ⟨-, -, len, d, hsession, rfl⟩ := injectTokens_ok hinject
      rw [hsession]
      rfl
  | others d =>
    cases h
    simp [ran]

/-! ## Rotary positions -/

/-- Every token written so far has its slot as its rotary position, in K and in Q. -/
def RopeExact (s : Live Cell Logits Capture Book) : Prop :=
  ∀ w ∈ s.writes, w.kPos = w.slot ∧ w.qPos = w.slot

/-- The move runs no megakernel pass over tokens behind the first slot. -/
def BeginsAtZero (e : Engine Cell Logits Capture Book) (seqId : UInt64)
    (s : Live Cell Logits Capture Book) (m : Move Cell Logits Capture Book) : Prop :=
  ∀ pos n, ran e seqId s m = some (pos, n) → e.useMegakernel = true → 0 < n → pos = 0

/-- The kernel adds the slot to an offset that is the first slot already. -/
theorem megakernelTokens_pos {pos n : Nat} {w : TokenWrite}
    (h : w ∈ megakernelTokens (pos + n) n pos) : w.kPos = pos + w.slot ∧ w.qPos = pos + w.slot := by
  unfold megakernelTokens at h
  obtain ⟨tok, -, rfl⟩ := List.mem_map.mp h
  exact ⟨rfl, Nat.add_assoc _ _ _⟩

theorem tokenWrites_exact {pos n : Nat} (h : e.useMegakernel = true → 0 < n → pos = 0) :
    ∀ w ∈ e.tokenWrites pos n, w.kPos = w.slot ∧ w.qPos = w.slot := by
  intro w hw
  unfold Engine.tokenWrites at hw
  split at hw
  · rename_i hmk
    obtain ⟨hk, hq⟩ := megakernelTokens_pos hw
    have hn : 0 < n := by
      unfold megakernelTokens at hw
      obtain ⟨tok, htok, -⟩ := List.mem_map.mp hw
      exact Nat.zero_lt_of_lt (List.mem_range.mp htok)
    have hpos := h hmk hn
    omega
  · rw [legacyTokens, List.mem_singleton] at hw
    rw [hw]
    exact ⟨rfl, rfl⟩

/-- The first token of a megakernel pass from `pos` on is turned by twice its position. -/
theorem not_tokenWrites_exact {pos n : Nat} (hmk : e.useMegakernel = true) (hn : 0 < n)
    (hpos : pos ≠ 0) : ∃ w ∈ e.tokenWrites pos n, w.kPos ≠ w.slot := by
  refine ⟨⟨pos, pos + pos, pos + pos⟩, ?_, ?_⟩
  · unfold Engine.tokenWrites megakernelTokens
    rw [if_pos hmk]
    refine List.mem_map.mpr ⟨0, List.mem_range.mpr hn, ?_⟩
    simp
  · intro h
    dsimp only at h
    omega

/-- K and Q have their slots as rotary positions in all states of a run exactly when each
    megakernel pass of the run begins at slot 0: no decode pass behind a prompt, and no
    injection behind anything. On the legacy path they always have. -/
theorem ropeExact_iff (d : Device Unit Cell Logits Capture Book) (req : GenerateRequest)
    (ms : List (Move Cell Logits Capture Book)) :
    AllStates (step e seqId) RopeExact (start d req) ms ↔
      AllSteps (step e seqId) (BeginsAtZero e seqId) (start d req) ms := by
  refine allStates_iff_allSteps (I := RopeExact) (fun _ h => h) ?_ ?_ ?_ ms
  · intro s m t hs hok ht w hw
    rw [writes_step ht, List.mem_append] at hw
    rcases hw with hold | hnew
    · exact hs w hold
    · cases hran : ran e seqId s m with
      | none =>
        rw [hran] at hnew
        cases hnew
      | some r =>
        rw [hran] at hnew
        exact tokenWrites_exact (hok r.1 r.2 hran) w hnew
  · intro s m t _ hbad ht hexact
    apply hbad
    intro pos n hran hmk hn
    by_contra hpos
    obtain ⟨w, hw, hne⟩ := not_tokenWrites_exact (e := e) hmk hn hpos
    refine hne (hexact w ?_).1
    rw [writes_step ht, hran]
    exact List.mem_append_right _ hw
  · intro w hw
    cases hw

/-! ## Slots -/

/-- Each slot was written once, the written slots are consecutive, and the session table has
    the number of tokens, while it has the call. -/
structure WrittenOnce (s : Live Cell Logits Capture Book) : Prop where
  once : (s.writes.map TokenWrite.slot).Nodup
  consecutive : ∀ p, p ∈ s.writes.map TokenWrite.slot ↔ p < s.total
  registered : ∀ len, s.session = some len → len = s.total

/-- `generate` runs no forward pass behind an injection, and no legacy prefill pass while it
    is registered. -/
def PassBeforeInjection (e : Engine Cell Logits Capture Book) (seqId : UInt64)
    (s : Live Cell Logits Capture Book) (m : Move Cell Logits Capture Book) : Prop :=
  match m with
  | .generate =>
    ran e seqId s m ≠ none →
      s.injected = 0 ∧ (e.useMegakernel = true ∨ s.call.phase ≠ .prefill ∨ s.session = none)
  | _ => True

/-- While no pass is run behind an injection. On the legacy path, the next pass of a prefill
    has a token. -/
structure InOrder (e : Engine Cell Logits Capture Book) (s : Live Cell Logits Capture Book) :
    Prop where
  slots : s.writes.map TokenWrite.slot = List.range s.total
  registered : ∀ len, s.session = some len → len = s.total
  seqPos : s.call.seqPos = s.prompt + s.decoded
  /-- Before the allocation there is no session and nothing is written. -/
  fresh : s.call.phase = .allocate → s.session = none ∧ s.total = 0
  /-- Only a registered call is injected into. -/
  live : 0 < s.injected → s.session ≠ none ∨ s.call.phase = .returned
  first : s.call.phase = .allocate ∨ s.call.phase = .reduce → s.call.seqPos = 0
  legacy : e.useMegakernel = false → s.call.MidPrefill → s.call.seqPos < s.call.prompt.length

theorem InOrder.writtenOnce {s : Live Cell Logits Capture Book} (h : InOrder e s) :
    WrittenOnce s := by
  constructor
  · rw [h.slots]
    exact List.nodup_range
  · intro p
    rw [h.slots, List.mem_range]
  · exact h.registered

theorem slots_tokenWrites {pos n : Nat} (h : e.useMegakernel = true ∨ n = 1) :
    (e.tokenWrites pos n).map TokenWrite.slot = List.range' pos n := by
  unfold Engine.tokenWrites
  split
  · unfold megakernelTokens
    rw [List.map_map, List.range'_eq_map_range]
    apply List.map_congr_left
    intro tok _
    simp
  · rename_i hmk
    rcases h with h | h
    · exact absurd h hmk
    · rw [h]
      rfl

theorem chunk_length {c : Call} (h : e.useMegakernel = false → c.seqPos < c.prompt.length) :
    e.useMegakernel = true ∨ (c.chunk e).length = 1 := by
  cases hmk : e.useMegakernel with
  | true => exact Or.inl rfl
  | false =>
    right
    have hlt := h hmk
    unfold Call.chunk
    rw [hmk]
    simp
    omega

theorem range_append (a n : Nat) : List.range a ++ List.range' a n = List.range (a + n) := by
  rw [List.range_eq_range', List.range_eq_range']
  simpa using List.range'_append_1 (s := 0) (m := a) (n := n)

/-- A step that runs no pass, between phases outside the prefill. -/
theorem CallStep.quiet {c c' : Call} (hpasses : c'.passes = c.passes)
    (hpos : c'.seqPos = c.seqPos) (hbegun : c'.phase ≠ .allocate) (hreduce : c'.phase ≠ .reduce)
    (hmid : ¬ c'.MidPrefill)
    (hends : c.phase = .release ∨ c.phase = .returned → c'.phase = .returned) : CallStep e c c' :=
  ⟨hbegun, fun h => absurd h hreduce, hends, Or.inl ⟨hpasses, hpos⟩, fun _ h => absurd h hmid⟩

theorem callStep_beginPrefill {c d : Call} (hphase : c.phase = .reduce)
    (hpasses : d.passes = c.passes) (hpos : d.seqPos = c.seqPos) :
    CallStep e c (d.beginPrefill e) := by
  unfold Call.beginPrefill
  cases hmk : e.useMegakernel with
  | true =>
    have hlegacy : ∀ {P : Prop}, e.useMegakernel = false → P := fun h => by
      rw [hmk] at h
      cases h
    rw [if_pos rfl]
    split
    · exact ⟨by simp, by simp, by simp [hphase], Or.inl ⟨hpasses, hpos⟩, hlegacy⟩
    · exact ⟨by simp, by simp, by simp [hphase], Or.inl ⟨hpasses, hpos⟩, hlegacy⟩
  | false =>
    rw [if_neg (by decide)]
    split
    · exact CallStep.quiet hpasses hpos (by simp) (by simp) (by simp [Call.MidPrefill])
        (by simp [hphase])
    · rename_i hprompt
      exact ⟨by simp, by simp, by simp [hphase], Or.inl ⟨hpasses, hpos⟩,
        fun _ _ => Or.inr (Or.inl ⟨hphase, hpos, hprompt⟩)⟩

theorem callStep_afterExtend {c : Call} {k : Nat} (hphase : c.phase = .extend k) :
    CallStep e c (c.afterExtend e k) := by
  unfold Call.afterExtend
  split
  · exact ⟨by simp, by simp, by simp [hphase], Or.inl ⟨rfl, rfl⟩,
      fun _ _ => Or.inr (Or.inr ⟨Or.inr ⟨k, hphase⟩, rfl, rfl⟩)⟩
  · exact ⟨by simp, by simp, by simp [hphase], Or.inl ⟨rfl, rfl⟩,
      fun _ _ => Or.inr (Or.inr ⟨Or.inr ⟨k, hphase⟩, rfl, rfl⟩)⟩

theorem callStep_afterPrefill {c d : Call} (hphase : c.phase = .prefill)
    (hpasses : d.passes = c.passes + 1) (hpos : d.seqPos = c.seqPos + (c.chunk e).length) :
    CallStep e c (d.afterPrefill e) := by
  have htokens : (c.forwardTokens e).length = (c.chunk e).length := by
    unfold Call.forwardTokens
    rw [if_pos hphase]
  have hpass : (c.phase = .prefill ∨ c.phase = .decode) ∧ d.passes ≠ c.passes ∧
      d.seqPos = c.seqPos + (c.forwardTokens e).length :=
    ⟨Or.inl hphase, by omega, by omega⟩
  unfold Call.afterPrefill
  split
  · exact ⟨by simp, by simp, by simp [hphase], Or.inr hpass, fun _ h => by
      simp [Call.MidPrefill] at h⟩
  · rename_i hleft
    have hlt : d.seqPos < d.prompt.length := by
      simp only [Bool.or_eq_true, decide_eq_true_eq, not_or] at hleft
      omega
    split
    · exact ⟨by simp, by simp, by simp [hphase], Or.inr hpass, fun _ _ => Or.inl hlt⟩
    · exact ⟨by simp, by simp, by simp [hphase], Or.inr hpass, fun _ _ => Or.inl hlt⟩

theorem callStep_afterSample {c : Call} (hphase : c.phase = .sample) (token : Token) :
    CallStep e c (c.afterSample e token) := by
  have hends : ∀ {P : Prop}, c.phase = .release ∨ c.phase = .returned → P := fun h => by
    simp [hphase] at h
  unfold Call.afterSample
  dsimp only
  split
  · exact CallStep.quiet rfl rfl (by simp [Call.finish]) (by simp [Call.finish])
      (by simp [Call.MidPrefill, Call.finish]) hends
  split
  · exact CallStep.quiet rfl rfl (by simp [Call.finish]) (by simp [Call.finish])
      (by simp [Call.MidPrefill, Call.finish]) hends
  split
  · exact CallStep.quiet rfl rfl (by simp [Call.finish]) (by simp [Call.finish])
      (by simp [Call.MidPrefill, Call.finish]) hends
  split
  · exact CallStep.quiet rfl rfl (by simp) (by simp) (by simp [Call.MidPrefill]) hends
  · exact CallStep.quiet rfl rfl (by simp) (by simp) (by simp [Call.MidPrefill]) hends

theorem callStep (s : Live Cell Logits Capture Book) : CallStep e s.call (s.stepped e seqId).2 := by
  unfold stepped act
  cases hphase : s.call.phase with
  | allocate =>
    dsimp only
    split
    · exact ⟨by simp, by simp [hphase], by simp [hphase], Or.inl ⟨rfl, rfl⟩, fun _ h => by
        simp [Call.MidPrefill] at h⟩
    · exact CallStep.quiet rfl rfl (by simp) (by simp) (by simp [Call.MidPrefill]) (by simp)
  | reduce => exact callStep_beginPrefill hphase rfl rfl
  | extend k =>
    dsimp only
    split
    · exact CallStep.quiet rfl rfl (by simp [Call.fail]) (by simp [Call.fail])
        (by simp [Call.MidPrefill, Call.fail]) (by simp [hphase])
    · exact callStep_afterExtend hphase
  | prefill =>
    dsimp only
    split
    · exact CallStep.quiet rfl rfl (by simp [Call.fail]) (by simp [Call.fail])
        (by simp [Call.MidPrefill, Call.fail]) (by simp [hphase])
    · exact callStep_afterPrefill hphase rfl rfl
  | sample => exact callStep_afterSample hphase _
  | decodeExtend =>
    dsimp only
    split
    · exact CallStep.quiet rfl rfl (by simp [Call.finish]) (by simp [Call.finish])
        (by simp [Call.MidPrefill, Call.finish]) (by simp [hphase])
    · exact CallStep.quiet rfl rfl (by simp) (by simp) (by simp [Call.MidPrefill])
        (by simp [hphase])
  | decode =>
    dsimp only
    split
    · exact CallStep.quiet rfl rfl (by simp [Call.finish]) (by simp [Call.finish])
        (by simp [Call.MidPrefill, Call.finish]) (by simp [hphase])
    · refine ⟨by simp, by simp, by simp [hphase], Or.inr ⟨Or.inr hphase, by simp, ?_⟩, fun _ h => by
        simp [Call.MidPrefill] at h⟩
      simp [Call.forwardTokens, hphase]
  | release =>
    exact CallStep.quiet rfl rfl (by simp) (by simp) (by simp [Call.MidPrefill]) (by simp)
  | returned =>
    exact CallStep.quiet rfl rfl (by simp [hphase]) (by simp [hphase])
      (by simp [Call.MidPrefill, hphase]) (by simp [hphase])

theorem CallStep.unmoved {c c' : Call} (h : CallStep e c c') (hprefill : c.phase ≠ .prefill)
    (hdecode : c.phase ≠ .decode) : c'.passes = c.passes ∧ c'.seqPos = c.seqPos := by
  rcases h.seqPos with hsame | ⟨hphase | hphase, -⟩
  · exact hsame
  · exact absurd hphase hprefill
  · exact absurd hphase hdecode

/-- What is left to check of a step of `generate`. -/
theorem InOrder.next {s t : Live Cell Logits Capture Book} (h : InOrder e s)
    (hstep : CallStep e s.call t.call) (hslots : t.writes.map TokenWrite.slot = List.range t.total)
    (hregistered : ∀ len, t.session = some len → len = t.total)
    (hpos : t.call.seqPos = t.prompt + t.decoded)
    (hlive : 0 < t.injected → t.session ≠ none ∨ t.call.phase = .returned) : InOrder e t := by
  refine ⟨hslots, hregistered, hpos, fun hph => absurd hph hstep.begun, hlive, ?_, ?_⟩
  · intro hph
    rcases hph with hph | hph
    · exact absurd hph hstep.begun
    · have hphase := hstep.reduce hph
      rw [(CallStep.unmoved hstep (by simp [hphase]) (by simp [hphase])).2]
      exact h.first (Or.inl hphase)
  · intro hmk hmid
    rcases hstep.legacy hmk hmid with hlt | hbegin | hgoes
    · exact hlt
    · obtain ⟨hphase, hsame, hprompt⟩ := hbegin
      rw [hsame, h.first (Or.inr hphase)]
      exact List.length_pos_of_ne_nil hprompt
    · obtain ⟨hmid', hsame, hprompt⟩ := hgoes
      rw [hsame, hprompt]
      exact h.legacy hmk hmid'

theorem InOrder.idle {s : Live Cell Logits Capture Book} (h : InOrder e s)
    (hpasses : (s.stepped e seqId).2.passes = s.call.passes)
    (d : Device Unit Cell Logits Capture Book) :
    InOrder e { s with device := d, call := (s.stepped e seqId).2 } := by
  have hstep : CallStep e s.call (s.stepped e seqId).2 := callStep s
  refine h.next hstep h.slots h.registered ?_ ?_
  · rcases hstep.seqPos with hsame | hpass
    · exact hsame.2.trans h.seqPos
    · exact absurd hpasses hpass.2.1
  · intro hinjected
    rcases h.live hinjected with hsession | hreturned
    · exact Or.inl hsession
    · exact Or.inr (hstep.ends (Or.inr hreturned))

/-- A pass over `n` tokens, before any injection. -/
theorem InOrder.pass {s t : Live Cell Logits Capture Book} {n : Nat} (h : InOrder e s)
    (hinjected : s.injected = 0) (hn : e.useMegakernel = true ∨ n = 1)
    (hran : (s.stepped e seqId).2.passes ≠ s.call.passes)
    (htokens : (s.call.forwardTokens e).length = n)
    (hcall : t.call = (s.stepped e seqId).2)
    (hwrites : t.writes = s.writes ++ e.tokenWrites s.call.seqPos n)
    (htotal : t.prompt + t.decoded = s.prompt + s.decoded + n) (hnone : t.injected = 0)
    (hsession : ∀ len, t.session = some len → len = t.call.seqPos) : InOrder e t := by
  have hstep : CallStep e s.call (s.stepped e seqId).2 := callStep s
  have hpos : t.call.seqPos = s.call.seqPos + n := by
    rcases hstep.seqPos with hsame | hpass
    · exact absurd hsame.1 hran
    · rw [hcall, hpass.2.2, htokens]
  have hstart : s.call.seqPos = s.total := by
    rw [h.seqPos]
    unfold total
    omega
  have hend : t.total = s.total + n := by
    unfold total
    omega
  refine h.next (by rwa [hcall]) ?_ ?_ ?_ (fun hlive => by omega)
  · rw [hwrites, List.map_append, h.slots, slots_tokenWrites hn, hstart, range_append, hend]
  · intro len hlen
    rw [hsession len hlen, hpos, hstart, hend]
  · rw [hpos, h.seqPos, htotal]

/-- A step of a phase that makes no pass. -/
theorem InOrder.no_pass {s : Live Cell Logits Capture Book} (h : InOrder e s)
    (hprefill : s.call.phase ≠ .prefill) (hdecode : s.call.phase ≠ .decode)
    (d : Device Unit Cell Logits Capture Book) :
    InOrder e { s with device := d, call := (s.stepped e seqId).2 } :=
  h.idle (CallStep.unmoved (callStep s) hprefill hdecode).1 d

theorem inOrder_allocate {s : Live Cell Logits Capture Book} (h : InOrder e s)
    (hphase : s.call.phase = .allocate) : InOrder e (s.generateStep e seqId) := by
  have hidle : InOrder e { s with
      device := (s.stepped e seqId).1
      call := (s.stepped e seqId).2 } := h.no_pass (by simp [hphase]) (by simp [hphase]) _
  unfold generateStep
  rw [hphase]
  dsimp only
  split
  · exact hidle
  · obtain ⟨-, hzero⟩ := h.fresh hphase
    have hinjected : s.injected = 0 := by
      unfold total at hzero
      omega
    refine h.next (callStep s) h.slots ?_ hidle.seqPos (fun hlive => absurd hinjected hlive.ne')
    intro len hlen
    cases hlen
    exact hzero.symm

theorem inOrder_prefill {s : Live Cell Logits Capture Book} (h : InOrder e s)
    (hphase : s.call.phase = .prefill)
    (hok : (s.stepped e seqId).2.passes ≠ s.call.passes → s.injected = 0 ∧
      (e.useMegakernel = true ∨ s.call.phase ≠ .prefill ∨ s.session = none)) :
    InOrder e (s.generateStep e seqId) := by
  unfold generateStep
  rw [hphase]
  dsimp only
  split
  · rename_i hsame
    exact h.idle hsame _
  · rename_i hne
    obtain ⟨hinjected, hregistered⟩ := hok hne
    have hchunk := chunk_length fun hmk => h.legacy hmk (Or.inl hphase)
    refine h.pass hinjected hchunk hne ?_ rfl rfl ?_ hinjected ?_
    · simp [Call.forwardTokens, hphase]
    · dsimp only
      omega
    · intro len hlen
      dsimp only at hlen ⊢
      split at hlen
      · obtain ⟨-, -, hlen⟩ := Option.map_eq_some_iff.mp hlen
        exact hlen.symm
      · rename_i hmk
        rcases hregistered with hmk' | hph | hnone
        · exact absurd hmk' hmk
        · exact absurd hphase hph
        · rw [hnone] at hlen
          cases hlen

theorem inOrder_decode {s : Live Cell Logits Capture Book} (h : InOrder e s)
    (hphase : s.call.phase = .decode)
    (hok : (s.stepped e seqId).2.passes ≠ s.call.passes → s.injected = 0) :
    InOrder e (s.generateStep e seqId) := by
  unfold generateStep
  rw [hphase]
  dsimp only
  split
  · rename_i hsame
    exact h.idle hsame _
  · rename_i hne
    have hinjected := hok hne
    refine h.pass hinjected (Or.inr rfl) hne ?_ rfl rfl ?_ hinjected ?_
    · simp [Call.forwardTokens, hphase]
    · dsimp only
      omega
    · intro len hlen
      obtain ⟨-, -, hlen⟩ := Option.map_eq_some_iff.mp hlen
      exact hlen.symm

theorem inOrder_release {s : Live Cell Logits Capture Book} (h : InOrder e s)
    (hphase : s.call.phase = .release) : InOrder e (s.generateStep e seqId) := by
  have hstep : CallStep e s.call (s.stepped e seqId).2 := callStep s
  have hidle : InOrder e { s with
      device := (s.stepped e seqId).1
      call := (s.stepped e seqId).2 } := h.no_pass (by simp [hphase]) (by simp [hphase]) _
  unfold generateStep
  rw [hphase]
  refine h.next hstep h.slots ?_ hidle.seqPos (fun _ => Or.inr (hstep.ends (Or.inl hphase)))
  intro len hlen
  cases hlen

theorem inOrder_generate {s : Live Cell Logits Capture Book} (h : InOrder e s)
    (hok : PassBeforeInjection e seqId s .generate) : InOrder e (s.generateStep e seqId) := by
  have hran : (s.call.phase = .prefill ∨ s.call.phase = .decode) →
      (s.stepped e seqId).2.passes ≠ s.call.passes → s.injected = 0 ∧
        (e.useMegakernel = true ∨ s.call.phase ≠ .prefill ∨ s.session = none) := by
    intro hphase hne
    apply hok
    simp [ran, hphase, hne]
  cases hphase : s.call.phase with
  | allocate => exact inOrder_allocate h hphase
  | prefill => exact inOrder_prefill h hphase (hran (Or.inl hphase))
  | decode => exact inOrder_decode h hphase fun hne => (hran (Or.inr hphase) hne).1
  | release => exact inOrder_release h hphase
  | reduce | extend k | sample | decodeExtend | returned =>
    unfold generateStep
    rw [hphase]
    exact h.no_pass (by simp [hphase]) (by simp [hphase]) _

theorem InOrder.device {s : Live Cell Logits Capture Book} (h : InOrder e s)
    (d : Device Unit Cell Logits Capture Book) : InOrder e { s with device := d } :=
  ⟨h.slots, h.registered, h.seqPos, h.fresh, h.live, h.first, h.legacy⟩

theorem inOrder_inject {s t : Live Cell Logits Capture Book} {pos : Int} {tokens : List Token}
    (h : InOrder e s) (hinject : s.injectTokens e seqId pos tokens = .ok t) : InOrder e t := by
  obtain ⟨-, hmk, len, d, hsession, rfl⟩ := injectTokens_ok hinject
  have hlen := h.registered len hsession
  have hend : ∀ n, s.prompt + s.decoded + (s.injected + n) = s.total + n := by
    intro n
    unfold total
    omega
  refine ⟨?_, ?_, h.seqPos, ?_, fun _ => Or.inl (by simp), h.first, h.legacy⟩
  · change (s.writes ++ e.tokenWrites len tokens.length).map TokenWrite.slot =
      List.range (s.prompt + s.decoded + (s.injected + tokens.length))
    rw [List.map_append, h.slots, slots_tokenWrites (Or.inl hmk), hlen, range_append, hend]
  · intro len' hlen'
    cases hlen'
    change len + tokens.length = s.prompt + s.decoded + (s.injected + tokens.length)
    rw [hend, hlen]
  · intro hphase
    have hnone := (h.fresh hphase).1
    rw [hnone] at hsession
    cases hsession

theorem inOrder_step {s t : Live Cell Logits Capture Book} {m : Move Cell Logits Capture Book}
    (h : InOrder e s) (hok : PassBeforeInjection e seqId s m) (ht : step e seqId s m = some t) :
    InOrder e t := by
  cases m with
  | generate =>
    cases ht
    exact inOrder_generate h hok
  | inject pos tokens =>
    cases hinject : s.injectTokens e seqId pos tokens with
    | error r =>
      simp only [step, hinject] at ht
      cases ht
      obtain ⟨d, hd⟩ := injectTokens_error hinject
      rw [hd]
      exact h.device d
    | ok u =>
      simp only [step, hinject] at ht
      cases ht
      exact inOrder_inject h hinject
  | others d =>
    cases ht
    exact h.device d

/-- Slots that were written are written again. -/
theorem not_once {s t : Live Cell Logits Capture Book} {n : Nat} (h : InOrder e s)
    (hinjected : 0 < s.injected) (hn : 0 < n) (hlen : e.useMegakernel = true ∨ n = 1)
    (hwrites : t.writes = s.writes ++ e.tokenWrites s.call.seqPos n) : ¬ WrittenOnce t := by
  intro hp
  have honce := hp.once
  rw [hwrites, List.map_append, h.slots, slots_tokenWrites hlen] at honce
  have hapart := (List.nodup_append.mp honce).2.2
  refine hapart s.call.seqPos ?_ s.call.seqPos ?_ rfl
  · rw [List.mem_range, h.seqPos]
    unfold total
    omega
  · rw [List.mem_range'_1]
    omega

/-- A prefill pass stores the call's position into the table on the megakernel path only. -/
theorem generateStep_prefill {s : Live Cell Logits Capture Book} (hphase : s.call.phase = .prefill)
    (hne : (s.stepped e seqId).2.passes ≠ s.call.passes) :
    (s.generateStep e seqId).writes =
        s.writes ++ e.tokenWrites s.call.seqPos (s.call.chunk e).length ∧
      (s.generateStep e seqId).total = s.total + (s.call.chunk e).length ∧
      (s.generateStep e seqId).session =
        if e.useMegakernel then s.session.map fun _ => (s.stepped e seqId).2.seqPos
        else s.session := by
  unfold generateStep total
  simp only [hphase, hne, if_false, true_and, and_true]
  omega

/-- A prefill pass that the table does not agree with, or that writes over an injection. -/
theorem not_writtenOnce_prefill {s : Live Cell Logits Capture Book} (h : InOrder e s)
    (hphase : s.call.phase = .prefill) (hne : (s.stepped e seqId).2.passes ≠ s.call.passes)
    (hbad : 0 < s.injected ∨ (e.useMegakernel = false ∧ s.session ≠ none)) :
    ¬ WrittenOnce (s.generateStep e seqId) := by
  have hchunk := chunk_length fun hmk => h.legacy hmk (Or.inl hphase)
  obtain ⟨hwrites, htotal, hsession⟩ := generateStep_prefill hphase hne
  cases hmk : e.useMegakernel with
  | false =>
    have hone : (s.call.chunk e).length = 1 := by
      rcases hchunk with h' | h'
      · rw [hmk] at h'
        cases h'
      · exact h'
    rw [hmk] at hsession
    rcases hbad with hinjected | hregistered
    · exact not_once h hinjected (by omega) hchunk hwrites
    · intro hp
      obtain ⟨len, hlen⟩ := Option.ne_none_iff_exists'.mp hregistered.2
      have hold := h.registered len hlen
      have hnew := hp.registered len (hsession.trans hlen)
      omega
  | true =>
    have hinjected : 0 < s.injected := by
      rcases hbad with h' | h'
      · exact h'
      · rw [hmk] at h'
        cases h'.1
    rcases Nat.eq_zero_or_pos (s.call.chunk e).length with hzero | hpos
    · -- an empty prompt: the table is set back to its length
      intro hp
      have hlive : s.session ≠ none := by
        rcases h.live hinjected with h' | h'
        · exact h'
        · rw [hphase] at h'
          cases h'
      obtain ⟨len, hlen⟩ := Option.ne_none_iff_exists'.mp hlive
      rw [hmk, if_pos rfl, hlen, Option.map_some] at hsession
      have hnew := hp.registered _ hsession
      have hseqPos : (s.stepped e seqId).2.seqPos = s.prompt + s.decoded := by
        have hstep : CallStep e s.call (s.stepped e seqId).2 := callStep s
        rcases hstep.seqPos with hsame | hpass
        · exact absurd hsame.1 hne
        · have htokens : (s.call.forwardTokens e).length = 0 := by
            rw [Call.forwardTokens, if_pos hphase]
            exact hzero
          rw [hpass.2.2, htokens, h.seqPos, Nat.add_zero]
      have hsum : s.total = s.prompt + s.decoded + s.injected := rfl
      omega
    · exact not_once h hinjected hpos hchunk hwrites

theorem not_writtenOnce {s t : Live Cell Logits Capture Book} {m : Move Cell Logits Capture Book}
    (h : InOrder e s) (hbad : ¬ PassBeforeInjection e seqId s m) (ht : step e seqId s m = some t) :
    ¬ WrittenOnce t := by
  cases m with
  | inject pos tokens => exact absurd trivial hbad
  | others d => exact absurd trivial hbad
  | generate =>
    cases ht
    simp only [PassBeforeInjection, Classical.not_imp, not_and_or, not_or] at hbad
    obtain ⟨hran, hbad⟩ := hbad
    have hpass : (s.call.phase = .prefill ∨ s.call.phase = .decode) ∧
        (s.stepped e seqId).2.passes ≠ s.call.passes := by
      by_contra hno
      exact hran (if_neg hno)
    obtain ⟨hphase, hne⟩ := hpass
    rcases hphase with hphase | hphase
    · refine not_writtenOnce_prefill h hphase hne ?_
      rcases hbad with hinjected | hlegacy
      · exact Or.inl (Nat.pos_of_ne_zero hinjected)
      · exact Or.inr ⟨by simpa using hlegacy.1, hlegacy.2.2⟩
    · have hinjected : 0 < s.injected := by
        rcases hbad with hinjected | hlegacy
        · exact Nat.pos_of_ne_zero hinjected
        · have hprefill : s.call.phase = .prefill := by simpa using hlegacy.2.1
          rw [hphase] at hprefill
          cases hprefill
      refine not_once (n := 1) h hinjected (by decide) (Or.inr rfl) ?_
      unfold generateStep
      simp only [hphase, hne, if_false]

/-- An engine whose cells and logits carry nothing. -/
def blank : Engine Unit Unit Unit Unit where
  vocab := { isEog := fun _ => false, eos := 0, typed := false, piece := fun _ _ => [] }
  blockSize := 32
  blockSize_pos := by decide
  maxNumBlocks := 8
  useMegakernel := true
  forward _ _ := .ok (fun _ => (), ())
  sampler _ := 7
  compressTokens _ tokens := tokens
  updateCache _ _ := ()
  runKvCompressionPass book _ cells := (book, cells)
  zeroCell := ()
  noLogits := ()
  noCapture := ()
  noCodebook := ()

def shortRequest : GenerateRequest := { tokens := [1, 2], requestId := [99] }

/-- The first decoded token goes to slot 2 with position 4. -/
theorem decode_not_ropeExact :
    ¬ AllStates (step blank 0) RopeExact (start (blank.newDevice Unit) shortRequest)
      (List.replicate 5 .generate) := by
  intro h
  have hlast := h.last rfl
  have hw := hlast ⟨2, 4, 4⟩ (by decide)
  exact absurd hw.1 (by decide)

end Live

end TruellmEngine.Cuda
