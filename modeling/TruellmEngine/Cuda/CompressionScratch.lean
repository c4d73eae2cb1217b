/-
  The scratch buffers of the KV compression pass: the VQ indices and the KiVi records that it
  writes behind the prefill of a call.

  `init` makes the buffer of indices for 4096 tokens, whatever the pool is, and `run_vq` does
  not look at it. `run_kivi` compares its records with the buffer and skips the layer.
  `passScratch_within_iff` is about one prefill, `scratch_within_iff` about the calls on a device.

  Which vectors and codebooks the kernels find is any (`Contents`): no address depends on them.
  What the pass makes of the cells is in `KvCompression`, `VqCache` and `KiviRoundTrip`.
-/
import TruellmEngine.Cuda.CallsIsolated
import TruellmEngine.Cuda.KiviRoundTrip

namespace TruellmEngine.Cuda

open Lib

/-- What `load_model` reads of the model. -/
structure ModelSizes where
  nLayers : Nat
  nKvHeads : Nat
  headDim : Nat
  headDim_lt : headDim < 2 ^ 31

/-- What the kernels find in a layer: for VQ, and then for KiVi. -/
structure Contents where
  book : Side → Nat → Half
  kv : Side → Nat → Half
  kv' : Side → Nat → Half

/-- The elements of the index buffer and the bytes of the KiVi buffer that were stored to. -/
structure ScratchStores where
  vq : List Nat
  kivi : List Nat

/-- `max_seq_scratch` -/
def maxSeqScratch : Nat := 4096

namespace ModelSizes

variable (m : ModelSizes) (cfg : CompressionConfig) (blockSize : Nat)

/-- The pass that `load_model` makes. -/
def pass : KvCompressionPass := .new cfg m.nKvHeads m.headDim blockSize

variable {m cfg blockSize}

theorem codebookSize_bounds (h : (m.pass cfg blockSize).vqEnabled = true) :
    0 < (m.pass cfg blockSize).codebookSize ∧
      (m.pass cfg blockSize).codebookSize ≤ vqMaxCodebookSize := by
  have hpos := (Bool.and_eq_true_iff.mp h).2
  exact ⟨of_decide_eq_true hpos, min_le_right _ _⟩

theorem codebookSize_toNat_pos (h : (m.pass cfg blockSize).vqEnabled = true) :
    0 < (m.pass cfg blockSize).codebookSize.toNat := by
  have hbounds := codebookSize_bounds h
  omega

theorem codebookSize_toNat_le (h : (m.pass cfg blockSize).vqEnabled = true) :
    ((m.pass cfg blockSize).codebookSize.toNat : Int) ≤ vqMaxCodebookSize := by
  have hbounds := codebookSize_bounds h
  omega

def vqGeometry (h : (m.pass cfg blockSize).vqEnabled = true) : VqGeometry where
  nKvHeads := m.nKvHeads
  headDim := m.headDim
  codebookSize := (m.pass cfg blockSize).codebookSize.toNat
  headDim_lt := m.headDim_lt
  codebookSize_pos := codebookSize_toNat_pos h
  codebookSize_le := codebookSize_toNat_le h

theorem kiviGroupSize_cases (m : ModelSizes) (cfg : CompressionConfig) (blockSize : Nat) :
    (m.pass cfg blockSize).kiviGroupSize = 16 ∨ (m.pass cfg blockSize).kiviGroupSize = 8 := by
  show (if cfg.bits = 4 then (16 : Int) else 8) = 16 ∨ (if cfg.bits = 4 then (16 : Int) else 8) = 8
  split
  · exact .inl rfl
  · exact .inr rfl

theorem kiviNOutliers_nonneg (h : (m.pass cfg blockSize).kiviEnabled = true) :
    0 ≤ (m.pass cfg blockSize).kiviNOutliers := by
  have hsupported := (Bool.and_eq_true_iff.mp h).2
  unfold kiviParamsSupported at hsupported
  simp only [Bool.and_eq_true, decide_eq_true_eq] at hsupported
  exact hsupported.1.1.1.2

theorem kivi_supported (h : (m.pass cfg blockSize).kiviEnabled = true) :
    kiviParamsSupported m.headDim ((m.pass cfg blockSize).kiviNOutliers.toNat : Nat)
      ((m.pass cfg blockSize).kiviGroupSize.toNat : Nat) = true := by
  have hsupported : kiviParamsSupported m.headDim (m.pass cfg blockSize).kiviNOutliers
      (m.pass cfg blockSize).kiviGroupSize = true := (Bool.and_eq_true_iff.mp h).2
  have hgroup := kiviGroupSize_cases m cfg blockSize
  rw [Int.toNat_of_nonneg (kiviNOutliers_nonneg h), Int.toNat_of_nonneg (by omega)]
  exact hsupported

theorem kiviGroupSize_lt (m : ModelSizes) (cfg : CompressionConfig) (blockSize : Nat) :
    (m.pass cfg blockSize).kiviGroupSize.toNat < 2 ^ 31 := by
  have hgroup := kiviGroupSize_cases m cfg blockSize
  omega

def kiviParams (h : (m.pass cfg blockSize).kiviEnabled = true) : KiviParams where
  headDim := m.headDim
  nOutliers := (m.pass cfg blockSize).kiviNOutliers.toNat
  groupSize := (m.pass cfg blockSize).kiviGroupSize.toNat
  supported := kivi_supported h
  groupSize_lt := kiviGroupSize_lt m cfg blockSize

variable (m cfg blockSize)

/-! ## The stores -/

/-- The stores of `vq_encode` for K and V. -/
def vqScratch (h : (m.pass cfg blockSize).vqEnabled = true) (seqLen : Nat) (c : Contents) :
    List Nat :=
  [Side.k, Side.v].flatMap fun side =>
    ((List.range (gridThreads (seqLen * m.nKvHeads) 256)).flatMap
      ((vqGeometry h).vqEncodeKernel seqLen (c.book side) (c.kv side))).map Prod.fst

/-- `run_vq`, with `codebook_ready_`. -/
def runVqScratch (ready : Bool) (seqLen : Nat) (c : Contents) : Bool × List Nat :=
  if h : (m.pass cfg blockSize).vqEnabled = true then
    if seqLen = 0 then (ready, [])
    else if ready then (ready, vqScratch m cfg blockSize h seqLen c)
    else if ((seqLen * m.nKvHeads : Nat) : Int) < (m.pass cfg blockSize).codebookSize then
      (ready, [])
    else (true, vqScratch m cfg blockSize h seqLen c)
  else (ready, [])

/-- The stores of `kivi_compress` for K and V. -/
def kiviScratch (h : (m.pass cfg blockSize).kiviEnabled = true) (seqLen : Nat) (c : Contents) :
    List Nat :=
  [Side.k, Side.v].flatMap fun side =>
    ((List.range (gridThreads (seqLen * m.nKvHeads) 128)).flatMap
      ((kiviParams h).kiviCompressKernel (seqLen * m.nKvHeads) (c.kv' side))).map Prod.fst

/-- `run_kivi` -/
def runKiviScratch (seqLen : Nat) (c : Contents) : List Nat :=
  if h : (m.pass cfg blockSize).kiviEnabled = true then
    let needed := (seqLen * m.nKvHeads : Nat) * (m.pass cfg blockSize).kiviBytes
    if seqLen = 0 then []
    else if (m.pass cfg blockSize).kiviBufBytes < needed then []
    else kiviScratch m cfg blockSize h seqLen c
  else []

/-- `run`, on one layer. -/
def runScratch (seqLen : Nat) (contents : Nat → Contents) (r : Bool × ScratchStores) (l : Nat) :
    Bool × ScratchStores :=
  let vq := runVqScratch m cfg blockSize r.1 seqLen (contents l)
  let kivi := runKiviScratch m cfg blockSize seqLen (contents l)
  (vq.1, ⟨r.2.vq ++ vq.2, r.2.kivi ++ kivi⟩)

/-- `run_kv_compression_pass` -/
def passScratch (ready : Bool) (seqLen : Nat) (contents : Nat → Contents) :
    Bool × ScratchStores :=
  (List.range m.nLayers).foldl (runScratch m cfg blockSize seqLen contents) (ready, ⟨[], []⟩)

/-- Within the buffers of `init`. -/
structure Within (s : ScratchStores) : Prop where
  vq : ∀ a ∈ s.vq, a < m.nKvHeads * maxSeqScratch
  kivi : ∀ a ∈ s.kivi, (a : Int) < (m.pass cfg blockSize).kiviBufBytes

/-- The prefill has no more tokens than there are indices for, or VQ does not run on it: it
    is off, or there is no codebook yet and the vectors are too few to make one. -/
def Short (ready : Bool) (seqLen : Nat) : Prop :=
  m.nLayers = 0 ∨ m.nKvHeads = 0 ∨ seqLen ≤ maxSeqScratch ∨
    ¬ (m.pass cfg blockSize).VqRuns ready seqLen

/-! ## One prefill -/

variable {m cfg blockSize} {ready : Bool} {seqLen : Nat}

theorem mem_vqScratch {h : (m.pass cfg blockSize).vqEnabled = true} {c : Contents} {a : Nat} :
    a ∈ vqScratch m cfg blockSize h seqLen c ↔ a < seqLen * m.nKvHeads := by
  have hgrid := le_gridThreads (seqLen * m.nKvHeads) 256 (by decide)
  unfold vqScratch
  simp only [List.mem_flatMap, List.mem_map, List.mem_range, Prod.exists, exists_and_right,
    exists_eq_right, VqGeometry.mem_vqEncodeKernel]
  constructor
  · intro hmem
    obtain ⟨side, -, w, i, -, hi, rfl, -⟩ := hmem
    exact hi
  · intro ha
    exact ⟨.k, by decide, _, a, Nat.lt_of_lt_of_le ha hgrid, ha, rfl, rfl⟩

theorem kiviParams_fits (h : (m.pass cfg blockSize).kiviEnabled = true) :
    (kiviParams h).Fits := by
  refine .inl ?_
  show (m.pass cfg blockSize).kiviGroupSize.toNat % 2 = 0
  have hgroup := kiviGroupSize_cases m cfg blockSize
  omega

theorem kiviBytes_eq (h : (m.pass cfg blockSize).kiviEnabled = true) :
    (m.pass cfg blockSize).kiviBytes = (kiviParams h).kiviStride := by
  have hgroup := kiviGroupSize_cases m cfg blockSize
  have hbytes : (m.pass cfg blockSize).kiviBytes = kiviCompressedBytes (kiviParams h).headDim
      (kiviParams h).nOutliers (kiviParams h).groupSize := by
    unfold KvCompressionPass.kiviBytes
    congr 1
    · exact (Int.toNat_of_nonneg (kiviNOutliers_nonneg h)).symm
    · exact (Int.toNat_of_nonneg (by omega)).symm
  have hnat := KiviParams.kiviCompressedBytes_eq (kiviParams h)
  unfold KiviParams.kiviStride
  rw [hbytes, hnat, Int.toNat_natCast]

/-- The records of the vectors lie below the bytes that `run_kivi` has counted for them. -/
theorem lt_of_mem_kiviScratch {h : (m.pass cfg blockSize).kiviEnabled = true} {c : Contents}
    {a : Nat} (ha : a ∈ kiviScratch m cfg blockSize h seqLen c) :
    (a : Int) < (seqLen * m.nKvHeads : Nat) * (m.pass cfg blockSize).kiviBytes := by
  unfold kiviScratch at ha
  simp only [List.mem_flatMap, List.mem_map, List.mem_range, Prod.exists, exists_and_right,
    exists_eq_right] at ha
  obtain ⟨side, -, b, tid, -, hmem⟩ := ha
  unfold KiviParams.kiviCompressKernel at hmem
  split at hmem
  · cases hmem
  · rename_i hin
    obtain ⟨k, hk, rfl, -⟩ := mem_recordStores.mp hmem
    have hstride : k < (kiviParams h).kiviStride :=
      Nat.lt_of_lt_of_le hk (KiviParams.length_record_le_stride (kiviParams_fits h) _)
    rw [kiviBytes_eq h]
    exact_mod_cast digits_lt (Nat.lt_of_not_le hin) hstride

theorem mem_runVqScratch {c : Contents} {a : Nat} :
    a ∈ (runVqScratch m cfg blockSize ready seqLen c).2 ↔
      (m.pass cfg blockSize).VqRuns ready seqLen ∧ a < seqLen * m.nKvHeads := by
  unfold runVqScratch KvCompressionPass.VqRuns
  split
  · rename_i henabled
    rw [henabled]
    split
    · rename_i hzero
      exact iff_of_false List.not_mem_nil fun h => by have hpos := h.1.2.1; omega
    · rename_i hpos
      split
      · rename_i hready
        rw [mem_vqScratch, hready]
        exact (and_iff_right ⟨rfl, Nat.pos_of_ne_zero hpos, .inl rfl⟩).symm
      · rename_i hready
        split
        · rename_i hfew
          refine iff_of_false List.not_mem_nil fun h => ?_
          rcases h.1.2.2 with h' | h'
          · exact hready h'
          · exact absurd hfew (not_lt.mpr h')
        · rename_i henough
          rw [mem_vqScratch]
          exact (and_iff_right ⟨rfl, Nat.pos_of_ne_zero hpos, .inr (not_lt.mp henough)⟩).symm
  · rename_i hoff
    exact iff_of_false List.not_mem_nil fun h => hoff h.1.1

/-- The first layer decides for all of them whether VQ runs. -/
theorem vqRuns_runVqScratch (c : Contents) :
    (m.pass cfg blockSize).VqRuns (runVqScratch m cfg blockSize ready seqLen c).1 seqLen ↔
      (m.pass cfg blockSize).VqRuns ready seqLen := by
  unfold runVqScratch
  split
  · rename_i henabled
    split
    · exact Iff.rfl
    · rename_i hpos
      split
      · exact Iff.rfl
      · split
        · exact Iff.rfl
        · rename_i henough
          have hruns : ∀ r, r = true ∨ (m.pass cfg blockSize).codebookSize ≤
              (seqLen * m.nKvHeads : Nat) → (m.pass cfg blockSize).VqRuns r seqLen :=
            fun r hr => ⟨henabled, Nat.pos_of_ne_zero hpos, hr⟩
          exact iff_of_true (hruns true (.inl rfl)) (hruns ready (.inr (not_lt.mp henough)))
  · exact Iff.rfl

theorem lt_of_mem_runKiviScratch {c : Contents} {a : Nat}
    (ha : a ∈ runKiviScratch m cfg blockSize seqLen c) :
    (a : Int) < (m.pass cfg blockSize).kiviBufBytes := by
  unfold runKiviScratch at ha
  split at ha
  · dsimp only at ha
    split at ha
    · cases ha
    · split at ha
      · cases ha
      · rename_i hroom
        exact (lt_of_mem_kiviScratch ha).trans_le (not_lt.mp hroom)
  · cases ha

variable (m cfg blockSize ready seqLen) in
/-- After `n` layers. -/
theorem layers_scratch (contents : Nat → Contents) (n : Nat) :
    ((m.pass cfg blockSize).VqRuns ((List.range n).foldl
        (runScratch m cfg blockSize seqLen contents) (ready, ⟨[], []⟩)).1 seqLen ↔
      (m.pass cfg blockSize).VqRuns ready seqLen) ∧
    (∀ a, a ∈ ((List.range n).foldl (runScratch m cfg blockSize seqLen contents)
        (ready, ⟨[], []⟩)).2.vq ↔
      0 < n ∧ (m.pass cfg blockSize).VqRuns ready seqLen ∧ a < seqLen * m.nKvHeads) ∧
    ∀ a ∈ ((List.range n).foldl (runScratch m cfg blockSize seqLen contents)
        (ready, ⟨[], []⟩)).2.kivi, (a : Int) < (m.pass cfg blockSize).kiviBufBytes := by
  induction n with
  | zero =>
    exact ⟨Iff.rfl, fun a => iff_of_false List.not_mem_nil fun h => absurd h.1 (lt_irrefl 0),
      nofun⟩
  | succ n ih =>
    obtain ⟨hruns, hvq, hkivi⟩ := ih
    rw [List.range_succ, List.foldl_append, List.foldl_cons, List.foldl_nil]
    unfold runScratch at hruns hvq hkivi ⊢
    dsimp only
    refine ⟨(vqRuns_runVqScratch _).trans hruns, fun a => ?_, fun a ha => ?_⟩
    · rw [List.mem_append, hvq, mem_runVqScratch, hruns]
      constructor
      · intro h
        exact ⟨Nat.succ_pos n, h.elim And.right id⟩
      · intro h
        exact .inr h.2
    · rcases List.mem_append.mp ha with ha | ha
      · exact hkivi a ha
      · exact lt_of_mem_runKiviScratch ha

/-- What the compression of a prefill stores is within the buffers exactly if it is short. -/
theorem passScratch_within_iff (contents : Nat → Contents) :
    Within m cfg blockSize (passScratch m cfg blockSize ready seqLen contents).2 ↔
      Short m cfg blockSize ready seqLen := by
  obtain ⟨-, hvq, hkivi⟩ := layers_scratch m cfg blockSize ready seqLen contents m.nLayers
  unfold Short
  constructor
  · intro h
    by_contra hlong
    rw [not_or, not_or, not_or, not_not, not_le] at hlong
    obtain ⟨hlayers, hheads, hlen, hruns⟩ := hlong
    have hheads' := Nat.pos_of_ne_zero hheads
    have hmul : (maxSeqScratch + 1) * m.nKvHeads ≤ seqLen * m.nKvHeads :=
      Nat.mul_le_mul_right _ hlen
    rw [Nat.succ_mul] at hmul
    have hlast := h.vq (seqLen * m.nKvHeads - 1)
      ((hvq _).mpr ⟨Nat.pos_of_ne_zero hlayers, hruns, by omega⟩)
    rw [Nat.mul_comm m.nKvHeads] at hlast
    omega
  · intro h
    refine ⟨fun a ha => ?_, hkivi⟩
    obtain ⟨hlayers, hruns, ha⟩ := (hvq a).mp ha
    rcases h with hzero | hzero | hle | hnot
    · omega
    · rw [hzero, Nat.mul_zero] at ha
      omega
    · refine Nat.lt_of_lt_of_le ha ?_
      rw [Nat.mul_comm m.nKvHeads]
      exact Nat.mul_le_mul_right _ hle
    · exact absurd hruns hnot

end ModelSizes

/-! ## Calls -/

variable {ι Cell Logits Capture Book : Type*}

/-- The calls on a device, with `codebook_ready_`. -/
structure Compressing (ι Cell Logits Capture Book : Type*) where
  calls : Calls ι Cell Logits Capture Book
  ready : Bool

namespace Compressing

variable (e : Engine Cell Logits Capture Book) (seqId : ι → UInt64) (m : ModelSizes)
  (cfg : CompressionConfig)

/-- The tokens of the prefill that the next step of call `i` makes and compresses. -/
def prefilled (w : Compressing ι Cell Logits Capture Book) (i : ι) : Option Nat :=
  let c := w.calls.locals i
  if c.phase = .prefill ∧ e.useMegakernel = true ∧
      (runForward e i (seqId i) (c.passes + 1) w.calls.shared c.seqPos (c.chunk e)).isOk = true
  then some c.prompt.length
  else none

/-- The compression of that prefill, on the vectors that it finds. -/
def compression (w : Compressing ι Cell Logits Capture Book) (l : ι × (Nat → Contents)) :
    Bool × ScratchStores :=
  match w.prefilled e seqId l.1 with
  | some seqLen => m.passScratch cfg e.blockSize w.ready seqLen l.2
  | none => (w.ready, ⟨[], []⟩)

def start (reqs : ι → GenerateRequest) : Compressing ι Cell Logits Capture Book where
  calls := Threads.start (e.newDevice ι) (issued reqs)
  ready := false

variable [DecidableEq ι]

/-- The next step is taken by one of the calls. -/
def step (w : Compressing ι Cell Logits Capture Book) (l : ι × (Nat → Contents)) :
    Option (Compressing ι Cell Logits Capture Book) :=
  some ⟨w.calls.next (act e seqId) l.1, (w.compression e seqId m cfg l).1⟩

/-- The scratch stores of the step are within the buffers. -/
def StoresWithin (w : Compressing ι Cell Logits Capture Book) (l : ι × (Nat → Contents)) : Prop :=
  m.Within cfg e.blockSize (w.compression e seqId m cfg l).2

/-- A prefill of the step is short. -/
def PrefillsShort (w : Compressing ι Cell Logits Capture Book) (l : ι × (Nat → Contents)) : Prop :=
  ∀ seqLen, w.prefilled e seqId l.1 = some seqLen → m.Short cfg e.blockSize w.ready seqLen

omit [DecidableEq ι] in
theorem storesWithin_iff (w : Compressing ι Cell Logits Capture Book) (l : ι × (Nat → Contents)) :
    w.StoresWithin e seqId m cfg l ↔ w.PrefillsShort e seqId m cfg l := by
  unfold StoresWithin PrefillsShort compression
  cases w.prefilled e seqId l.1 with
  | none => exact iff_of_true ⟨nofun, nofun⟩ nofun
  | some seqLen =>
    refine (ModelSizes.passScratch_within_iff l.2).trans ?_
    constructor
    · intro h seqLen' heq
      cases heq
      exact h
    · intro h
      exact h seqLen rfl

/-- The compression of the prefills of a run stays within its buffers exactly if all of them
    are short. -/
theorem scratch_within_iff (reqs : ι → GenerateRequest) (ls : List (ι × (Nat → Contents))) :
    AllSteps (step e seqId m cfg) (StoresWithin e seqId m cfg) (start e reqs) ls ↔
      AllSteps (step e seqId m cfg) (PrefillsShort e seqId m cfg) (start e reqs) ls :=
  allSteps_congr (I := fun _ => True) (fun _ _ _ _ _ => trivial)
    (fun w l _ => storesWithin_iff e seqId m cfg w l) trivial ls

/-- An engine whose blocks hold 8192 tokens. -/
def largeBlocks : Engine Unit Unit Unit Unit where
  vocab := { isEog := fun _ => false, eos := 0, typed := false, piece := fun _ _ => [] }
  blockSize := 8192
  blockSize_pos := Nat.succ_pos _
  maxNumBlocks := 1
  useMegakernel := true
  forward _ _ := .ok (fun _ => (), ())
  sampler _ := 7
  compressTokens _ tokens := tokens
  updateCache _ _ := ()
  runKvCompressionPass book _ cells := (book, cells)
  zeroCell := ()
  noLogits := ()
  noCapture := ()
  noCodebook := ()

theorem usual_headDim_lt : 128 < 2 ^ 31 := by decide

def usualSizes : ModelSizes where
  nLayers := 32
  nKvHeads := 8
  headDim := 128
  headDim_lt := usual_headDim_lt

/-- A prompt of one token more than there are indices for. -/
def longPrompt : GenerateRequest := { tokens := List.replicate 4097 1 }

def silence : Contents := ⟨fun _ _ => zeroHalf, fun _ _ => zeroHalf, fun _ _ => zeroHalf⟩

theorem longPrompt_prefilled :
    (run (step largeBlocks (fun _ => 0) usualSizes vqConfig)
      (start largeBlocks fun _ : Unit => longPrompt)
      (List.replicate 2 ((), fun _ => silence))).map (fun w =>
        (w.prefilled largeBlocks (fun _ => 0) (), w.ready)) = some (some 4097, false) := by
  decide +kernel

/-- The device admits the prompt, and VQ stores its indices beyond the buffer. -/
theorem long_prefill_overruns :
    ¬ AllSteps (step largeBlocks (fun _ => 0) usualSizes vqConfig)
      (StoresWithin largeBlocks (fun _ => 0) usualSizes vqConfig)
      (start largeBlocks fun _ : Unit => longPrompt)
      (List.replicate 3 ((), fun _ => silence)) := by
  intro h
  obtain ⟨w, hw, hpair⟩ := Option.map_eq_some_iff.mp longPrompt_prefilled
  obtain ⟨hprefilled, hready⟩ := Prod.mk.inj hpair
  have hthree : AllSteps (step largeBlocks (fun _ => 0) usualSizes vqConfig)
      (StoresWithin largeBlocks (fun _ => 0) usualSizes vqConfig)
      (start largeBlocks fun _ : Unit => longPrompt)
      (List.replicate 2 ((), fun _ => silence) ++ [((), fun _ => silence)]) := h
  have hshort := (storesWithin_iff _ _ _ _ _ _).mp (hthree.last hw rfl) 4097 hprefilled
  rw [hready] at hshort
  rcases hshort with hlayers | hheads | hlen | hruns
  · exact absurd hlayers (by decide)
  · exact absurd hheads (by decide)
  · exact absurd hlen (by decide)
  · exact hruns ⟨rfl, by decide, .inr (by decide)⟩

end Compressing

end TruellmEngine.Cuda
