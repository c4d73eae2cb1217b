/-
  The KV compression pass (`kv_compression_pass.cpp`, `vq_cache.cu`, `kivi_cache.cu`) behind a
  forward pass of the megakernel, as `generate` runs it after the prefill and `inject_tokens`
  after an append.

  The megakernel stores the row of KV head `h` and slot `p` as row `h * capacity + p` of the
  layer. The compression takes the rows of token `t` and head `h` to be row
  `t * n_kv_heads + h`, from the layer's first row on. `rewritesWritten_iff` says when the two
  are the same rows.

  The codecs and the clustering of the codebook are arguments: what matters is which cells
  they are given and which ones are overwritten. Cells are counted from the layer's pointer, in
  elements. The scratch buffers are not part of the pool and not modelled.
-/
import TruellmEngine.Cuda.KvCells
import TruellmEngine.Lib.Footprint
import Mathlib.Logic.Function.Basic

namespace TruellmEngine.Cuda

open Lib

/-! ## The pass -/

def vqMaxCodebookSize : Int := 65535

def kiviMaxHeadDim : Int := 128

def kiviMaxOutliers : Int := 64

/-- What the pass reads of `CompressionConfig`. -/
structure CompressionConfig where
  kvVqEnabled : Bool
  codebookSize : Int
  kvKiviEnabled : Bool
  residualLength : Int
  bits : Int

structure KvCompressionPass where
  vqEnabled : Bool
  kiviEnabled : Bool
  nKvHeads : Nat
  headDim : Nat
  blockSize : Nat
  codebookSize : Int
  kiviNOutliers : Int
  kiviGroupSize : Int

def kiviParamsSupported (headDim nOutliers groupSize : Int) : Bool :=
  0 < headDim && headDim ≤ kiviMaxHeadDim && 0 ≤ nOutliers && nOutliers ≤ kiviMaxOutliers
    && 0 < groupSize && nOutliers ≤ headDim

def kiviCompressedBytes (headDim nOutliers groupSize : Int) : Int :=
  let nRes := headDim - nOutliers
  let nGroups := (nRes + groupSize - 1).tdiv groupSize
  nOutliers * 3 + nGroups * (groupSize.tdiv 2 + 4)

/-- What the codecs compute. `vq` and `kivi` take a vector and give the elements that replace
    it; `kmeans` takes the sample vectors. -/
structure Codecs (α β : Type*) where
  kmeans : List (List α) → β
  vq : β → List α → Nat → α
  kivi : List α → Nat → α

/-- `codebook_ready_`, `d_codebook_k_` and `d_codebook_v_`. -/
structure Codebooks (β : Type*) where
  ready : Bool
  book : Side → β

namespace KvCompressionPass

/-- The constructor. -/
def new (cfg : CompressionConfig) (nKvHeads headDim blockSize : Nat) : KvCompressionPass :=
  let codebookSize := min cfg.codebookSize vqMaxCodebookSize
  let groupSize := if cfg.bits = 4 then 16 else 8
  { vqEnabled := cfg.kvVqEnabled && 0 < codebookSize
    kiviEnabled := cfg.kvKiviEnabled && kiviParamsSupported headDim cfg.residualLength groupSize
    nKvHeads, headDim, blockSize, codebookSize
    kiviNOutliers := cfg.residualLength
    kiviGroupSize := groupSize }

def enabled (p : KvCompressionPass) : Bool := p.vqEnabled || p.kiviEnabled

variable {α β : Type*} (p : KvCompressionPass) (codecs : Codecs α β)

/-- The samples of `codebook_init_kmeans`, vectors of one side of the layer. -/
def samples (nSamples : Nat) (m : Traced α) : List (List α) :=
  (List.range nSamples).map fun i => (m.load (i * p.headDim) p.headDim).1

def sampled (nSamples : Nat) (m : Traced α) : Traced α :=
  (List.range nSamples).foldl (fun m i => (m.load (i * p.headDim) p.headDim).2) m

/-- `vq_encode` and `vq_decode`: thread `tid` has the vector of one token and head. -/
def vqReplace (seqLen : Nat) (book : β) (m : Traced α) : Traced α :=
  (List.range (seqLen * p.nKvHeads)).foldl (fun m tid =>
    let tok := tid / p.nKvHeads
    let head := tid % p.nKvHeads
    m.rewrite (codecs.vq book) p.headDim ((tok * p.nKvHeads + head) * p.headDim)) m

def runVq (seqLen : Nat) (s : Codebooks β) (x : Side → Traced α) :
    Codebooks β × (Side → Traced α) :=
  if seqLen = 0 then (s, x)
  else if s.ready then (s, fun side => p.vqReplace codecs seqLen (s.book side) (x side))
  else
    let nSamples := seqLen * p.nKvHeads
    -- wait for a bigger batch
    if (nSamples : Int) < p.codebookSize then (s, x)
    else
      let s : Codebooks β := ⟨true, fun side => codecs.kmeans (p.samples nSamples (x side))⟩
      (s, fun side =>
        p.vqReplace codecs seqLen (s.book side) (p.sampled nSamples (x side)))

def kiviBytes : Int := kiviCompressedBytes p.headDim p.kiviNOutliers p.kiviGroupSize

/-- The size that `init` gives the scratch buffer. -/
def kiviBufBytes : Int := (p.blockSize * p.nKvHeads : Nat) * p.kiviBytes

/-- `kivi_compress` and `kivi_decompress`. -/
def kiviReplace (nVecs : Nat) (m : Traced α) : Traced α :=
  (List.range nVecs).foldl
    (fun m tid => m.rewrite codecs.kivi p.headDim (tid * p.headDim)) m

def runKivi (seqLen : Nat) (x : Side → Traced α) : Side → Traced α :=
  if seqLen = 0 then x
  else
    let nVecs := seqLen * p.nKvHeads
    let needed := (nVecs : Nat) * p.kiviBytes
    if p.kiviBufBytes < needed then x
    else fun side => p.kiviReplace codecs nVecs (x side)

/-- `run`, on one layer. -/
def run (seqLen : Nat) (s : Codebooks β) (x : Side → Traced α) :
    Codebooks β × (Side → Traced α) :=
  let r := if p.vqEnabled then p.runVq codecs seqLen s x else (s, x)
  (r.1, if p.kiviEnabled then p.runKivi codecs seqLen r.2 else r.2)

def runLayer (seqLen : Nat) (r : Codebooks β × (Nat → Side → Traced α)) (l : Nat) :
    Codebooks β × (Nat → Side → Traced α) :=
  let layer := p.run codecs seqLen r.1 (r.2 l)
  (layer.1, Function.update r.2 l layer.2)

/-- `run_kv_compression_pass`. -/
def runKvCompressionPass (nLayers seqLen : Nat) (s : Codebooks β) (pool : Nat → Side → Traced α) :
    Codebooks β × (Nat → Side → Traced α) :=
  if !p.enabled then (s, pool)
  else (List.range nLayers).foldl (p.runLayer codecs seqLen) (s, pool)

end KvCompressionPass

/-! ## The forward pass -/

/-- The K/V projection of the megakernel on one side of a layer. `row tok h` is the vector
    that is stored for a token and a head. -/
def storeRows {α : Type*} (g : Geometry) (kvSeqLen seqLen : Nat) (row : Nat → Nat → Nat → α)
    (m : Traced α) : Traced α :=
  let kvWritePos := kvSeqLen - seqLen
  (List.range seqLen).foldl (fun m tok =>
    let kvPos := kvWritePos + tok
    (List.range g.numKvHeads).foldl (fun m h =>
      m.store (h * (g.maxNumBlocks * g.blockSize) * g.headSize + kvPos * g.headSize) g.headSize
        (row tok h)) m) m

/-- The pool after a forward pass over `seqLen` tokens, with the cells that it stored to. -/
def forwardPass {α : Type*} (g : Geometry) (kvSeqLen seqLen : Nat)
    (row : Nat → Side → Nat → Nat → Nat → α) (pool : Nat → Side → Nat → α) :
    Nat → Side → Traced α :=
  fun l side =>
    if l < g.numLayers then
      storeRows g kvSeqLen seqLen (row l side) (Traced.ofCells (pool l side))
    else Traced.ofCells (pool l side)

/-- The pool as the compression finds it: what was loaded and stored before does not count. -/
def retraced {α : Type*} (pool : Nat → Side → Traced α) : Nat → Side → Traced α :=
  fun l side => Traced.ofCells (pool l side).cells

/-- The pass that `load_model` makes. -/
def Geometry.compressionPass (g : Geometry) (cfg : CompressionConfig) : KvCompressionPass :=
  .new cfg g.numKvHeads g.headSize g.blockSize

/-- The compression of `seqLen` tokens behind the forward pass over them. -/
def compressed {α β : Type*} (g : Geometry) (cfg : CompressionConfig) (codecs : Codecs α β)
    (s : Codebooks β) (seqLen : Nat) (forward : Nat → Side → Traced α) :
    Nat → Side → Traced α :=
  ((g.compressionPass cfg).runKvCompressionPass codecs g.numLayers seqLen s (retraced forward)).2

/-- The compression behind a forward pass loads and stores exactly the cells that the forward
    pass stored to, in all layers, and changes no other cell. -/
structure RewritesWritten {α β : Type*} (g : Geometry) (cfg : CompressionConfig)
    (codecs : Codecs α β) (s : Codebooks β) (seqLen : Nat) (forward : Nat → Side → Traced α) :
    Prop where
  loads : ∀ l side c, c ∈ (compressed g cfg codecs s seqLen forward l side).loads ↔
    c ∈ (forward l side).stores
  stores : ∀ l side c, c ∈ (compressed g cfg codecs s seqLen forward l side).stores ↔
    c ∈ (forward l side).stores
  others : ∀ l side c, c ∉ (forward l side).stores →
    (compressed g cfg codecs s seqLen forward l side).cells c = (forward l side).cells c

/-! ## The rows of a pass -/

/-- Cell `c` is in row `r`, of rows of `len` cells. -/
def InRow (len r c : Nat) : Prop := r * len ≤ c ∧ c < r * len + len

theorem inRow_iff {len c r : Nat} (hlen : 0 < len) : InRow len r c ↔ c / len = r := by
  constructor
  · intro h
    have hlow : r ≤ c / len := (Nat.le_div_iff_mul_le hlen).mpr h.1
    have hhigh : c / len < r + 1 := by
      rw [Nat.div_lt_iff_lt_mul hlen, Nat.add_mul, Nat.one_mul]
      exact h.2
    omega
  · intro h
    subst h
    exact ⟨Nat.div_mul_le_self c len, Nat.lt_div_mul_add hlen⟩

theorem not_inRow_zero {r c : Nat} : ¬ InRow 0 r c := by
  unfold InRow
  omega

/-- The rows that a forward pass stores to in each layer. -/
def WrittenRow (g : Geometry) (kvSeqLen seqLen r : Nat) : Prop :=
  ∃ tok < seqLen, ∃ h < g.numKvHeads,
    r = h * (g.maxNumBlocks * g.blockSize) + (kvSeqLen - seqLen + tok)

theorem touches_storeRows {α : Type*} (g : Geometry) (kvSeqLen seqLen : Nat)
    (row : Nat → Nat → Nat → α) (m : Traced α) :
    m.Touches (storeRows g kvSeqLen seqLen row m) (fun _ => False)
      fun c => ∃ r, WrittenRow g kvSeqLen seqLen r ∧ InRow g.headSize r c := by
  have hhead : ∀ (tok : Nat) (m : Traced α) (h : Nat), m.Touches (m.store
      (h * (g.maxNumBlocks * g.blockSize) * g.headSize + (kvSeqLen - seqLen + tok) * g.headSize)
      g.headSize (row tok h)) (fun _ => False)
      (InRow g.headSize (h * (g.maxNumBlocks * g.blockSize) + (kvSeqLen - seqLen + tok))) := by
    intro tok m h
    rw [← Nat.add_mul]
    exact Traced.touches_store m _ g.headSize (row tok h)
  have htok := fun (m : Traced α) (tok : Nat) =>
    Traced.Touches.foldl (hhead tok) (List.range g.numKvHeads) m
  refine (Traced.Touches.foldl htok (List.range seqLen) m).congr ?_ ?_
  · intro c
    simp
  · intro c
    simp only [List.mem_range]
    constructor
    · rintro ⟨r, ⟨tok, htok, h, hh, rfl⟩, hrow⟩
      exact ⟨tok, htok, h, hh, hrow⟩
    · rintro ⟨tok, htok, h, hh, hrow⟩
      exact ⟨_, ⟨tok, htok, h, hh, rfl⟩, hrow⟩

namespace KvCompressionPass

variable {α β : Type*} {p : KvCompressionPass} {codecs : Codecs α β}

/-- A loop that rewrites the first `n` rows. -/
theorem touches_rows (f : List α → Nat → α) (n : Nat) (m : Traced α) :
    m.Touches ((List.range n).foldl (fun m i => m.rewrite f p.headDim (i * p.headDim)) m)
      (fun c => ∃ r < n, InRow p.headDim r c) fun c => ∃ r < n, InRow p.headDim r c := by
  have hrow := fun (m : Traced α) (i : Nat) =>
    Traced.touches_rewrite f p.headDim m (i * p.headDim)
  refine (Traced.Touches.foldl hrow (List.range n) m).congr ?_ ?_
  · intro c
    simp only [List.mem_range, InRow]
  · intro c
    simp only [List.mem_range, InRow]

theorem touches_vqReplace (seqLen : Nat) (book : β) (m : Traced α) :
    m.Touches (p.vqReplace codecs seqLen book m)
      (fun c => ∃ r < seqLen * p.nKvHeads, InRow p.headDim r c)
      fun c => ∃ r < seqLen * p.nKvHeads, InRow p.headDim r c := by
  unfold vqReplace
  simp only [Nat.div_add_mod']
  exact touches_rows (codecs.vq book) _ m

theorem touches_sampled (n : Nat) (m : Traced α) :
    m.Touches (p.sampled n m) (fun c => ∃ r < n, InRow p.headDim r c) fun _ => False := by
  have hrow := fun (m : Traced α) (i : Nat) =>
    Traced.touches_load m (i * p.headDim) p.headDim
  refine (Traced.Touches.foldl hrow (List.range n) m).congr ?_ ?_
  · intro c
    simp only [List.mem_range, InRow]
  · intro c
    simp

/-! ## One layer -/

/-- VQ has a codebook, or enough samples to make one. -/
def VqRuns (p : KvCompressionPass) (ready : Bool) (seqLen : Nat) : Prop :=
  p.vqEnabled = true ∧ 0 < seqLen ∧ (ready = true ∨ p.codebookSize ≤ (seqLen * p.nKvHeads : Nat))

/-- KiVi has room for the vectors in its scratch buffer. -/
def KiviRuns (p : KvCompressionPass) (seqLen : Nat) : Prop :=
  p.kiviEnabled = true ∧ 0 < seqLen ∧ (seqLen * p.nKvHeads : Nat) * p.kiviBytes ≤ p.kiviBufBytes

def Runs (p : KvCompressionPass) (ready : Bool) (seqLen : Nat) : Prop :=
  p.VqRuns ready seqLen ∨ p.KiviRuns seqLen

/-- What a pass does to one side of a layer: it rewrites the first rows, if it runs. -/
abbrev RewritesRows (p : KvCompressionPass) (runs : Prop) (seqLen : Nat) (m m' : Traced α) : Prop :=
  m.Touches m' (fun c => runs ∧ ∃ r < seqLen * p.nKvHeads, InRow p.headDim r c)
    fun c => runs ∧ ∃ r < seqLen * p.nKvHeads, InRow p.headDim r c

theorem rewritesRows_of_not {runs : Prop} (h : ¬ runs) (seqLen : Nat) (m : Traced α) :
    p.RewritesRows runs seqLen m m := by
  refine (Traced.touches_refl m).congr ?_ ?_
  · intro c
    simp [h]
  · intro c
    simp [h]

variable {seqLen : Nat}

theorem runVq_rewrites (hvq : p.vqEnabled = true) (s : Codebooks β)
    (x : Side → Traced α) (side : Side) :
    p.RewritesRows (p.VqRuns s.ready seqLen) seqLen (x side)
      ((p.runVq codecs seqLen s x).2 side) := by
  unfold runVq
  split
  · rename_i hzero
    exact rewritesRows_of_not (fun h => by have hpos := h.2.1; omega) seqLen _
  · rename_i hpos
    split
    · rename_i hready
      have hruns : p.VqRuns s.ready seqLen := ⟨hvq, by omega, Or.inl hready⟩
      refine (touches_vqReplace seqLen _ _).congr ?_ ?_
      · intro c
        exact and_iff_right hruns
      · intro c
        exact and_iff_right hruns
    · rename_i hready
      dsimp only
      split
      · rename_i hfew
        refine rewritesRows_of_not ?_ seqLen _
        intro h
        rcases h.2.2 with h' | h'
        · exact hready h'
        · omega
      · rename_i henough
        have hruns : p.VqRuns s.ready seqLen := ⟨hvq, by omega, Or.inr (by omega)⟩
        refine ((touches_sampled _ _).trans (touches_vqReplace seqLen _ _)).congr ?_ ?_
        · intro c
          rw [or_self]
          exact and_iff_right hruns
        · intro c
          rw [false_or]
          exact and_iff_right hruns

theorem runKivi_rewrites (hkivi : p.kiviEnabled = true)
    (x : Side → Traced α) (side : Side) :
    p.RewritesRows (p.KiviRuns seqLen) seqLen (x side) (p.runKivi codecs seqLen x side) := by
  unfold runKivi
  split
  · rename_i hzero
    exact rewritesRows_of_not (fun h => by have hpos := h.2.1; omega) seqLen _
  · rename_i hpos
    dsimp only
    split
    · rename_i hsmall
      exact rewritesRows_of_not (fun h => by have hfits := h.2.2; omega) seqLen _
    · rename_i hfits
      have hruns : p.KiviRuns seqLen := ⟨hkivi, by omega, by omega⟩
      refine (touches_rows codecs.kivi _ _).congr ?_ ?_
      · intro c
        exact and_iff_right hruns
      · intro c
        exact and_iff_right hruns

theorem run_rewrites (s : Codebooks β) (x : Side → Traced α)
    (side : Side) :
    p.RewritesRows (p.Runs s.ready seqLen) seqLen (x side) ((p.run codecs seqLen s x).2 side) := by
  have hvq : p.RewritesRows (p.VqRuns s.ready seqLen) seqLen (x side)
      ((if p.vqEnabled then p.runVq codecs seqLen s x else (s, x)).2 side) := by
    cases h : p.vqEnabled with
    | true => exact runVq_rewrites h s x side
    | false => exact rewritesRows_of_not (fun hr => by simp [VqRuns, h] at hr) seqLen _
  have hkivi : ∀ y : Side → Traced α, p.RewritesRows (p.KiviRuns seqLen) seqLen (y side)
      ((if p.kiviEnabled then p.runKivi codecs seqLen y else y) side) := by
    intro y
    cases h : p.kiviEnabled with
    | true => exact runKivi_rewrites h y side
    | false => exact rewritesRows_of_not (fun hr => by simp [KiviRuns, h] at hr) seqLen _
  refine (hvq.trans (hkivi _)).congr ?_ ?_
  · intro c
    exact or_and_right
  · intro c
    exact or_and_right

/-- The first layer decides for all of them whether VQ runs. -/
theorem run_runs (s : Codebooks β) (x : Side → Traced α) :
    p.Runs (p.run codecs seqLen s x).1.ready seqLen ↔ p.Runs s.ready seqLen := by
  unfold Runs
  refine or_congr_left ?_
  unfold VqRuns
  refine and_congr_right ?_
  intro hvq
  refine and_congr_right ?_
  intro hpos
  unfold run runVq
  rw [hvq]
  dsimp only
  rw [if_pos rfl, if_neg (by omega)]
  cases hready : s.ready with
  | true =>
    simp [hready]
  | false =>
    simp only [Bool.false_eq_true, if_false]
    split
    · simp [hready]
    · rename_i henough
      simp
      omega

/-! ## All layers -/

theorem runLayer_self (r : Codebooks β × (Nat → Side → Traced α)) (l : Nat) :
    (p.runLayer codecs seqLen r l).2 l = (p.run codecs seqLen r.1 (r.2 l)).2 :=
  Function.update_self ..

theorem runLayer_of_ne (r : Codebooks β × (Nat → Side → Traced α)) {l n : Nat} (h : l ≠ n) :
    (p.runLayer codecs seqLen r n).2 l = r.2 l :=
  Function.update_of_ne h ..

/-- After `n` layers these are rewritten and the next ones are not, and whether VQ runs is
    still what it was. -/
theorem layers_rewrite (s : Codebooks β) (pool : Nat → Side → Traced α)
    (n : Nat) :
    (p.Runs ((List.range n).foldl (p.runLayer codecs seqLen) (s, pool)).1.ready seqLen ↔
      p.Runs s.ready seqLen) ∧
    ∀ l side, p.RewritesRows (l < n ∧ p.Runs s.ready seqLen) seqLen (pool l side)
      (((List.range n).foldl (p.runLayer codecs seqLen) (s, pool)).2 l side) := by
  induction n with
  | zero =>
    refine ⟨Iff.rfl, ?_⟩
    intro l side
    exact rewritesRows_of_not (fun h => by omega) seqLen _
  | succ n ih =>
    obtain ⟨hruns, hlayers⟩ := ih
    rw [List.range_succ, List.foldl_append, List.foldl_cons, List.foldl_nil]
    refine ⟨(run_runs _ _).trans hruns, ?_⟩
    intro l side
    by_cases hl : l = n
    · subst hl
      have hprev := hlayers l side
      rw [runLayer_self]
      refine (hprev.trans (run_rewrites _ _ side)).congr ?_ ?_
      · intro c
        simp [hruns]
      · intro c
        simp [hruns]
    · have hsame : (l < n + 1) ↔ l < n := by omega
      rw [runLayer_of_ne _ hl, hsame]
      exact hlayers l side

theorem runKvCompressionPass_rewrites (nLayers : Nat) (s : Codebooks β)
    (pool : Nat → Side → Traced α) (l : Nat) (side : Side) :
    p.RewritesRows (l < nLayers ∧ p.Runs s.ready seqLen) seqLen (pool l side)
      ((p.runKvCompressionPass codecs nLayers seqLen s pool).2 l side) := by
  unfold runKvCompressionPass
  split
  · rename_i hoff
    refine rewritesRows_of_not ?_ seqLen _
    simp only [enabled, Bool.not_eq_true', Bool.or_eq_false_iff] at hoff
    simp [Runs, VqRuns, KiviRuns, hoff.1, hoff.2]
  · exact (layers_rewrite s pool nLayers).2 l side

end KvCompressionPass

/-! ## The two sets of rows -/

/-- For the rows of a layer: the forward pass stores to those that the compression takes. -/
def SameRows (g : Geometry) (kvSeqLen seqLen : Nat) (runs : Prop) : Prop :=
  ∀ r, (runs ∧ r < seqLen * g.numKvHeads) ↔ WrittenRow g kvSeqLen seqLen r

theorem not_sameRows_of_offset {g : Geometry} {kvSeqLen seqLen : Nat} {runs : Prop}
    (hlen : 0 < seqLen) (hkv : 0 < g.numKvHeads) (hoff : seqLen < kvSeqLen) :
    ¬ SameRows g kvSeqLen seqLen runs := by
  intro h
  -- some row is written, so the compression runs and takes row 0, which is not written
  have hruns := ((h _).mpr ⟨0, hlen, 0, hkv, rfl⟩).1
  obtain ⟨tok, -, h', -, heq⟩ := (h 0).mp ⟨hruns, Nat.mul_pos hlen hkv⟩
  omega

theorem not_sameRows_of_heads {g : Geometry} {kvSeqLen seqLen : Nat} {runs : Prop}
    (hlen : 0 < seqLen) (hkv : 2 ≤ g.numKvHeads) (hoff : kvSeqLen - seqLen = 0)
    (hcap : seqLen ≠ g.maxNumBlocks * g.blockSize) : ¬ SameRows g kvSeqLen seqLen runs := by
  intro h
  have hruns := ((h _).mpr ⟨0, hlen, 0, by omega, rfl⟩).1
  have htwo : seqLen * 2 ≤ seqLen * g.numKvHeads := Nat.mul_le_mul_left seqLen hkv
  rcases Nat.lt_or_gt_of_ne hcap with hlt | hgt
  · -- the row behind the tokens of head 0 is taken; head 1 begins further up
    obtain ⟨tok, htok, h', -, heq⟩ := (h seqLen).mp ⟨hruns, by omega⟩
    rcases Nat.eq_zero_or_pos h' with hh | hh
    · subst hh
      omega
    · have hle : 1 * (g.maxNumBlocks * g.blockSize) ≤ h' * (g.maxNumBlocks * g.blockSize) :=
        Nat.mul_le_mul_right _ hh
      omega
  · -- the last row that is taken is beyond the last head's tokens
    obtain ⟨tok, htok, h', hh, heq⟩ :=
      (h (seqLen * g.numKvHeads - 1)).mp ⟨hruns, by omega⟩
    have hle : h' * (g.maxNumBlocks * g.blockSize) ≤
        (g.numKvHeads - 1) * (g.maxNumBlocks * g.blockSize) :=
      Nat.mul_le_mul_right _ (by omega)
    have hlt : (g.numKvHeads - 1) * (g.maxNumBlocks * g.blockSize) <
        (g.numKvHeads - 1) * seqLen :=
      Nat.mul_lt_mul_of_pos_left hgt (by omega)
    have hall : (g.numKvHeads - 1) * seqLen + seqLen = seqLen * g.numKvHeads := by
      rw [← Nat.succ_mul, Nat.mul_comm]
      congr 1
      omega
    omega

theorem sameRows_of {g : Geometry} {kvSeqLen seqLen : Nat} {runs : Prop} (hruns : runs)
    (hoff : kvSeqLen - seqLen = 0)
    (hheads : g.numKvHeads = 1 ∨ seqLen = g.maxNumBlocks * g.blockSize) :
    SameRows g kvSeqLen seqLen runs := by
  have hrow : ∀ h < g.numKvHeads, h * (g.maxNumBlocks * g.blockSize) = h * seqLen := by
    intro h hh
    rcases hheads with hone | hall
    · have hzero : h = 0 := by omega
      rw [hzero, Nat.zero_mul, Nat.zero_mul]
    · rw [hall]
  intro r
  constructor
  · intro h
    have hpos : 0 < seqLen := by
      by_contra hno
      have hzero : seqLen = 0 := by omega
      have hlt := h.2
      rw [hzero, Nat.zero_mul] at hlt
      omega
    have hhead : r / seqLen < g.numKvHeads := Nat.div_lt_of_lt_mul h.2
    refine ⟨r % seqLen, Nat.mod_lt r hpos, r / seqLen, hhead, ?_⟩
    have hsplit := Nat.div_add_mod' r seqLen
    rw [hrow _ hhead, hoff]
    omega
  · intro h
    obtain ⟨tok, htok, h', hh, heq⟩ := h
    refine ⟨hruns, ?_⟩
    rw [heq, hrow h' hh, hoff, Nat.zero_add, Nat.mul_comm seqLen]
    exact digits_lt hh htok

theorem sameRows_iff {g : Geometry} {kvSeqLen seqLen : Nat} {runs : Prop} (hle : seqLen ≤ kvSeqLen)
    (hlen : 0 < seqLen) (hkv : 0 < g.numKvHeads) :
    SameRows g kvSeqLen seqLen runs ↔
      runs ∧ kvSeqLen = seqLen ∧
        (g.numKvHeads = 1 ∨ seqLen = g.maxNumBlocks * g.blockSize) := by
  constructor
  · intro h
    have hruns := ((h _).mpr ⟨0, hlen, 0, hkv, rfl⟩).1
    have hoff : kvSeqLen = seqLen := by
      by_contra hne
      exact not_sameRows_of_offset hlen hkv (by omega) h
    refine ⟨hruns, hoff, ?_⟩
    by_contra hno
    rw [not_or] at hno
    exact not_sameRows_of_heads hlen (by omega) (by omega) hno.2 h
  · rintro ⟨hruns, hoff, hheads⟩
    exact sameRows_of hruns (by omega) hheads

theorem mem_forwardPass {α : Type*} {g : Geometry} {kvSeqLen seqLen : Nat}
    {row : Nat → Side → Nat → Nat → Nat → α} {pool : Nat → Side → Nat → α} {l : Nat}
    {side : Side} {c : Nat} :
    c ∈ (forwardPass g kvSeqLen seqLen row pool l side).stores ↔
      l < g.numLayers ∧ ∃ r, WrittenRow g kvSeqLen seqLen r ∧ InRow g.headSize r c := by
  unfold forwardPass
  split
  · rename_i hl
    rw [(touches_storeRows g kvSeqLen seqLen (row l side) _).stores]
    simp [Traced.ofCells, hl]
  · rename_i hl
    simp [Traced.ofCells, hl]

section

variable {α β : Type*} {g : Geometry} {cfg : CompressionConfig} {codecs : Codecs α β}
  {s : Codebooks β} {kvSeqLen seqLen : Nat} {row : Nat → Side → Nat → Nat → Nat → α}
  {pool : Nat → Side → Nat → α}

theorem compressed_touches (forward : Nat → Side → Traced α) (l : Nat) (side : Side) :
    (g.compressionPass cfg).RewritesRows
      (l < g.numLayers ∧ (g.compressionPass cfg).Runs s.ready seqLen) seqLen
      (retraced forward l side) (compressed g cfg codecs s seqLen forward l side) :=
  KvCompressionPass.runKvCompressionPass_rewrites g.numLayers s (retraced forward) l side

/-- In terms of cells, for each layer. -/
theorem rewritesWritten_iff_cells :
    RewritesWritten g cfg codecs s seqLen (forwardPass g kvSeqLen seqLen row pool) ↔
      ∀ l < g.numLayers, ∀ c,
        ((g.compressionPass cfg).Runs s.ready seqLen ∧
          ∃ r < seqLen * g.numKvHeads, InRow g.headSize r c) ↔
        ∃ r, WrittenRow g kvSeqLen seqLen r ∧ InRow g.headSize r c := by
  have htouch : ∀ l side, (g.compressionPass cfg).RewritesRows _ seqLen _
      (compressed g cfg codecs s seqLen (forwardPass g kvSeqLen seqLen row pool) l side) :=
    compressed_touches (forwardPass g kvSeqLen seqLen row pool)
  have hempty : ∀ l side c,
      c ∈ (retraced (forwardPass g kvSeqLen seqLen row pool) l side).loads ↔ False :=
    fun l side c => List.mem_nil_iff c
  constructor
  · intro h l hl c
    have hc := h.loads l .k c
    rw [(htouch l .k).loads, hempty, mem_forwardPass, false_or] at hc
    rw [and_iff_right hl, and_iff_right hl] at hc
    exact hc
  · intro h
    have hcells : ∀ l c,
        ((l < g.numLayers ∧ (g.compressionPass cfg).Runs s.ready seqLen) ∧
          ∃ r < seqLen * g.numKvHeads, InRow g.headSize r c) ↔
        (l < g.numLayers ∧ ∃ r, WrittenRow g kvSeqLen seqLen r ∧ InRow g.headSize r c) := by
      intro l c
      rw [and_assoc]
      exact and_congr_right fun hl => h l hl c
    constructor
    · intro l side c
      rw [(htouch l side).loads, hempty, mem_forwardPass, false_or]
      exact hcells l c
    · intro l side c
      rw [(htouch l side).stores, mem_forwardPass]
      refine (or_iff_right (List.not_mem_nil (a := c))).trans ?_
      exact hcells l c
    · intro l side c hc
      rw [mem_forwardPass] at hc
      exact (htouch l side).others c fun hin => hc ((hcells l c).mp hin)

/-- In terms of rows, where there are layers and elements. -/
theorem rewritesWritten_iff_rows (hL : 0 < g.numLayers) (hhd : 0 < g.headSize) :
    RewritesWritten g cfg codecs s seqLen (forwardPass g kvSeqLen seqLen row pool) ↔
      SameRows g kvSeqLen seqLen ((g.compressionPass cfg).Runs s.ready seqLen) := by
  rw [rewritesWritten_iff_cells]
  simp only [inRow_iff hhd, exists_eq_right']
  constructor
  · intro h r
    have hr := h 0 hL (r * g.headSize)
    rwa [Nat.mul_div_cancel r hhd] at hr
  · intro h l _ c
    exact h (c / g.headSize)

/-- The compression takes the cells that were just written exactly when it runs right behind
    a forward pass that began at slot 0, of a model with one KV head or over tokens that fill
    the cache (or when nothing is written at all). -/
theorem rewritesWritten_iff (kvLen : Nat) :
    RewritesWritten g cfg codecs s seqLen
        (forwardPass g (kvLen + seqLen) seqLen row pool) ↔
      g.numLayers = 0 ∨ seqLen = 0 ∨ g.numKvHeads = 0 ∨ g.headSize = 0 ∨
        ((g.compressionPass cfg).Runs s.ready seqLen ∧ kvLen = 0 ∧
          (g.numKvHeads = 1 ∨ seqLen = g.maxNumBlocks * g.blockSize)) := by
  by_cases hL : g.numLayers = 0
  · rw [rewritesWritten_iff_cells]
    refine iff_of_true ?_ (Or.inl hL)
    intro l hl
    omega
  by_cases hlen : seqLen = 0
  · rw [rewritesWritten_iff_cells]
    refine iff_of_true ?_ (Or.inr (Or.inl hlen))
    intro l _ c
    simp [WrittenRow, hlen]
  by_cases hkv : g.numKvHeads = 0
  · rw [rewritesWritten_iff_cells]
    refine iff_of_true ?_ (Or.inr (Or.inr (Or.inl hkv)))
    intro l _ c
    simp [WrittenRow, hkv]
  by_cases hhd : g.headSize = 0
  · rw [rewritesWritten_iff_cells]
    refine iff_of_true ?_ (Or.inr (Or.inr (Or.inr (Or.inl hhd))))
    intro l _ c
    simp [hhd, not_inRow_zero]
  rw [rewritesWritten_iff_rows (Nat.pos_of_ne_zero hL) (Nat.pos_of_ne_zero hhd),
    sameRows_iff (by omega) (by omega) (by omega)]
  simp [hL, hlen, hkv, hhd]

end

/-- VQ with the default codebook. -/
def vqConfig : CompressionConfig where
  kvVqEnabled := true
  codebookSize := 256
  kvKiviEnabled := false
  residualLength := 128
  bits := 8

/-- Behind a prefill of 32 tokens in the usual geometry, VQ rewrites the slots up to 255 of
    head 0 and none of the other heads. -/
theorem vq_prefill_not_rewritesWritten :
    ¬ RewritesWritten Geometry.usual vqConfig (⟨fun _ => (), fun _ _ _ => (), fun _ _ => ()⟩ :
        Codecs Unit Unit) ⟨false, fun _ => ()⟩ 32
      (forwardPass Geometry.usual (0 + 32) 32 (fun _ _ _ _ _ => ()) fun _ _ _ => ()) := by
  intro h
  have hrows := (rewritesWritten_iff_rows (by decide) (by decide)).mp h
  exact not_sameRows_of_heads (by decide) (by decide) (by decide) (by decide) hrows

end TruellmEngine.Cuda
