/-
  The addresses behind the block slots of the pool (`cuda_allocator.h/.cpp`), as byte
  offsets from `kv_cache_dev_`.

  Two maps name the bytes of a block. The kernels see the pool as
  `[num_layers, 2, num_blocks, num_kv_heads, head_size, block_size]`: the cells of a block
  are one K cell and one V cell in each layer. Eviction and reload copy one run of
  `bytes_per_block()` bytes from `phys * bytes_per_block()` on, as if the blocks were the
  outer dimension. `Geometry.matches_iff`: the two agree on pools of a single block only.

  An `int` is an integer modulo 2^32 around 0, a `size_t` one modulo 2^64.
-/
import Mathlib.Data.Set.Basic
import Mathlib.Tactic.Ring
import Mathlib.Tactic.Linarith

namespace TruellmEngine.Cuda

/-- The dimensions of a pool. -/
structure Geometry where
  numLayers : Nat
  numKvHeads : Nat
  headSize : Nat
  blockSize : Nat
  maxNumBlocks : Nat
  fp8Enabled : Bool
  /-- `max_num_blocks_` is an `int`. -/
  maxNumBlocks_lt : maxNumBlocks < 2 ^ 31

/-- `static_cast<int>`, and the result of an `int` product. -/
def toInt (x : Int) : Int := x.bmod (2 ^ 32)

/-- The conversion to `size_t`. -/
def toSizeT (x : Int) : Nat := (x % 2 ^ 64).toNat

/-- A run of `len` bytes from offset `start` on. -/
def bytesFrom (start : Int) (len : Nat) : Set Int := {x | start ≤ x ∧ x < start + len}

theorem mem_bytesFrom {start x : Int} {len : Nat} :
    x ∈ bytesFrom start len ↔ start ≤ x ∧ x < start + len := Iff.rfl

namespace Geometry

def elemSize (g : Geometry) : Nat := if g.fp8Enabled then 1 else 2

/-- The product in `bytes_per_block`, before its cast. It is taken in 64 bits, and the cast
    to 32 bits does not see a wrap of those. -/
def blockBytes (g : Geometry) : Nat :=
  2 * g.numLayers * g.blockSize * g.numKvHeads * g.headSize * g.elemSize

def bytesPerBlock (g : Geometry) : Int := toInt g.blockBytes

def poolBytes (g : Geometry) : Nat := toSizeT (g.maxNumBlocks * toSizeT g.bytesPerBlock)

/-! ## The layout of the kernels -/

def kvKPoolBytes (g : Geometry) : Nat :=
  toSizeT (g.maxNumBlocks * g.numKvHeads * g.headSize * g.blockSize * g.elemSize)

def kvLayerKvPtr (g : Geometry) (layer : Nat) : Nat := toSizeT (layer * 2 * g.kvKPoolBytes)

def kvLayerKPtr (g : Geometry) (layer : Nat) : Nat := g.kvLayerKvPtr layer

def kvLayerVPtr (g : Geometry) (layer : Nat) : Nat :=
  toSizeT (g.kvLayerKvPtr layer + g.kvKPoolBytes)

/-- The bytes of one block in the K (or V) pool of one layer:
    `[num_kv_heads, head_size, block_size]` elements. -/
def cellBytes (g : Geometry) : Nat := g.numKvHeads * g.headSize * g.blockSize * g.elemSize

/-- The bytes of block `b` in the pool that starts at `start`. -/
def cell (g : Geometry) (start b : Nat) : Set Int :=
  bytesFrom (start + b * g.cellBytes) g.cellBytes

/-- The K and V cells of block `b`, over all layers. -/
def cells (g : Geometry) (b : Nat) : Set Int :=
  {x | ∃ layer < g.numLayers,
    x ∈ g.cell (g.kvLayerKPtr layer) b ∨ x ∈ g.cell (g.kvLayerVPtr layer) b}

/-! ## The layout of eviction and reload -/

/-- `phys * bpb`, and `i * bpb` on the host side. -/
def blockOffset (g : Geometry) (b : Nat) : Int := toInt (b * g.bytesPerBlock)

/-- The pool bytes that `evict_sequence` and `reload_sequence` copy for block `b`. -/
def copied (g : Geometry) (b : Nat) : Set Int :=
  bytesFrom (g.blockOffset b) (toSizeT g.bytesPerBlock)

/-- What is copied for block `b` are its cells, inside the pool and apart from the cells of
    the other blocks, and no 32-bit product wraps. -/
structure Matches (g : Geometry) (b : Nat) : Prop where
  same : g.copied b = g.cells b
  inside : g.copied b ⊆ bytesFrom 0 g.poolBytes
  apart : ∀ b' < g.maxNumBlocks, b' ≠ b → ∀ x ∈ g.copied b, x ∉ g.cells b'
  exactBytes : g.bytesPerBlock = g.blockBytes
  exactOffset : ∀ i < g.maxNumBlocks, g.blockOffset i = i * g.bytesPerBlock

/-! ## Arithmetic -/

theorem toInt_of_lt {x : Nat} (h : x < 2 ^ 31) : toInt x = x := by
  refine Int.bmod_eq_of_le ?_ ?_
  · omega
  · omega

theorem lt_of_toInt {x : Nat} (h : toInt x = x) : x < 2 ^ 31 := by
  have hlt : toInt x < ((2 ^ 32 : Nat) + 1) / 2 := Int.bmod_lt (by decide)
  omega

theorem toSizeT_of_lt {x : Nat} (h : x < 2 ^ 64) : toSizeT x = x := by
  unfold toSizeT
  omega

variable {g : Geometry}

theorem blockBytes_eq (g : Geometry) : g.blockBytes = 2 * g.numLayers * g.cellBytes := by
  unfold blockBytes cellBytes
  ring

/-- The pools of `n` layers end at `n` times two pools, and all of them fit. -/
theorem layers_lt (hT : g.blockBytes < 2 ^ 31) {n : Nat} (hn : n ≤ g.numLayers) :
    n * 2 * (g.maxNumBlocks * g.cellBytes) < 2 ^ 64 := by
  have hle : n * 2 * (g.maxNumBlocks * g.cellBytes) ≤ g.maxNumBlocks * g.blockBytes := by
    calc n * 2 * (g.maxNumBlocks * g.cellBytes)
        ≤ g.numLayers * 2 * (g.maxNumBlocks * g.cellBytes) :=
          Nat.mul_le_mul_right _ (Nat.mul_le_mul_right 2 hn)
      _ = g.maxNumBlocks * g.blockBytes := by
          rw [blockBytes_eq]
          ring
  have hlt : g.maxNumBlocks * g.blockBytes ≤ 2 ^ 31 * 2 ^ 31 :=
    Nat.mul_le_mul g.maxNumBlocks_lt.le hT.le
  omega

theorem kvKPoolBytes_eq (hT : g.blockBytes < 2 ^ 31) (hL : 0 < g.numLayers) :
    g.kvKPoolBytes = g.maxNumBlocks * g.cellBytes := by
  have hone : 1 * 2 * (g.maxNumBlocks * g.cellBytes) < 2 ^ 64 := layers_lt hT hL
  have hprod : g.maxNumBlocks * g.numKvHeads * g.headSize * g.blockSize * g.elemSize =
      g.maxNumBlocks * g.cellBytes := by
    unfold cellBytes
    ring
  have hcast : g.kvKPoolBytes = toSizeT ((g.maxNumBlocks * g.cellBytes : Nat) : Int) := by
    rw [← hprod]
    unfold kvKPoolBytes
    norm_cast
  rw [hcast]
  exact toSizeT_of_lt (by omega)

/-- While a block has less than 2^31 bytes, no `size_t` of the layout wraps. -/
theorem kvLayerPtr_eq (hT : g.blockBytes < 2 ^ 31) {layer : Nat} (hl : layer < g.numLayers) :
    g.kvLayerKPtr layer = layer * 2 * (g.maxNumBlocks * g.cellBytes) ∧
      g.kvLayerVPtr layer =
        layer * 2 * (g.maxNumBlocks * g.cellBytes) + g.maxNumBlocks * g.cellBytes := by
  have hpool := kvKPoolBytes_eq hT (Nat.zero_lt_of_lt hl)
  have hfits : (layer + 1) * 2 * (g.maxNumBlocks * g.cellBytes) < 2 ^ 64 := layers_lt hT hl
  have hsucc : (layer + 1) * 2 * (g.maxNumBlocks * g.cellBytes) =
      layer * 2 * (g.maxNumBlocks * g.cellBytes) + 2 * (g.maxNumBlocks * g.cellBytes) := by
    ring
  have hkv : g.kvLayerKvPtr layer = layer * 2 * (g.maxNumBlocks * g.cellBytes) := by
    unfold kvLayerKvPtr
    rw [hpool]
    exact_mod_cast toSizeT_of_lt (x := layer * 2 * (g.maxNumBlocks * g.cellBytes)) (by omega)
  refine ⟨hkv, ?_⟩
  unfold kvLayerVPtr
  rw [hkv, hpool]
  exact_mod_cast toSizeT_of_lt (x := layer * 2 * (g.maxNumBlocks * g.cellBytes) +
    g.maxNumBlocks * g.cellBytes) (by omega)

theorem mem_cells (hT : g.blockBytes < 2 ^ 31) {b : Nat} {x : Int} :
    x ∈ g.cells b ↔ ∃ layer < g.numLayers,
      ((layer * 2 * (g.maxNumBlocks * g.cellBytes) + b * g.cellBytes : Nat) ≤ x ∧
        x < (layer * 2 * (g.maxNumBlocks * g.cellBytes) + b * g.cellBytes + g.cellBytes : Nat)) ∨
      ((layer * 2 * (g.maxNumBlocks * g.cellBytes) + g.maxNumBlocks * g.cellBytes +
          b * g.cellBytes : Nat) ≤ x ∧
        x < (layer * 2 * (g.maxNumBlocks * g.cellBytes) + g.maxNumBlocks * g.cellBytes +
          b * g.cellBytes + g.cellBytes : Nat)) := by
  unfold cells
  rw [Set.mem_ofPred_eq]
  apply exists_congr
  intro layer
  apply and_congr_right
  intro hl
  obtain ⟨hk, hv⟩ := kvLayerPtr_eq hT hl
  simp only [cell, hk, hv, mem_bytesFrom]
  push_cast
  rfl

/-- Without bytes there is nothing to copy. -/
theorem matches_of_empty (hzero : g.blockBytes = 0) (b : Nat) : g.Matches b := by
  have hbytes : g.bytesPerBlock = 0 := by
    unfold bytesPerBlock
    rw [hzero]
    rfl
  have hoffset : ∀ i, g.blockOffset i = 0 := by
    intro i
    unfold blockOffset
    rw [hbytes, Int.mul_zero]
    rfl
  have hcopied : g.copied b = ∅ := by
    apply Set.eq_empty_of_forall_notMem
    intro x hx
    unfold copied at hx
    rw [hbytes, mem_bytesFrom] at hx
    have hlen : toSizeT 0 = 0 := rfl
    omega
  have hcells : g.cells b = ∅ := by
    apply Set.eq_empty_of_forall_notMem
    intro x hx
    obtain ⟨layer, hl, hin⟩ := (mem_cells (by omega)).mp hx
    have hcell : g.cellBytes = 0 := by
      rw [blockBytes_eq] at hzero
      rcases Nat.mul_eq_zero.mp hzero with h | h
      · omega
      · exact h
    simp only [hcell] at hin
    omega
  refine ⟨hcopied.trans hcells.symm, ?_, ?_, ?_, ?_⟩
  · rw [hcopied]
    exact Set.empty_subset _
  · intro b' _ _ x hx
    rw [hcopied] at hx
    cases hx
  · rw [hbytes, hzero]
    rfl
  · intro i _
    rw [hoffset, hbytes, Int.mul_zero]

/-- While a block has less than 2^31 bytes, the length of a copy is the block's. -/
theorem copied_eq (hT : g.blockBytes < 2 ^ 31) {b : Nat}
    (hoffset : g.blockOffset b = b * g.bytesPerBlock) :
    g.copied b = bytesFrom ((b * g.blockBytes : Nat) : Int) g.blockBytes := by
  have hbytes : g.bytesPerBlock = g.blockBytes := toInt_of_lt hT
  unfold copied
  rw [hoffset, hbytes, toSizeT_of_lt (by omega)]
  push_cast
  rfl

/-- A single block starts at the pool's first byte. -/
theorem blockOffset_zero (g : Geometry) : g.blockOffset 0 = (0 : Nat) * g.bytesPerBlock := by
  unfold blockOffset
  simp [toInt]

/-- With a single block the cells tile the pool, layer by layer. -/
theorem cells_single (hone : g.maxNumBlocks = 1) (hT : g.blockBytes < 2 ^ 31) :
    g.cells 0 = bytesFrom 0 g.blockBytes := by
  ext x
  rw [mem_cells hT, mem_bytesFrom, hone, Nat.one_mul, Nat.zero_mul, blockBytes_eq]
  constructor
  · intro hx
    obtain ⟨layer, hl, hin⟩ := hx
    have hend : (layer + 1) * 2 * g.cellBytes ≤ 2 * g.numLayers * g.cellBytes := by
      refine Nat.mul_le_mul_right g.cellBytes ?_
      omega
    have hsucc : (layer + 1) * 2 * g.cellBytes = layer * 2 * g.cellBytes + 2 * g.cellBytes := by
      ring
    omega
  · intro hx
    obtain ⟨h0, hlt⟩ := hx
    obtain ⟨y, rfl⟩ := Int.eq_ofNat_of_zero_le h0
    have hy : y < g.numLayers * (2 * g.cellBytes) := by
      have hcomm : 2 * g.numLayers * g.cellBytes = g.numLayers * (2 * g.cellBytes) := by ring
      omega
    have hcell : 0 < 2 * g.cellBytes := by
      by_contra hno
      have hzero : 2 * g.cellBytes = 0 := by omega
      rw [hzero, Nat.mul_zero] at hy
      omega
    refine ⟨y / (2 * g.cellBytes), (Nat.div_lt_iff_lt_mul hcell).mpr hy, ?_⟩
    have hlow := Nat.div_mul_le_self y (2 * g.cellBytes)
    have hhigh := Nat.lt_div_mul_add (a := y) hcell
    have hassoc : y / (2 * g.cellBytes) * 2 * g.cellBytes =
        y / (2 * g.cellBytes) * (2 * g.cellBytes) := by ring
    omega

theorem matches_of_single (hone : g.maxNumBlocks = 1) (hT : g.blockBytes < 2 ^ 31) :
    g.Matches 0 := by
  have hbytes : g.bytesPerBlock = g.blockBytes := toInt_of_lt hT
  have hcopied := copied_eq hT g.blockOffset_zero
  rw [Nat.zero_mul, Nat.cast_zero] at hcopied
  have hpool : g.poolBytes = g.blockBytes := by
    unfold poolBytes
    rw [hone, hbytes, toSizeT_of_lt (by omega)]
    exact_mod_cast toSizeT_of_lt (x := 1 * g.blockBytes) (by omega) |>.trans (Nat.one_mul _)
  refine ⟨hcopied.trans (cells_single hone hT).symm, ?_, ?_, hbytes, ?_⟩
  · rw [hcopied, hpool]
  · intro b' hb' hne
    omega
  · intro i hi
    have hzero : i = 0 := by omega
    rw [hzero]
    exact g.blockOffset_zero

/-- With a second block, and bytes in it, the copy of block `b` begins behind its first
    cell, or, for block 0, it runs into the cells of block 1. -/
theorem not_matches (hpos : 0 < g.blockBytes) (htwo : 2 ≤ g.maxNumBlocks) {b : Nat}
    (hb : b < g.maxNumBlocks) : ¬ g.Matches b := by
  intro h
  have hT : g.blockBytes < 2 ^ 31 := lt_of_toInt h.exactBytes
  have hcopied := copied_eq hT (h.exactOffset b hb)
  have hsame : ∀ x : Int, x ∈ g.copied b ↔ x ∈ g.cells b := fun x => by rw [h.same]
  have hbytes := g.blockBytes_eq
  have hL : 0 < g.numLayers := by
    by_contra hno
    have hzero : g.numLayers = 0 := by omega
    rw [hzero, Nat.mul_zero, Nat.zero_mul] at hbytes
    omega
  have hcell : 0 < g.cellBytes := by
    by_contra hno
    have hzero : g.cellBytes = 0 := by omega
    rw [hzero, Nat.mul_zero] at hbytes
    omega
  have htwice : 2 * g.cellBytes ≤ g.blockBytes := by
    rw [hbytes]
    exact Nat.mul_le_mul_right _ (by omega)
  -- the first byte of the K cell in layer 0
  have hfirst : ((b * g.cellBytes : Nat) : Int) ∈ g.copied b := by
    refine (hsame _).mpr ((mem_cells hT).mpr ⟨0, hL, Or.inl ?_⟩)
    rw [Nat.zero_mul]
    omega
  have hzero : b = 0 := by
    rw [hcopied, mem_bytesFrom] at hfirst
    have hle : b * g.blockBytes ≤ b * g.cellBytes := by omega
    by_contra hne
    have hback := Nat.le_of_mul_le_mul_left hle (Nat.pos_of_ne_zero hne)
    omega
  subst hzero
  -- the byte behind that cell belongs to block 1
  have hnext : ((g.cellBytes : Nat) : Int) ∈ g.cells 0 := by
    refine (hsame _).mp ?_
    rw [hcopied, mem_bytesFrom]
    omega
  obtain ⟨layer, -, hin⟩ := (mem_cells hT).mp hnext
  have hblocks : 2 * g.cellBytes ≤ g.maxNumBlocks * g.cellBytes := Nat.mul_le_mul_right _ htwo
  rcases Nat.eq_zero_or_pos layer with hl | hl
  · subst hl
    omega
  · have hlayer : 1 * 2 * (g.maxNumBlocks * g.cellBytes) ≤
        layer * 2 * (g.maxNumBlocks * g.cellBytes) :=
      Nat.mul_le_mul_right _ (Nat.mul_le_mul_right 2 hl)
    omega

/-- Eviction and reload address the cells of a block exactly when the pool has a single
    block, below 2^31 bytes, or no bytes at all. -/
theorem matches_iff (g : Geometry) (b : Fin g.maxNumBlocks) :
    g.Matches b ↔ g.blockBytes = 0 ∨ (g.maxNumBlocks = 1 ∧ g.blockBytes < 2 ^ 31) := by
  constructor
  · intro h
    have hT : g.blockBytes < 2 ^ 31 := lt_of_toInt h.exactBytes
    by_cases hzero : g.blockBytes = 0
    · exact Or.inl hzero
    · right
      refine ⟨?_, hT⟩
      have hb := b.isLt
      by_contra hne
      exact not_matches (by omega) (by omega) hb h
  · intro h
    rcases h with hzero | hsingle
    · exact matches_of_empty hzero b
    · obtain ⟨hone, hT⟩ := hsingle
      have hb := b.isLt
      have hfirst : (b : Nat) = 0 := by omega
      rw [hfirst]
      exact matches_of_single hone hT

/-- 32 layers, 8 KV heads of 128, 16 tokens a block, 1024 blocks of half precision. -/
def usual : Geometry where
  numLayers := 32
  numKvHeads := 8
  headSize := 128
  blockSize := 16
  maxNumBlocks := 1024
  fp8Enabled := false
  maxNumBlocks_lt := by decide

theorem usual_not_matches : ¬ usual.Matches 0 := not_matches (by decide) (by decide) (by decide)

end Geometry

end TruellmEngine.Cuda
